import MemDb.Operators.Dispatcher

/-! # Requests that arrive at a node

    `TCPServer::onNewRequest`: the key of a request says whether a user or a node sent it, and only
    a request of a node may carry a node id. The dispatcher gets what passes this check.
-/

namespace MemDb

/-! ### Authentication -/

namespace Authenticator

def authenticate (config : Configuration) (authKey : List UInt8) : Bool :=
  config.authApiUserKey == authKey || config.authNodeKey == authKey

def getAuthenticationType (config : Configuration) (authKey : List UInt8) :
    Option AuthenticationType :=
  if config.authApiUserKey == authKey then some .USER
  else if config.authNodeKey == authKey then some .NODE
  else none

end Authenticator

namespace TCPServer

variable (config : Configuration) (others : UInt8 → Option Operator)

/-- The response of `sendAuthError`. -/
def authError (request : Request) : Response :=
  { Response.error ErrorCode.AUTH_ERROR with
    requestNumber := request.requestNumber
    timestamp := ⟨0, request.operation.timestamp⟩ }

/-- The result of the dispatcher; its response gets the number of the request. -/
def answer (request : Request) (result : Node × Response) : Node × Response :=
  (result.1, { result.2 with requestNumber := request.requestNumber })

/-- `onNewRequest` once the request is deserialized. -/
def onDeserialized (request : Request) (node : Node) : Option (Node × Response) :=
  if !Authenticator.authenticate config request.authentication.authKey then
    some (node, authError request)
  else
    (Authenticator.getAuthenticationType config request.authentication.authKey).bind
      fun authenticationType =>
        if authenticationType != .NODE && request.authentication.flag1 then
          some (node, authError request)
        else
          (dispatch config others
            { request with authenticationType := authenticationType } node).map (answer request)

def onNewRequest (requestRawBuffer : List UInt8) (node : Node) : Option (Node × Response) :=
  (RequestDeserializer.deserialize requestRawBuffer).bind fun request =>
    onDeserialized config others request node

end TCPServer

/-! ### Users and nodes -/

/-- A request that carries the key of the users and no node id. -/
structure Request.FromUser (request : Request) (config : Configuration) : Prop where
  authKey : request.authentication.authKey = config.authApiUserKey
  flag1 : request.authentication.flag1 = false

namespace TCPServer

variable {config : Configuration} (others : UInt8 → Option Operator)

theorem onDeserialized_user {request : Request} (h : request.FromUser config) (node : Node) :
    onDeserialized config others request node =
      (dispatch config others { request with authenticationType := .USER } node).map
        (answer request) := by
  unfold onDeserialized Authenticator.authenticate Authenticator.getAuthenticationType
  simp [h.authKey, h.flag1]

theorem onDeserialized_node {request : Request}
    (hkey : request.authentication.authKey = config.authNodeKey)
    (hne : config.authApiUserKey ≠ config.authNodeKey) (node : Node) :
    onDeserialized config others request node =
      (dispatch config others { request with authenticationType := .NODE } node).map
        (answer request) := by
  unfold onDeserialized Authenticator.authenticate Authenticator.getAuthenticationType
  simp [hkey, hne]

/-- A request of another node arrives over the wire as it was prepared. -/
theorem onNewRequest_prepareRequest {sender : Configuration} {operation : OperationBody}
    (h : (prepareRequest sender operation).Encodable) (node : Node) :
    ((RequestSerializer.serialize (prepareRequest sender operation)).bind fun bytes =>
      onNewRequest config others bytes node) =
        onDeserialized config others (prepareRequest sender operation) node := by
  -- a node sends its own id, so that none of its fields is filled in by the receiver
  have hreceived :
      (prepareRequest sender operation).received = prepareRequest sender operation := by
    simp [Request.received, prepareRequest]
  unfold onNewRequest
  rw [← Option.bind_assoc, Request.deserialize_serialize h, hreceived]
  rfl

end TCPServer

end MemDb

import MemDb.Lib.Run
import MemDb.Operators.Effects
import MemDb.Operators.Locality

/-! # One store per key

    The dispatcher hands an operator on a key to the store of the partition of that key, unless the
    type of the operator is `NODE_MAINTENANCE`: then it is the store of partition 0. As long as such
    operators get keys of partition 0 only, a node is one map from keys to contents: each successful
    request has its effect on the content of its key, and a `GET` shows that content.
-/

namespace MemDb

open Lib.Run Option OperatorNumbers

/-! ### Dispatching a request on a key -/

section dispatching
variable (config : Configuration) (nNodes : UInt32) (quorums : CasQuorums)

/-- The operators on keys with their numbers. -/
inductive KeyOperator : UInt8 → Operator → Prop
  | set : KeyOperator SET (SetOperator config)
  | delete : KeyOperator DEL (DeleteOperator config)
  | get : KeyOperator GET (GetOperator config)
  | contains : KeyOperator CONTAINS (ContainsOperator config)
  | updateCounter : KeyOperator UPDATE_COUNTER
      (UpdateCounterOperator config nNodes)
  | replicateCounter : KeyOperator REPLICATE_COUNTER
      (ReplicateCounterOperator config nNodes)
  | cas : KeyOperator CAS (CasOperator config quorums)
  | prepareCas : KeyOperator CAS_PREPARE (PrepareCasOperator config)
  | acceptCas : KeyOperator CAS_ACCEPT (AcceptCasOperator config)

variable {config nNodes quorums}

theorem keyOperator_of_registry {number : UInt8} {operator : Operator}
    (hregistry : operatorRegistry config (keyOperators config nNodes quorums) number =
      some operator) : KeyOperator config nNodes quorums number operator := by
  simp only [operatorRegistry, keyOperators, casOperators] at hregistry
  split_ifs at hregistry <;> obtain rfl := some.inj hregistry <;> subst number <;> constructor

/-- The operators that get the store of partition 0 whatever their key. -/
def ignoresPartition (number : UInt8) : Bool :=
  number == UPDATE_COUNTER || number == CAS_PREPARE ||
    number == CAS_ACCEPT

section operator
variable {number : UInt8} {operator : Operator}
  (hop : KeyOperator config nNodes quorums number operator)
include hop

theorem KeyOperator.type_eq :
    (operator.desc.type == .NODE_MAINTENANCE) = ignoresPartition number := by
  cases hop <;> rfl

variable {operation : OperationBody}

theorem KeyOperator.partition {key : SimpleString} (hkey : operation.getArg 0 = some key) :
    partitionOfOperation config operator operation =
      some (if ignoresPartition number then 0 else getPartitionIdByKey config key) := by
  unfold partitionOfOperation
  rw [hop.type_eq, hkey]
  split <;> rfl

theorem KeyOperator.local {options : OperationOptions} {key : SimpleString}
    (hkey : operation.getArg 0 = some key)
    (hpartition : options.partitionId = getPartitionIdByKey config key) :
    Local (getPartitionIdByKey config key) (operator.operate operation options) := by
  cases hop with
  | contains => exact local_contains config operation options hkey
  | set => rw [← hpartition]; exact local_set config operation options
  | delete => rw [← hpartition]; exact local_delete config operation options
  | get => rw [← hpartition]; exact local_get config operation options
  | updateCounter => rw [← hpartition]; exact local_updateCounter config _ operation options
  | replicateCounter => rw [← hpartition]; exact local_replicateCounter config _ operation options
  | cas => rw [← hpartition]; exact local_cas config _ operation options
  | prepareCas => rw [← hpartition]; exact local_prepareCas config operation options
  | acceptCas => rw [← hpartition]; exact local_acceptCas config operation options

/-- Without the store that it asks for, such an operator does not return. -/
theorem KeyOperator.operate_none {options : OperationOptions} {node : Node}
    (hignores : ignoresPartition number = true)
    (hnone : node.memDbStores options.partitionId = none) :
    operator.operate operation options node = none := by
  cases hop with
  | updateCounter => simp [UpdateCounterOperator, hnone]
  | prepareCas => simp [PrepareCasOperator, hnone]
  | acceptCas => simp [AcceptCasOperator, hnone]
  | _ => exact absurd hignores (by decide)

end operator

/-- A request is run on the store of the partition of its key exactly when its operator is not one
    of those, or that partition is 0. -/
theorem runsOn_iff {request : Request} {operator : Operator} {key : SimpleString}
    (hregistry : operatorRegistry config (keyOperators config nNodes quorums)
      request.operation.operatorNumber = some operator)
    (hkey : request.operation.getArg 0 = some key)
    (hauthorized : isAuthorizedToExecute operator request.authenticationType = true)
    (hreturns : ∃ node : Node, node.nodeState = .RUNNING ∧ node.delayedOperationsBuffer = [] ∧
      (dispatch config (keyOperators config nNodes quorums) request node).isSome) :
    RunsOn config (keyOperators config nNodes quorums) request
        (getPartitionIdByKey config key) ↔
      ignoresPartition request.operation.operatorNumber = false ∨
        getPartitionIdByKey config key = 0 := by
  have hop := keyOperator_of_registry hregistry
  have hpartition := hop.partition hkey
  constructor
  · intro hruns
    by_contra hneither
    push Not at hneither
    obtain ⟨hignores, hzero⟩ := hneither
    replace hignores := Bool.eq_true_of_not_eq_false hignores
    obtain ⟨node, hrun, hempty, hsome⟩ := hreturns
    -- the store of partition 0 is what the operator asks for, and it is missing
    have hnone : dispatch config (keyOperators config nNodes quorums) request
        (node.only (getPartitionIdByKey config key)) = none := by
      have hmissing : (node.only (getPartitionIdByKey config key)).memDbStores 0 = none :=
        if_neg (Ne.symm hzero)
      rw [dispatch_running config _ (show (node.only _).nodeState = _ from hrun) hempty,
        dispatchNoApply_executes config _ hregistry
          (canExecuteRequest_running config (show (node.only _).nodeState = _ from hrun)),
        if_pos hauthorized, hpartition, if_pos hignores]
      have htype : operator.desc.type = .NODE_MAINTENANCE := by
        rw [← beq_iff_eq, hop.type_eq, hignores]
      simp [invalidPartition, htype, executeOperation_eq,
        hop.operate_none hignores
          (show (node.only _).memDbStores (optionsOfRequest operator request 0).partitionId = none
            from hmissing)]
    rw [hruns node hrun hempty, hnone] at hsome
    cases hsome
  · intro hcond
    apply runsOn_of_local config _ hregistry
    intro p hp
    rw [hpartition] at hp
    have hp' : p = getPartitionIdByKey config key := by
      rw [← some.inj hp]
      rcases hcond with hno | hzero
      · rw [hno]
        rfl
      · rw [hzero]
        split <;> rfl
    exact hop.local hkey hp'

end dispatching

/-! ### A node that gets requests on keys -/

/-- A request, and what a call of `CAS` hears from the other nodes. -/
structure KeyRequest where
  request : Request
  quorums : CasQuorums

/-- A node, and for each key the content that the successful requests have left. -/
structure KeyedNode where
  node : Node
  contents : SimpleString → Option Content

section system
variable (config : Configuration) (nNodes : UInt32)

def KeyedNode.start (node : Node) : KeyedNode := ⟨node, node.content config⟩

/-- The contents after a response: a successful operation has its effect on its key. -/
def contentsAfter (operation : OperationBody) (response : Response)
    (contents : SimpleString → Option Content) : SimpleString → Option Content :=
  if response.isSuccessful then
    (operation.getArg 0).elim contents fun key =>
      Function.update contents key
        (effectOn config nNodes operation (contents key))
  else contents

def KeyedNode.step (event : KeyRequest) (state : KeyedNode) : Option KeyedNode :=
  (dispatch config (keyOperators config nNodes event.quorums) event.request
      state.node).map fun (node, response) =>
    ⟨node, contentsAfter config nNodes event.request.operation response
      state.contents⟩

/-- What a request must find in the store of its key. -/
def KeyRequest.storeSafe (event : KeyRequest) (key : SimpleString) (clock : LamportClock)
    (m : Map) : Bool :=
  let operation := event.request.operation
  let keyHash := config.calculateHash key
  if operation.operatorNumber = SET then
    let options :=
      optionsOfRequest (SetOperator config) event.request (getPartitionIdByKey config key)
    m.reportsRefusal keyHash (getTimestamp config operation options) options.updateClockStrategy
      options.checkTimestamps
  else if operation.operatorNumber = DEL then
    let options := optionsOfRequest (DeleteOperator config) event.request
      (getPartitionIdByKey config key)
    m.removalSafe keyHash (getTimestamp config operation options) options.updateClockStrategy
      options.checkTimestamps
  else if operation.operatorNumber = UPDATE_COUNTER then
    (m.view keyHash).all fun entry => entry.type == .COUNTER
  else if operation.operatorNumber = CAS then
    m.reportsCasRefusal keyHash clock event.quorums.promises.length
  else if operation.operatorNumber = CAS_ACCEPT then
    (operation.getTimestampArg 5).all fun nextTimestamp =>
      m.reportsRefusal keyHash nextTimestamp .SET_MAX true
  else true

/-- The condition on a request: an operator that gets the store of partition 0 has a key of that
    partition, and the store of the key is as the operator needs it. -/
def KeyRequest.safe (event : KeyRequest) (key : SimpleString) (node : Node) : Bool :=
  (!ignoresPartition event.request.operation.operatorNumber ||
      getPartitionIdByKey config key == 0) &&
    (node.memDbStores (getPartitionIdByKey config key)).any (event.storeSafe config key node.clock)

/-- A request on one of the given keys that meets the condition. -/
def SafeRequest (keys : Set SimpleString) (event : KeyRequest) (state : KeyedNode) : Prop :=
  ∃ key ∈ keys, event.request.operation.getArg 0 = some key ∧
    event.safe config key state.node = true

/-- No two of the keys share an entry. -/
def DistinctKeys (keys : Set SimpleString) : Prop :=
  ∀ key ∈ keys, ∀ key' ∈ keys, getPartitionIdByKey config key = getPartitionIdByKey config key' →
    config.calculateHash key = config.calculateHash key' → key = key'

/-- A running node with a store for each of the keys. -/
structure Node.Holds (keys : Set SimpleString) (node : Node) : Prop where
  running : node.nodeState = .RUNNING
  buffer : node.delayedOperationsBuffer = []
  stores : ∀ key ∈ keys, ∃ m, node.memDbStores (getPartitionIdByKey config key) = some m ∧
    m.WellFormed

end system

/-! ### Steps and runs -/

section steps
variable {config : Configuration} {nNodes : UInt32} {event : KeyRequest}
  {key : SimpleString} {node node' : Node} {response : Response} {m : Map}

/-- An operator that finds the store of its key as it needs it has its effect on that key only. -/
theorem KeyOperator.edits {number : UInt8} {operator : Operator}
    (hop : KeyOperator config nNodes event.quorums number operator)
    (hnumber : event.request.operation.operatorNumber = number)
    (hkey : event.request.operation.getArg 0 = some key)
    (hm : node.memDbStores (getPartitionIdByKey config key) = some m) (hwf : m.WellFormed)
    (hsafe : event.storeSafe config key node.clock m = true)
    (hrun : operator.operate event.request.operation
      (optionsOfRequest operator event.request (getPartitionIdByKey config key)) node =
        some (node', response)) :
    node.Edits config key node' (if response.isSuccessful then
        effectOn config nNodes event.request.operation (node.content config key)
      else node.content config key) := by
  -- the number decides which effect and which condition it is
  unfold effectOn
  simp only [KeyRequest.storeSafe, hnumber] at hsafe
  rw [hnumber]
  cases hop with
  | set => exact edits_set hkey rfl hm hwf hsafe hrun
  | delete => exact edits_delete hkey rfl hm hwf hsafe hrun
  | get =>
    have hedits := edits_get hm hwf hrun
    split <;> exact hedits
  | contains =>
    have hedits := edits_contains hm hwf hrun
    split <;> exact hedits
  | updateCounter =>
    refine edits_updateCounter hkey rfl hm hwf ?_ hrun
    intro v hv
    have hany := (any_type_iff hwf (config.calculateHash key)).mpr ⟨v, hv⟩
    have hall : ((m.view (config.calculateHash key)).all fun entry => entry.type == .COUNTER) =
        true := hsafe
    cases hview : m.view (config.calculateHash key) with
    | none => simp [hview] at hany
    | some entry => simp_all
  | replicateCounter => exact edits_replicateCounter hkey rfl hm hwf hrun
  | cas => exact edits_cas hkey rfl hm hwf hsafe hrun
  | prepareCas =>
    have hedits := edits_prepareCas hm hwf hrun
    split <;> exact hedits
  | acceptCas =>
    refine edits_acceptCas hkey rfl hm hwf ?_ hrun
    intro nextTimestamp hnext
    have hall : ((event.request.operation.getTimestampArg 5).all fun nextTimestamp =>
        m.reportsRefusal (config.calculateHash key) nextTimestamp .SET_MAX true) = true := hsafe
    rw [hnext] at hall
    exact hall

/-- So does the request when it is dispatched. -/
theorem dispatch_edits (hrunning : node.nodeState = .RUNNING)
    (hempty : node.delayedOperationsBuffer = [])
    (hkey : event.request.operation.getArg 0 = some key)
    (hm : node.memDbStores (getPartitionIdByKey config key) = some m) (hwf : m.WellFormed)
    (hsafe : event.safe config key node = true)
    (hrun : dispatch config (keyOperators config nNodes event.quorums) event.request
      node = some (node', response)) :
    node.Edits config key node' (if response.isSuccessful then
        effectOn config nNodes event.request.operation (node.content config key)
      else node.content config key) := by
  have hunchanged : node.Edits config key node (node.content config key) :=
    Node.Edits.unchanged hm hwf rfl rfl rfl
  rw [dispatch_running config _ hrunning hempty] at hrun
  cases hregistry : operatorRegistry config
      (keyOperators config nNodes event.quorums)
      event.request.operation.operatorNumber with
  | none =>
    unfold dispatchNoApplyDelayedOperationsBuffer at hrun
    rw [hregistry] at hrun
    cases hrun
    exact hunchanged
  | some operator =>
    have hop := keyOperator_of_registry hregistry
    rw [dispatchNoApply_executes config _ hregistry (canExecuteRequest_running config hrunning)]
      at hrun
    split at hrun
    · obtain ⟨invalid, -, hrun⟩ := bind_eq_some_iff.mp hrun
      cases invalid with
      | true =>
        cases hrun
        exact hunchanged
      | false =>
        -- the partition in the options is that of the key
        have hsafe' := hsafe
        rw [KeyRequest.safe, Bool.and_eq_true, hm, any_some] at hsafe'
        have hpartition : partitionOfOperation config operator event.request.operation =
            some (getPartitionIdByKey config key) := by
          rw [hop.partition hkey]
          cases hignores : ignoresPartition event.request.operation.operatorNumber with
          | false => rfl
          | true =>
            have hzero : getPartitionIdByKey config key = 0 := by
              simpa [hignores] using hsafe'.1
            rw [hzero]
            rfl
        simp only [hpartition, Bool.false_eq_true, if_false, bind_some,
          executeOperation_eq] at hrun
        obtain ⟨⟨edited, result⟩, hoperate, hafter⟩ := bind_eq_some_iff.mp hrun
        obtain ⟨rfl, hstate, hbuffer, hstores, -⟩ := persistAndBroadcast_keeps config hafter
        exact (hop.edits rfl hkey hm hwf hsafe'.2 hoperate).rest hstate hbuffer hstores
    · cases hrun
      exact hunchanged

variable {content : Option Content} {keys : Set SimpleString}

/-- The other keys keep their content. -/
theorem Node.Edits.content_other {key' : SimpleString} (h : node.Edits config key node' content)
    (hother : getPartitionIdByKey config key' = getPartitionIdByKey config key →
      config.calculateHash key' ≠ config.calculateHash key) :
    node'.content config key' = node.content config key' := by
  obtain ⟨m, m', hm, hm', -, hview, -⟩ := h.store
  by_cases hp : getPartitionIdByKey config key' = getPartitionIdByKey config key
  · unfold Node.content
    rw [hp, hm, hm', bind_some, bind_some, View.content, View.content,
      hview _ (hother hp)]
  · unfold Node.content
    rw [h.others _ hp]

theorem Node.Edits.content_self (h : node.Edits config key node' content) :
    node'.content config key = content := by
  obtain ⟨m, m', -, hm', -, -, hcontent⟩ := h.store
  rw [Node.content_of_store hm', hcontent]

theorem Node.Holds.edits (h : node.Holds config keys)
    (hedits : node.Edits config key node' content) :
    node'.Holds config keys := by
  refine ⟨hedits.state.trans h.running, hedits.buffer.trans h.buffer, ?_⟩
  intro key' hkey'
  by_cases hp : getPartitionIdByKey config key' = getPartitionIdByKey config key
  · obtain ⟨m, m', -, hm', hwf', -, -⟩ := hedits.store
    exact ⟨m', by rw [hp, hm'], hwf'⟩
  · rw [hedits.others _ hp]
    exact h.stores key' hkey'

section contents
variable {operation : OperationBody} (hkey : operation.getArg 0 = some key)
  (contents : SimpleString → Option Content)
include hkey

theorem contentsAfter_self : contentsAfter config nNodes operation response contents key =
    if response.isSuccessful then effectOn config nNodes operation (contents key)
    else contents key := by
  unfold contentsAfter
  rw [hkey]
  cases response.isSuccessful <;> simp

theorem contentsAfter_ne {key' : SimpleString} (hne : key' ≠ key) :
    contentsAfter config nNodes operation response contents key' = contents key' := by
  unfold contentsAfter
  rw [hkey]
  cases response.isSuccessful <;> simp [hne]

end contents

/-- A node that holds the contents it should. -/
structure KeyedNode.Consistent (config : Configuration) (keys : Set SimpleString)
    (state : KeyedNode) : Prop where
  holds : state.node.Holds config keys
  contents : ∀ key ∈ keys, state.contents key = state.node.content config key

theorem KeyedNode.Consistent.step (hdistinct : DistinctKeys config keys) {state next : KeyedNode}
    (h : state.Consistent config keys) (hsafe : SafeRequest config keys event state)
    (hstep : KeyedNode.step config nNodes event state = some next) :
    next.Consistent config keys := by
  obtain ⟨key, hmem, hkey, hsafe⟩ := hsafe
  obtain ⟨⟨node', response⟩, hrun, rfl⟩ := map_eq_some_iff.mp hstep
  obtain ⟨m, hm, hwf⟩ := h.holds.stores key hmem
  have hedits := dispatch_edits h.holds.running h.holds.buffer hkey hm hwf hsafe hrun
  refine ⟨h.holds.edits hedits, ?_⟩
  intro key' hmem'
  show contentsAfter config nNodes event.request.operation response state.contents
    key' = node'.content config key'
  by_cases heq : key' = key
  · subst heq
    rw [hedits.content_self, contentsAfter_self hkey, h.contents key' hmem']
  · -- two of the keys that differ have entries of their own
    rw [hedits.content_other fun hp hh => heq (hdistinct key' hmem' key hmem hp hh),
      contentsAfter_ne hkey _ heq, h.contents key' hmem']

/-- A `GET` of a user. -/
def Request.IsGet (request : Request) (key : SimpleString) : Prop :=
  request.operation.operatorNumber = GET ∧
    request.operation.getArg 0 = some key ∧ request.authenticationType = .USER

theorem dispatch_get (hnode : node.Holds config keys) (hmem : key ∈ keys) (quorums : CasQuorums)
    {request : Request} (hget : request.IsGet key) :
    (dispatch config (keyOperators config nNodes quorums) request node).map
      (fun result => (result.2.isSuccessful, result.2.responseValue)) =
        shown (node.content config key) := by
  obtain ⟨hnumber, hkey, huser⟩ := hget
  obtain ⟨m, hm, hwf⟩ := hnode.stores key hmem
  have hregistry : operatorRegistry config (keyOperators config nNodes quorums)
      request.operation.operatorNumber = some (GetOperator config) := by
    rw [hnumber]
    rfl
  have hauthorized :
      isAuthorizedToExecute (GetOperator config) request.authenticationType = true := by
    rw [huser]
    rfl
  have hvalid : invalidPartition config (GetOperator config) request.operation = some false := by
    unfold invalidPartition
    rw [if_neg (by simp [GetOperator])]
  -- reading neither persists nor broadcasts
  have hexecute : ∀ options, executeOperation config (GetOperator config) request.operation options
      node = (GetOperator config).operate request.operation options node := by
    intro options
    rw [executeOperation_eq]
    dsimp only
    cases (GetOperator config).operate request.operation options node with
    | none => rfl
    | some result => rfl
  rw [dispatch_running config _ hnode.running hnode.buffer,
    dispatchNoApply_executes config _ hregistry (canExecuteRequest_running config hnode.running),
    if_pos hauthorized, hvalid,
    (keyOperator_of_registry hregistry).partition hkey, hnumber, Node.content_of_store hm]
  show ((executeOperation config (GetOperator config) request.operation (optionsOfRequest
    (GetOperator config) request (getPartitionIdByKey config key)) node).map _) = _
  rw [hexecute]
  simp only [GetOperator, optionsOfRequest, hm, hkey, hwf.get, bind_eq_bind, bind_some,
    View.content]
  cases hview : m.view (config.calculateHash key) with
  | none => rfl
  | some entry =>
    have htype := hwf.type_eq hview
    cases hdata : entry.data with
    | data d =>
      simp [GetOperator.getTimestampCounter, GetOperator.getValue, htype, hdata, NodeData.nodeType,
        NodeData.asData, NodeData.content, shown]
    | counter c =>
      cases hcount : c.count with
      | none =>
        simp [GetOperator.getTimestampCounter, GetOperator.getValue, htype, hdata,
          NodeData.nodeType, NodeData.asCounter, NodeData.content, shown, hcount]
      | some count =>
        simp [GetOperator.getTimestampCounter, GetOperator.getValue, htype, hdata,
          NodeData.nodeType, NodeData.asCounter, NodeData.content, shown, hcount]

end steps

/-- Dispatched to a running node, a request on a key that the node holds is run on the store of the
    partition of the key exactly when the partition is 0 or the operator is not one of the three
    that get the store of partition 0. In every run of requests that keep to this, and that find
    their store as they need it, a `GET` shows of every key what the successful requests on it have
    made of it. -/
theorem one_store_per_key (config : Configuration) (nNodes : UInt32) :
    (∀ (quorums : CasQuorums) (request : Request) (operator : Operator) (key : SimpleString),
      operatorRegistry config (keyOperators config nNodes quorums)
        request.operation.operatorNumber = some operator →
      request.operation.getArg 0 = some key →
      isAuthorizedToExecute operator request.authenticationType = true →
      (∃ node : Node, node.nodeState = .RUNNING ∧ node.delayedOperationsBuffer = [] ∧
        (dispatch config (keyOperators config nNodes quorums) request node).isSome) →
      (RunsOn config (keyOperators config nNodes quorums) request
          (getPartitionIdByKey config key) ↔
        ignoresPartition request.operation.operatorNumber = false ∨
          getPartitionIdByKey config key = 0)) ∧
    ∀ (keys : Set SimpleString) (node : Node) (events : List KeyRequest) (final : KeyedNode),
      DistinctKeys config keys → node.Holds config keys →
      Guarded (KeyedNode.step config nNodes) (SafeRequest config keys) events
        (KeyedNode.start config node) →
      run (KeyedNode.step config nNodes) events (KeyedNode.start config node) =
        some final →
      ∀ key ∈ keys, ∀ (quorums : CasQuorums) (request : Request), request.IsGet key →
        (dispatch config (keyOperators config nNodes quorums) request
            final.node).map (fun result => (result.2.isSuccessful, result.2.responseValue)) =
          shown (final.contents key) := by
  constructor
  · intro quorums request operator key hregistry hkey hauthorized hreturns
    exact runsOn_iff hregistry hkey hauthorized hreturns
  · intro keys node events final hdistinct hnode hguarded hrun key hmem quorums request hget
    have hstart : (KeyedNode.start config node).Consistent config keys := ⟨hnode, fun _ _ => rfl⟩
    have hstep : ∀ event (state next : KeyedNode), state.Consistent config keys →
        SafeRequest config keys event state →
        KeyedNode.step config nNodes event state = some next →
        next.Consistent config keys :=
      fun _ _ _ h hsafe hstep => h.step hdistinct hsafe hstep
    have hfinal := invariant hstep hstart hguarded hrun
    rw [dispatch_get hfinal.holds hmem quorums hget, hfinal.contents key hmem]

/-! ### Two partitions -/

/-- Node 1 of a cluster with partitions; the key `b` is of partition 1, all others of partition
    0. -/
def twoPartitions : Configuration where
  nodeId := 1
  authApiUserKey := [117]
  authNodeKey := [110]
  useReplication := true
  usePartitions := true
  canHoldKey _ := true
  getDistanceOfKey key := if key = [98] then 1 else 0
  calculateHash := shortKeyHash

/-- The node with two empty stores. -/
def twoStores : Node :=
  { emptyNode .RUNNING 1 with
    memDbStores := fun p => if p ≤ 1 then (emptyNode .RUNNING 1).memDbStores 0 else none }

/-- A request of a user. -/
def userRequest (operatorNumber : UInt8) (args : List SimpleString) : Request where
  authentication := ⟨[117], false, false⟩
  operation := ⟨some args, 0, 0, operatorNumber, true, false⟩
  requestNumber := 0
  authenticationType := .USER

/-- A value for `b`, a counter for `a`, and a `CAS` on `b` that gets its quorums at the second
    pass. -/
def twoKeys : List KeyRequest :=
  [⟨userRequest SET [[98], [120]], ⟨[], false⟩⟩,
    ⟨userRequest UPDATE_COUNTER [[97]], ⟨[], false⟩⟩,
    ⟨userRequest CAS [[98], [120], [121]], ⟨[false, true], true⟩⟩]

/-- The condition on a request, for a list of keys. -/
def safeRequest (config : Configuration) (keys : List SimpleString) (event : KeyRequest)
    (state : KeyedNode) : Bool :=
  (event.request.operation.getArg 0).any fun key =>
    keys.contains key && event.safe config key state.node

theorem safeRequest_spec {config : Configuration} {keys : List SimpleString} {event : KeyRequest}
    {state : KeyedNode} (h : safeRequest config keys event state = true) :
    SafeRequest config { key | key ∈ keys } event state := by
  obtain ⟨key, hkey, hsafe⟩ := (any_eq_true _ _).mp h
  rw [Bool.and_eq_true] at hsafe
  exact ⟨key, List.contains_iff_mem.mp hsafe.1, hkey, hsafe.2⟩

theorem holds_twoStores : twoStores.Holds twoPartitions { key | key ∈ [[97], [98]] } := by
  refine ⟨rfl, rfl, ?_⟩
  intro key hkey
  refine ⟨Map.new 1 (by decide), ?_, Map.wellFormed_new 1 (by decide)⟩
  have hcases : key = [97] ∨ key = [98] := by simpa using hkey
  rcases hcases with rfl | rfl <;> rfl

/-- After these requests a `GET` shows what the `CAS` has written, and the `CAS` was run on the
    store of partition 1. -/
theorem one_store_per_key_two :
    RunsOn twoPartitions (keyOperators twoPartitions 2 ⟨[false, true], true⟩)
      (userRequest CAS [[98], [120], [121]]) 1 ∧
    ∃ final, run (KeyedNode.step twoPartitions 2) twoKeys
      (KeyedNode.start twoPartitions twoStores) = some final ∧
    (dispatch twoPartitions (keyOperators twoPartitions 2 ⟨[], false⟩)
        (userRequest GET [[98]]) final.node).map
      (fun result => (result.2.isSuccessful, result.2.responseValue)) = some (true, [121]) := by
  constructor
  · -- the call returns at the node after the first request
    obtain ⟨node, response, -, hnode⟩ : ∃ node response, dispatch twoPartitions
        (keyOperators twoPartitions 2 ⟨[false, true], true⟩)
        (userRequest SET [[98], [120]]) twoStores = some (node, response) ∧
          node.nodeState = .RUNNING ∧ node.delayedOperationsBuffer = [] ∧
          (dispatch twoPartitions (keyOperators twoPartitions 2 ⟨[false, true], true⟩)
            (userRequest CAS [[98], [120], [121]]) node).isSome := by
      decide +kernel
    exact ((one_store_per_key twoPartitions 2).1 ⟨[false, true], true⟩
      (userRequest CAS [[98], [120], [121]])
      (CasOperator twoPartitions ⟨[false, true], true⟩) [98] rfl rfl rfl
      ⟨node, hnode⟩).mpr (Or.inl rfl)
  · obtain ⟨final, hfinal, hshown⟩ : ∃ final, checkedRun (KeyedNode.step twoPartitions 2)
        (safeRequest twoPartitions [[97], [98]]) twoKeys (KeyedNode.start twoPartitions twoStores) =
          some final ∧ shown (final.contents [98]) = some (true, [121]) := by
      decide +kernel
    obtain ⟨hrun, hguarded⟩ := checkedRun_eq_some hfinal
    have hdistinct : DistinctKeys twoPartitions { key | key ∈ [[97], [98]] } := by
      intro key hkey key' hkey' _ hhash
      have hcases : key = [97] ∨ key = [98] := by simpa using hkey
      have hcases' : key' = [97] ∨ key' = [98] := by simpa using hkey'
      rcases hcases with rfl | rfl <;> rcases hcases' with rfl | rfl <;>
        first | rfl | exact absurd hhash (by decide)
    refine ⟨final, hrun, ?_⟩
    rw [(one_store_per_key twoPartitions 2).2 { key | key ∈ [[97], [98]] } twoStores twoKeys final
      hdistinct holds_twoStores (hguarded.imp fun _ _ => safeRequest_spec) hrun [98] (by simp)
      ⟨[], false⟩ (userRequest GET [[98]]) ⟨rfl, rfl, rfl⟩, hshown]

/-- An `UPDATE_COUNTER` of `b` succeeds, but the counter is in the store of partition 0, and a `GET`
    of `b` does not know the key. -/
theorem updated_counter_is_not_seen :
    ¬ RunsOn twoPartitions (keyOperators twoPartitions 2 ⟨[], false⟩)
      (userRequest UPDATE_COUNTER [[98]]) (getPartitionIdByKey twoPartitions [98]) ∧
    ((dispatch twoPartitions (keyOperators twoPartitions 2 ⟨[], false⟩)
        (userRequest UPDATE_COUNTER [[98]]) twoStores).bind fun updated =>
      (dispatch twoPartitions (keyOperators twoPartitions 2 ⟨[], false⟩)
          (userRequest GET [[98]]) updated.1).map fun got =>
        (updated.2.isSuccessful, got.2.isSuccessful, got.2.errorCode)) =
      some (true, false, ErrorCode.UNKNOWN_KEY) := by
  constructor
  · intro hruns
    -- alone with the store of its key, the node has none to put the counter into
    have hstore := congrArg Option.isSome (hruns twoStores rfl rfl)
    revert hstore
    decide
  · decide

end MemDb

import MemDb.Utils
import Mathlib.Data.Int.Basic
import Mathlib.Data.List.TakeWhile

/-! # Requests and their bytes

    A `Request` as `RequestSerializer` writes it and `RequestDeserializer` reads it back.
    Deserializing is `none` where the source reads outside the buffer or allocates a negative size,
    and serializing is `none` where it follows the null pointer of a request without an argument
    vector.

    Not all of a request survives: the authentication type is not written, the node id only when the
    authentication flag says so, and an empty argument ends the list of arguments.
-/

namespace MemDb

open Lib BigEndian List Option Utils

/-! ### Messages -/

inductive AuthenticationType where
  | USER
  | NODE
deriving DecidableEq, Repr

structure AuthenticationBody where
  authKey : List UInt8
  /-- Whether the node id is part of the serialized request. -/
  flag1 : Bool
  flag2 : Bool
deriving DecidableEq, Repr

structure OperationBody where
  /-- A shared pointer to a vector; `none` is null. -/
  args : Option (List SimpleString)
  timestamp : UInt64
  nodeId : UInt16
  operatorNumber : UInt8
  flag1 : Bool
  flag2 : Bool
deriving DecidableEq, Repr

structure Request where
  authentication : AuthenticationBody
  operation : OperationBody
  requestNumber : UInt32
  authenticationType : AuthenticationType
deriving DecidableEq, Repr

def AuthenticationBody.getTotalLength (authentication : AuthenticationBody) : Nat :=
  1 + authentication.authKey.length

/-! ### Serializing -/

namespace RequestSerializer

/-- A 6-bit value and two flags in one byte. -/
def withFlags (value : Nat) (flag1 flag2 : Bool) : UInt8 :=
  UInt8.ofNat (value <<< 2 ||| flag1.toNat <<< 1 ||| flag2.toNat)

/-- An argument behind its length. -/
def appendArg (bytes : List UInt8) (arg : SimpleString) : List UInt8 :=
  appendToBuffer 4 arg.length bytes ++ arg

def serialize (request : Request) : Option (List UInt8) := do
  let args ← request.operation.args
  let bytes := appendToBuffer 4 request.requestNumber.toNat []
  let bytes := bytes ++ [withFlags request.authentication.authKey.length
    request.authentication.flag1 request.authentication.flag2]
  let bytes := bytes ++ request.authentication.authKey
  let bytes := bytes ++ [withFlags request.operation.operatorNumber.toNat
    request.operation.flag1 request.operation.flag2]
  let bytes := appendToBuffer 8 request.operation.timestamp.toNat bytes
  let bytes := if request.authentication.flag1 then
      appendToBuffer 2 request.operation.nodeId.toNat bytes
    else bytes
  return args.foldl appendArg bytes

end RequestSerializer

/-! ### Deserializing -/

namespace RequestDeserializer

def FLAG1_MASK : Nat := 0x20

def FLAG2_MASK : Nat := 0x10

def getValueWithoutFlags (buffer : List UInt8) (pos : Nat) : Option Nat :=
  buffer[pos]?.map fun byte => byte.toNat >>> 2

def getFlag (buffer : List UInt8) (pos flagMask : Nat) : Option Bool :=
  buffer[pos]?.map fun byte => (byte.toNat <<< 4) &&& flagMask != 0

inductive DecodeFailure where
  /-- A position outside the buffer is read. -/
  | outside
  /-- `std::bad_array_new_length`. -/
  | badArrayLength
deriving DecidableEq, Repr

/-- The bytes that `fill` copies; its positions are 32-bit integers. -/
def copyFrom (buffer : List UInt8) (initialPos endPos : Nat) : Except DecodeFailure (List UInt8) :=
  let initialPos : Int := (initialPos : Int).bmod (2 ^ 32)
  let endPos : Int := (endPos : Int).bmod (2 ^ 32)
  let size := (endPos - initialPos).bmod (2 ^ 32)
  if size < 0 then .error .badArrayLength
  else if endPos ≤ initialPos then .ok []
  else if 0 ≤ initialPos ∧ endPos ≤ buffer.length then
    .ok ((buffer.drop initialPos.toNat).take (endPos - initialPos).toNat)
  else .error .outside

/-- `fill`, where it copies all bytes of the array that it returns. Where it does not, the rest of
    the array is not initialized, and the request that it belongs to has no value here. -/
def fill (buffer : List UInt8) (initialPos endPos : Nat) : Option (List UInt8) :=
  (copyFrom buffer initialPos endPos).toOption.filter (·.length == endPos - initialPos)

def deserializeAuthenticacion (buffer : List UInt8) : Option AuthenticationBody := do
  let authLength ← getValueWithoutFlags buffer 4
  let authKey ← fill buffer (4 + 1) (4 + authLength + 1)
  let flagAuth1 ← getFlag buffer 4 FLAG1_MASK
  let flagAuth2 ← getFlag buffer 4 FLAG2_MASK
  return ⟨authKey, flagAuth1, flagAuth2⟩

/-- The loop of `deserializeOperation` over the arguments. -/
def deserializeArgs (buffer : List UInt8) (position : Nat) (arguments : List SimpleString) :
    Option (List SimpleString) :=
  if _hposition : position + 1 < buffer.length then
    (parseFromBuffer 4 buffer position).bind fun argLength =>
      -- an empty argument ends the loop
      if argLength = 0 then some arguments
      else (fill buffer (position + 4) (position + 4 + argLength)).bind fun argValue =>
        deserializeArgs buffer (position + 4 + argLength) (arguments ++ [argValue])
  else some arguments
termination_by buffer.length - position

/-- The arguments from `position` on; no argument vector is made when one byte is left. -/
def deserializeArguments (buffer : List UInt8) (position : Nat) :
    Option (Option (List SimpleString)) :=
  if position + 1 = buffer.length then some none
  else (deserializeArgs buffer position []).map some

def deserializeNodeId (buffer : List UInt8) (position : Nat) (includesNodeId : Bool) : Option Nat :=
  if includesNodeId then parseFromBuffer 2 buffer position else some 1

def deserializeOperation (buffer : List UInt8) (position : Nat) (includesNodeId : Bool) :
    Option OperationBody := do
  let operatorNumber ← getValueWithoutFlags buffer position
  let flagOperation1 ← getFlag buffer position FLAG1_MASK
  let flagOperation2 ← getFlag buffer position FLAG2_MASK
  let timestamp ← parseFromBuffer 8 buffer (position + 1)
  let nodeId ← deserializeNodeId buffer (position + 9) includesNodeId
  let args ← deserializeArguments buffer (if includesNodeId then position + 11 else position + 9)
  return ⟨args, UInt64.ofNat timestamp, UInt16.ofNat nodeId, UInt8.ofNat operatorNumber,
    flagOperation1, flagOperation2⟩

def deserialize (buffer : List UInt8) : Option Request := do
  let requestNumber ← parseFromBuffer 4 buffer 0
  let authentication ← deserializeAuthenticacion buffer
  let operation ← deserializeOperation buffer (authentication.getTotalLength + 4)
    authentication.flag1
  return ⟨authentication, operation, UInt32.ofNat requestNumber, .USER⟩

end RequestDeserializer

/-! ### The bytes of a request -/

namespace RequestSerializer

/-- The bytes of one argument. -/
def argBytes (arg : SimpleString) : List UInt8 := encode 4 arg.length ++ arg

theorem foldl_appendArg (args : List SimpleString) (bytes : List UInt8) :
    args.foldl appendArg bytes = bytes ++ args.flatMap argBytes := by
  induction args generalizing bytes with
  | nil => simp
  | cons arg args ih => simp [ih, appendArg, argBytes, appendToBuffer_eq]

/-- The bytes of an operation. -/
def operationBytes (operation : OperationBody) (includesNodeId : Bool)
    (args : List SimpleString) : List UInt8 :=
  withFlags operation.operatorNumber.toNat operation.flag1 operation.flag2 ::
    (encode 8 operation.timestamp.toNat ++
      ((if includesNodeId then encode 2 operation.nodeId.toNat else []) ++
        args.flatMap argBytes))

theorem serialize_eq {request : Request} {args : List SimpleString}
    (hargs : request.operation.args = some args) :
    serialize request = some (encode 4 request.requestNumber.toNat ++
      (withFlags request.authentication.authKey.length request.authentication.flag1
          request.authentication.flag2 ::
        (request.authentication.authKey ++
          operationBytes request.operation request.authentication.flag1 args))) := by
  unfold serialize operationBytes
  cases hflag : request.authentication.flag1 <;>
    simp [hargs, foldl_appendArg, appendToBuffer_eq]

end RequestSerializer

namespace RequestDeserializer

open RequestSerializer

section
variable {buffer rest : List UInt8} {position value : Nat} {flag1 flag2 : Bool}
  (h : At buffer position (withFlags value flag1 flag2 :: rest)) (hvalue : value < 64)
include h hvalue

theorem getValueWithoutFlags_at : getValueWithoutFlags buffer position = some value := by
  have hbyte : ∀ value, value < 64 → ∀ flag1 flag2,
      (withFlags value flag1 flag2).toNat >>> 2 = value := by decide
  rw [getValueWithoutFlags, h.getElem, map_some, hbyte value hvalue]

theorem getFlag_at : getFlag buffer position FLAG1_MASK = some flag1 ∧
    getFlag buffer position FLAG2_MASK = some flag2 := by
  have hbyte : ∀ value, value < 64 → ∀ flag1 flag2,
      ((withFlags value flag1 flag2).toNat <<< 4 &&& FLAG1_MASK != 0) = flag1 ∧
      ((withFlags value flag1 flag2).toNat <<< 4 &&& FLAG2_MASK != 0) = flag2 := by decide
  obtain ⟨hflag1, hflag2⟩ := hbyte value hvalue flag1 flag2
  unfold getFlag
  rw [h.getElem, map_some, map_some, hflag1, hflag2]
  exact ⟨rfl, rfl⟩

end

/-- What a conversion to a 32-bit integer does. -/
theorem bmod_spec (value : Int) : ∃ turns : Int, value = value.bmod (2 ^ 32) + turns * 2 ^ 32 ∧
    -2 ^ 31 ≤ value.bmod (2 ^ 32) ∧ value.bmod (2 ^ 32) < 2 ^ 31 := by
  have hdef := Int.bmod_def value (2 ^ 32)
  refine ⟨(value - value.bmod (2 ^ 32)) / 2 ^ 32, ?_, ?_, ?_⟩ <;> split at hdef <;> omega

section copy
variable {buffer : List UInt8} {initialPos size : Nat}

/-- A size is negative as a 32-bit integer from 2 GiB on. -/
theorem size_neg_iff (hlt : size < 2 ^ 32) :
    (((initialPos + size : Nat) : Int).bmod (2 ^ 32) - ((initialPos : Nat) : Int).bmod
      (2 ^ 32)).bmod (2 ^ 32) < 0 ↔ 2 ^ 31 ≤ size := by
  obtain ⟨turns, hinitial, _, _⟩ := bmod_spec (initialPos : Nat)
  obtain ⟨turns', hend, _, _⟩ := bmod_spec (initialPos + size : Nat)
  generalize ((initialPos : Nat) : Int).bmod (2 ^ 32) = initial at *
  generalize ((initialPos + size : Nat) : Int).bmod (2 ^ 32) = final at *
  obtain ⟨turns'', hsub, _, _⟩ := bmod_spec (final - initial)
  omega

/-- A negative size cannot be allocated. -/
theorem copyFrom_of_ge (hsize : 2 ^ 31 ≤ size) (hlt : size < 2 ^ 32) :
    copyFrom buffer initialPos (initialPos + size) = .error .badArrayLength := by
  unfold copyFrom
  dsimp only
  rw [if_pos ((size_neg_iff hlt).mpr hsize)]

/-- For any other size the array is allocated. -/
theorem copyFrom_of_size_lt (hsize : size < 2 ^ 31) :
    copyFrom buffer initialPos (initialPos + size) =
      if ((initialPos + size : Nat) : Int).bmod (2 ^ 32) ≤
        ((initialPos : Nat) : Int).bmod (2 ^ 32) then
        .ok []
      else if 0 ≤ ((initialPos : Nat) : Int).bmod (2 ^ 32) ∧
          ((initialPos + size : Nat) : Int).bmod (2 ^ 32) ≤ buffer.length then
        .ok ((buffer.drop (((initialPos : Nat) : Int).bmod (2 ^ 32)).toNat).take
          (((initialPos + size : Nat) : Int).bmod (2 ^ 32) -
            ((initialPos : Nat) : Int).bmod (2 ^ 32)).toNat)
      else .error .outside := by
  unfold copyFrom
  dsimp only
  rw [if_neg (mt (size_neg_iff (by omega)).mp (by omega))]

/-- Positions below 2 GiB are what they are. -/
theorem copyFrom_of_lt (hend : initialPos + size < 2 ^ 31) :
    copyFrom buffer initialPos (initialPos + size) =
      if size = 0 ∨ initialPos + size ≤ buffer.length then
        .ok ((buffer.drop initialPos).take size)
      else .error .outside := by
  have hinitial : ((initialPos : Nat) : Int).bmod (2 ^ 32) = initialPos :=
    Int.bmod_eq_of_le (by omega) (by omega)
  have hfinal : ((initialPos + size : Nat) : Int).bmod (2 ^ 32) = (initialPos + size : Nat) :=
    Int.bmod_eq_of_le (by omega) (by omega)
  rw [copyFrom_of_size_lt (by omega), hinitial, hfinal]
  by_cases hzero : size = 0
  · simp [hzero]
  · have hsize : (((initialPos + size : Nat) : Int) - (initialPos : Int)).toNat = size := by omega
    rw [if_neg (by omega), hsize, Int.toNat_natCast]
    by_cases hinside : initialPos + size ≤ buffer.length
    · rw [if_pos ⟨by omega, by omega⟩, if_pos (.inr hinside)]
    · rw [if_neg (by omega), if_neg (not_or.mpr ⟨hzero, hinside⟩)]

/-- Behind the last 32-bit position nothing is copied. -/
theorem copyFrom_of_wraps (hinitial : initialPos < 2 ^ 31) (hsize : size < 2 ^ 31)
    (hend : 2 ^ 31 ≤ initialPos + size) :
    copyFrom buffer initialPos (initialPos + size) = .ok [] := by
  obtain ⟨turns, hspec, _, _⟩ := bmod_spec (initialPos : Nat)
  obtain ⟨turns', hspec', _, _⟩ := bmod_spec (initialPos + size : Nat)
  rw [copyFrom_of_size_lt hsize, if_pos (by omega)]

/-- What stands in the buffer is copied. -/
theorem copyFrom_at {bytes rest : List UInt8} (h : At buffer initialPos (bytes ++ rest))
    (hlen : initialPos + bytes.length < 2 ^ 31) :
    copyFrom buffer initialPos (initialPos + bytes.length) = .ok bytes := by
  have hlength := h.length_eq
  rw [length_append] at hlength
  rw [copyFrom_of_lt hlen, if_pos (.inr (by omega)), h.take]

end copy

theorem fill_at {buffer bytes rest : List UInt8} {position : Nat}
    (h : At buffer position (bytes ++ rest)) (hlen : position + bytes.length < 2 ^ 31) :
    fill buffer position (position + bytes.length) = some bytes := by
  unfold fill
  rw [copyFrom_at h hlen]
  simp [Except.toOption]

/-- What `fill` returns has the length that it was asked for. -/
theorem length_of_fill {buffer bytes : List UInt8} {initialPos size : Nat}
    (h : fill buffer initialPos (initialPos + size) = some bytes) : bytes.length = size := by
  obtain ⟨-, hlength⟩ := filter_eq_some_iff.mp h
  simpa using hlength

/-- The loop over the arguments keeps those that it has. -/
theorem deserializeArgs_isPrefix {buffer : List UInt8} {position : Nat}
    {arguments result : List SimpleString}
    (h : deserializeArgs buffer position arguments = some result) : arguments <+: result := by
  induction position, arguments using deserializeArgs.induct buffer generalizing result with
  | case1 position arguments hposition ih =>
    rw [deserializeArgs, dif_pos hposition] at h
    obtain ⟨argLength, -, h⟩ := bind_eq_some_iff.mp h
    split at h
    · cases h
      exact prefix_rfl
    · obtain ⟨argValue, -, h⟩ := bind_eq_some_iff.mp h
      exact (prefix_append arguments [argValue]).trans (ih argLength argValue h)
  | case2 position arguments hposition =>
    rw [deserializeArgs, dif_neg hposition] at h
    cases h
    exact prefix_rfl

/-- Behind the arguments the buffer ends, or there is a length of zero. -/
def EndsArguments (tail : List UInt8) : Prop :=
  tail = [] ∨ ∃ rest, tail = encode 4 0 ++ rest

section
variable {buffer tail : List UInt8} {position : Nat} (htail : EndsArguments tail)
include htail

theorem deserializeArgs_end (h : At buffer position tail) (arguments : List SimpleString) :
    deserializeArgs buffer position arguments = some arguments := by
  have hlength := h.length_eq
  obtain rfl | ⟨rest, rfl⟩ := htail
  · rw [deserializeArgs, dif_neg (by rw [length_nil] at hlength; omega)]
  · rw [length_append, length_encode] at hlength
    rw [deserializeArgs, dif_pos (by omega),
      parseFromBuffer_encode h (by decide) (by decide), bind_some, if_pos rfl]

variable {args : List SimpleString}

/-- The arguments are read back up to the first empty one. -/
theorem deserializeArgs_at (h : At buffer position (args.flatMap argBytes ++ tail))
    (hlen : position + (args.flatMap argBytes).length < 2 ^ 31) (arguments : List SimpleString) :
    deserializeArgs buffer position arguments = some (arguments ++ args.takeWhile (· ≠ [])) := by
  induction args generalizing position arguments with
  | nil => simpa using deserializeArgs_end htail h arguments
  | cons arg args ih =>
    simp only [flatMap_cons, argBytes, append_assoc] at h
    simp only [flatMap_cons, argBytes, length_append, length_encode] at hlen
    have hlength := h.length_eq
    rw [length_append, length_encode] at hlength
    rw [deserializeArgs, dif_pos (by omega),
      parseFromBuffer_encode h (by decide) (by omega), bind_some]
    by_cases hempty : arg = []
    · simp [hempty]
    · have hpos : 0 < arg.length := length_pos_iff.mpr hempty
      rw [if_neg (by omega), fill_at h.number (by omega), bind_some,
        ih h.number.behind (by omega)]
      simp [hempty]

/-- What is left for the arguments is never a single byte. -/
theorem deserializeArguments_at (h : At buffer position (args.flatMap argBytes ++ tail))
    (hlen : position + (args.flatMap argBytes).length < 2 ^ 31) :
    deserializeArguments buffer position = some (some (args.takeWhile (· ≠ []))) := by
  have hone : (args.flatMap argBytes ++ tail).length ≠ 1 := by
    cases args with
    | nil =>
      obtain rfl | ⟨rest, rfl⟩ := htail
      · simp
      · simp only [flatMap_nil, nil_append, length_append, length_encode]
        omega
    | cons arg args =>
      simp only [flatMap_cons, argBytes, length_append, length_encode]
      omega
  have hlength := h.length_eq
  rw [deserializeArguments, if_neg (by omega), deserializeArgs_at htail h hlen, nil_append,
    map_some]

end

/-- The timestamp that is read where `timestamp` has been written. -/
def readTimestamp (timestamp : UInt64) : UInt64 :=
  UInt64.ofNat (parseFromBufferLoop (encode 8 timestamp.toNat) % 256 ^ 8)

theorem readTimestamp_of_lt {timestamp : UInt64} (h : timestamp.toNat < 2 ^ 31) :
    readTimestamp timestamp = timestamp := by
  have hat := at_whole (encode 8 timestamp.toNat)
  have hparse := (parseFromBuffer_u64_iff hat (by omega)).mpr (.inl h)
  rw [parseFromBuffer_at hat, some.injEq] at hparse
  rw [readTimestamp, hparse, UInt64.ofNat_toNat]

/-- The operation that is read where one has been written. -/
def readOperation (operation : OperationBody) (includesNodeId : Bool) (args : List SimpleString) :
    OperationBody :=
  { operation with
    args := some (args.takeWhile (· ≠ []))
    timestamp := readTimestamp operation.timestamp
    nodeId := if includesNodeId then operation.nodeId else 1 }

theorem deserializeOperation_at {buffer tail : List UInt8} {position : Nat}
    {operation : OperationBody} {args : List SimpleString} {includesNodeId : Bool}
    (h : At buffer position (operationBytes operation includesNodeId args ++ tail))
    (hoperator : operation.operatorNumber.toNat < 64) (htail : EndsArguments tail)
    (hlen : position + (operationBytes operation includesNodeId args).length < 2 ^ 31) :
    deserializeOperation buffer position includesNodeId =
      some (readOperation operation includesNodeId args) := by
  simp only [operationBytes, cons_append, append_assoc] at h
  simp only [operationBytes, length_cons, length_append, length_encode] at hlen
  obtain ⟨hflag1, hflag2⟩ := getFlag_at h hoperator
  have hnode : At buffer (position + 9) _ := h.next.number
  unfold deserializeOperation
  rw [getValueWithoutFlags_at h hoperator, hflag1, hflag2, parseFromBuffer_at h.next]
  cases includesNodeId with
  | false =>
    have hargs := deserializeArguments_at htail hnode (by omega)
    simp [deserializeNodeId, hargs, readOperation, readTimestamp]
  | true =>
    have hid := parseFromBuffer_encode hnode (by decide) operation.nodeId.toNat_lt
    rw [if_pos rfl, length_encode] at hlen
    have hargs := deserializeArguments_at htail hnode.number (by omega)
    simp [deserializeNodeId, hid, hargs, readOperation, readTimestamp]

end RequestDeserializer

/-! ### Round trip -/

namespace Request

open RequestSerializer RequestDeserializer

/-- What a receiver can know of a request: the authentication type starts as `USER`, and the node
    id is 1 unless the request carries it. -/
def received (request : Request) : Request :=
  { request with
    operation.nodeId := if request.authentication.flag1 then request.operation.nodeId else 1
    authenticationType := .USER }

/-- The requests whose fields survive their encoding. -/
structure Encodable (request : Request) : Prop where
  authKey : request.authentication.authKey.length < 64
  operatorNumber : request.operation.operatorNumber.toNat < 64
  timestamp : request.operation.timestamp.toNat < 2 ^ 31
  args : ∃ args, request.operation.args = some args ∧ ∀ arg ∈ args, arg ≠ []
  size : ∀ bytes, serialize request = some bytes → bytes.length < 2 ^ 31

theorem deserializeAuthenticacion_at {buffer rest : List UInt8}
    {authentication : AuthenticationBody}
    (h : At buffer 4 (withFlags authentication.authKey.length authentication.flag1
      authentication.flag2 :: (authentication.authKey ++ rest)))
    (hkey : authentication.authKey.length < 64) :
    deserializeAuthenticacion buffer = some authentication := by
  obtain ⟨hflag1, hflag2⟩ := getFlag_at h hkey
  have hfill := fill_at h.next (by omega)
  rw [Nat.add_right_comm] at hfill
  unfold deserializeAuthenticacion
  rw [getValueWithoutFlags_at h hkey, bind_eq_bind, bind_some, hfill, hflag1, hflag2]
  simp

/-- The request that is read where one with the arguments `args` has been written. -/
def decoded (request : Request) (args : List SimpleString) : Request :=
  { request with
    operation := readOperation request.operation request.authentication.flag1 args
    authenticationType := .USER }

theorem deserialize_serialize_eq {request : Request} {args : List SimpleString}
    (hargs : request.operation.args = some args) (hkey : request.authentication.authKey.length < 64)
    (hoperator : request.operation.operatorNumber.toNat < 64)
    (hsize : ∀ bytes, serialize request = some bytes → bytes.length < 2 ^ 31) :
    (serialize request).bind deserialize = some (request.decoded args) := by
  obtain ⟨buffer, hbytes, hnumber⟩ : ∃ buffer, serialize request = some buffer ∧ At buffer 0
      (encode 4 request.requestNumber.toNat ++
        (withFlags request.authentication.authKey.length request.authentication.flag1
            request.authentication.flag2 :: (request.authentication.authKey ++
          (operationBytes request.operation request.authentication.flag1 args ++ [])))) := by
    refine ⟨_, serialize_eq hargs, ?_⟩
    rw [append_nil]
    exact at_start _
  have hlength := hsize _ hbytes
  rw [hnumber.length_eq] at hlength
  simp only [length_append, length_cons, length_encode] at hlength
  have hauth : At buffer 4 _ := hnumber.number
  have hoperation := deserializeOperation_at hauth.next.behind hoperator (.inl rfl) (by omega)
  have hposition : request.authentication.getTotalLength + 4 =
      4 + 1 + request.authentication.authKey.length := by
    unfold AuthenticationBody.getTotalLength
    omega
  rw [hbytes, bind_some, deserialize, deserializeAuthenticacion_at hauth hkey]
  simp only [parseFromBuffer_encode hnumber (by decide) request.requestNumber.toNat_lt,
    bind_eq_bind, bind_some, hposition, hoperation]
  simp [decoded]

theorem takeWhile_ne_nil_eq {args : List SimpleString} :
    args.takeWhile (· ≠ []) = args ↔ ∀ arg ∈ args, arg ≠ [] := by
  simp [takeWhile_eq_self_iff]

theorem deserialize_serialize {request : Request} (h : request.Encodable) :
    (serialize request).bind deserialize = some request.received := by
  obtain ⟨args, hargs, hne⟩ := h.args
  rw [deserialize_serialize_eq hargs h.authKey h.operatorNumber h.size]
  unfold decoded readOperation received
  rw [takeWhile_ne_nil_eq.mpr hne, readTimestamp_of_lt h.timestamp, ← hargs]

/-! ### What is recovered -/

/-- The fields of a request that its decoded form is to have. -/
structure Recovers (request decoded : Request) : Prop where
  requestNumber : decoded.requestNumber = request.requestNumber
  authentication : decoded.authentication = request.authentication
  operatorNumber : decoded.operation.operatorNumber = request.operation.operatorNumber
  flag1 : decoded.operation.flag1 = request.operation.flag1
  flag2 : decoded.operation.flag2 = request.operation.flag2
  args : decoded.operation.args = request.operation.args
  nodeId : request.authentication.flag1 = true →
    decoded.operation.nodeId = request.operation.nodeId

/-- A request comes back, its timestamp aside, exactly when it has no empty argument: the
    deserializer takes a length of zero for the end of the arguments. -/
theorem recovers_iff {request : Request} {args : List SimpleString}
    (hargs : request.operation.args = some args) (hkey : request.authentication.authKey.length ≤ 63)
    (hoperator : request.operation.operatorNumber.toNat < 64)
    (hsize : ∀ bytes, serialize request = some bytes → bytes.length < 2 ^ 31) :
    (∃ decoded, (serialize request).bind deserialize = some decoded ∧ request.Recovers decoded) ↔
      ∀ arg ∈ args, arg ≠ [] := by
  have htrip := deserialize_serialize_eq hargs (Nat.lt_succ_of_le hkey) hoperator hsize
  rw [htrip, ← takeWhile_ne_nil_eq]
  constructor
  · intro ⟨decoded, hdecoded, hrecovers⟩
    cases hdecoded
    exact some.inj (hrecovers.args.trans hargs)
  · intro hall
    refine ⟨_, rfl, ?_⟩
    constructor <;> try rfl
    · show some (args.takeWhile (· ≠ [])) = request.operation.args
      rw [hall, hargs]
    · intro hflag
      show (if request.authentication.flag1 then request.operation.nodeId else 1) = _
      rw [if_pos hflag]

/-- A request of node 7 with the given arguments. -/
def ofNode (args : List SimpleString) : Request :=
  ⟨⟨[110], true, false⟩, ⟨some args, 5, 7, 1, false, true⟩, 3, .NODE⟩

theorem recovers_two_arguments :
    ∃ decoded, (serialize (ofNode [[107], [118]])).bind deserialize = some decoded ∧
      (ofNode [[107], [118]]).Recovers decoded := by
  have hargs : (ofNode [[107], [118]]).operation.args = some [[107], [118]] := rfl
  apply (recovers_iff hargs (by decide) (by decide) ?_).mpr
  · decide
  · intro bytes hbytes
    cases hbytes
    decide

/-- The argument behind an empty one is lost with it. -/
theorem empty_argument_ends_list :
    ((serialize (ofNode [[], [118]])).bind deserialize).map (·.operation.args) = some (some []) ∧
      (ofNode [[], [118]]).operation.args = some [[], [118]] := by
  have hsize : ∀ bytes, serialize (ofNode [[], [118]]) = some bytes → bytes.length < 2 ^ 31 := by
    intro bytes hbytes
    cases hbytes
    decide
  have hargs : (ofNode [[], [118]]).operation.args = some [[], [118]] := rfl
  rw [deserialize_serialize_eq hargs (by decide) (by decide) hsize]
  exact ⟨rfl, rfl⟩

end Request

end MemDb

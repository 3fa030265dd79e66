import MemDb.Cluster.Counters
import MemDb.Operators.Effects

/-! # A round of counter replication

    A node that has counted sends the new value to another one, with the values of the other node
    that it has seen, and the answer holds the values that it has not seen. Three numbers travel as
    two arguments each. The operator reads the third one an argument too early, between the halves
    of two numbers, so that a node which has seen an increment of the other one is not told of its
    decrements.
-/

namespace MemDb

open Lib List Option BigEndian

/-- The first request of `UpdateCounterOperator::replicate`, as `prepareRequest` sends it. -/
def replicateCounterOperation (selfNodeId : UInt16) (key : SimpleString) (isIncrement : Bool)
    (newUpdatedValue : Int64) (lastSeen : Int64 × Int64) : OperationBody where
  operatorNumber := OperatorNumbers.REPLICATE_COUNTER
  flag1 := isIncrement
  flag2 := false
  timestamp := 0
  nodeId := selfNodeId
  args := some (key :: (addDoubleArg newUpdatedValue.toUInt64 ++
    (addDoubleArg lastSeen.1.toUInt64 ++ addDoubleArg lastSeen.2.toUInt64)))

/-- The value of the response as `onReplicationCounterResponse` reads it. -/
def CounterReply.ofResponseValue (responseValue : SimpleString) : Option CounterReply := do
  let nIncrementToSync ← toNumber 8 responseValue
  let nDecrementToSync ← toNumber 8 (responseValue.drop 8)
  let otherNodeId ← toNumber 2 (responseValue.drop 16)
  return { nIncrementToSync := (UInt64.ofNat nIncrementToSync).toInt64
           nDecrementToSync := (UInt64.ofNat nDecrementToSync).toInt64
           otherNodeId := UInt16.ofNat otherNodeId }

section
variable (config : Configuration) (nNodes : UInt32) (key : SimpleString)
  (options : OperationOptions)

/-- A node with the counter `a` tells the node of the configuration about a new value. -/
def replicateTo (isIncrement : Bool) (newUpdatedValue : Int64) (a : Counter) (node : Node) :
    Option (Counter × Node) := do
  let (a, lastSeen) ← a.getLastSeen config.nodeId
  let (node, response) ← (ReplicateCounterOperator config nNodes).operate
    (replicateCounterOperation a.selfNodeId key isIncrement newUpdatedValue lastSeen) options node
  let reply ← CounterReply.ofResponseValue response.responseValue
  return (← a.onReplicationCounterResponse reply, node)

/-- The store of the node has the counter under the key. -/
def Node.HasCounter (node : Node) (c : Counter) : Prop :=
  ∃ m entry, node.memDbStores options.partitionId = some m ∧ m.WellFormed ∧
    m.view (config.calculateHash key) = some entry ∧ entry.data = .counter c

end

theorem toNumber_encode_append {sizeof number : Nat} (h : number < 256 ^ sizeof)
    (rest : SimpleString) : toNumber sizeof (encode sizeof number ++ rest) = some number := by
  have hlength := length_encode sizeof number
  unfold toNumber
  rw [if_pos (by rw [length_append]; omega), take_append_of_le_length hlength.ge,
    take_of_length_le hlength.le, Utils.parse_eq, decode_encode_of_lt h]

/-- The response is read as it was built. -/
theorem ofResponseValue_toBuffer (response : ReplicateCounterResponse) (nodeId : UInt16) :
    CounterReply.ofResponseValue (response.toBuffer nodeId) = some (response.reply nodeId) := by
  have hdrop : ∀ number rest, (encode 8 number ++ rest).drop 8 = rest := fun number _ =>
    drop_left' (length_encode 8 number)
  have hvalue : ∀ value : UInt64, value.toNat < 256 ^ 8 := fun value => value.toNat_lt
  have hnodeId : nodeId.toNat < 256 ^ 2 := nodeId.toNat_lt
  unfold CounterReply.ofResponseValue ReplicateCounterResponse.toBuffer
  simp only [Utils.appendToBuffer_eq, nil_append, append_assoc, fromNumber_eq,
    show (16 : Nat) = 8 + 8 from rfl, ← drop_drop, hdrop, toNumber_encode_append (hvalue _),
      bind_eq_bind,
    bind_some]
  rw [← append_nil (encode 2 _), toNumber_encode_append hnodeId]
  simp [ReplicateCounterResponse.reply]

theorem toNat_toUInt64 (v : Int64) (h : 0 ≤ v.toInt) : (v.toUInt64.toNat : Int) = v.toInt := by
  have hvalue : v.toInt = v.toBitVec.toInt := rfl
  have hnat : v.toUInt64.toNat = v.toBitVec.toNat := rfl
  have hlt := v.toBitVec.isLt
  rw [BitVec.toInt_eq_toNat_cond] at hvalue
  split at hvalue <;> omega

/-- The arguments as the operator reads them, when the numbers seen fit in 31 bits: the last one
    seen of the decrements is made of the low half of the increments and of the high half of the
    decrements. -/
theorem replicateCounterRequest_eq {selfNodeId : UInt16} {key : SimpleString} {isIncrement : Bool}
    {newUpdatedValue : Int64} {lastSeen : Int64 × Int64} {operation : OperationBody}
    (h : operation = replicateCounterOperation selfNodeId key isIncrement newUpdatedValue lastSeen)
    (hinc : 0 ≤ lastSeen.1.toInt ∧ lastSeen.1.toInt < 2 ^ 31)
    (hdec : 0 ≤ lastSeen.2.toInt ∧ lastSeen.2.toInt < 2 ^ 31) :
    ∃ read : Int64, read.toInt = lastSeen.1.toInt * 2 ^ 32 ∧ operation.replicateCounterRequest =
      some ⟨selfNodeId, isIncrement, newUpdatedValue, lastSeen.1, read⟩ := by
  obtain ⟨read, hread⟩ : ∃ read : Int64, read.toInt = lastSeen.1.toInt * 2 ^ 32 :=
    ⟨Int64.ofInt (lastSeen.1.toInt * 2 ^ 32), Int64.toInt_ofInt_of_le (by omega) (by omega)⟩
  have hnumber := toNat_toUInt64 read (by omega)
  have hnumber₁ := toNat_toUInt64 _ hinc.1
  have hnumber₂ := toNat_toUInt64 _ hdec.1
  have hnewValue : operation.getDoubleArgU64 1 = some newUpdatedValue.toUInt64 :=
    getDoubleArgU64_of_args (h ▸ rfl) (h ▸ rfl)
  have hlastSeen : operation.getDoubleArgU64 3 = some lastSeen.1.toUInt64 :=
    getDoubleArgU64_of_args (h ▸ rfl) (h ▸ rfl)
  have hmixed : operation.getDoubleArgU64 4 = some read.toUInt64 := by
    apply getDoubleArgU64_of_args
    · rw [h, show read.toUInt64.toNat >>> 32 = lastSeen.1.toUInt64.toNat % 2 ^ 32 by
        rw [Nat.shiftRight_eq_div_pow]
        omega]
      rfl
    · rw [h, show read.toUInt64.toNat % 2 ^ 32 = lastSeen.2.toUInt64.toNat >>> 32 by
        rw [Nat.shiftRight_eq_div_pow]
        omega]
      rfl
  refine ⟨read, hread, ?_⟩
  unfold OperationBody.replicateCounterRequest
  rw [hnewValue, hlastSeen, hmixed, h]
  simp [replicateCounterOperation]

section
variable {config : Configuration} (nNodes : UInt32) {key : SimpleString}
  {options : OperationOptions} {node : Node} {a b : Counter}

/-- The node hands the request to the counter that it has. -/
theorem Node.HasCounter.operate (h : node.HasCounter config key options b)
    {operation : OperationBody}
    {request : ReplicateCounterRequest} {b' : Counter} {response : ReplicateCounterResponse}
    (hkey : operation.getArg 0 = some key)
    (hrequest : operation.replicateCounterRequest = some request)
    (hedit : b.onReplicationCounter request = some (b', response)) :
    ∃ node' answer, (ReplicateCounterOperator config nNodes).operate operation options
        node = some (node', answer) ∧ answer.responseValue = response.toBuffer config.nodeId ∧
      node'.HasCounter config key options b' := by
  obtain ⟨m, entry, hm, hwf, hview, hcounter⟩ := h
  obtain ⟨written, hrun, hwritten⟩ := Map.editCounter_spec hwf hview hcounter
    (·.onReplicationCounter request)
  simp only [hedit, map_some, Prod.map, id] at hrun
  obtain ⟨hwf', hview'⟩ := hwritten b'
  have htype : entry.type = .COUNTER := by rw [hwf.type_eq hview, hcounter]; rfl
  have hreplicate : replicateCounter config nNodes key request m =
      some (written b', some response) := by
    simp [replicateCounter, addNewCounter, hwf.get, hview, htype, hrun]
  refine ⟨node.setStore options.partitionId _ node.clock,
    ⟨true, 0, ⟨0, 0⟩, 0, response.toBuffer config.nodeId⟩, ?_, rfl,
    ⟨_, _, Function.update_self .., hwf', by rw [hview', Function.update_self], rfl⟩⟩
  simp only [ReplicateCounterOperator, hm, hkey, hrequest, hreplicate, bind_eq_bind, bind_some]
  rfl

/-- The other node has the sent value, and this one the values that the other node had of its
    own. -/
def Synchronised (newUpdatedValue : Int64) (isIncrement : Bool) (a b a' b' : Counter) : Prop :=
  newUpdatedValue.toInt ≤ b'.value isIncrement a.selfNodeId ∧
    ∀ kind, b.value kind b.selfNodeId ≤ a'.value kind b.selfNodeId

/-- A round synchronises both ways if the sender has seen no increment of the other node, its id
    being below the number of slots, or all of its decrements. -/
theorem replicateTo_iff {members : Finset UInt16} (ha : a.Assigned members)
    (hb : b.Assigned members)
    (hnode : node.HasCounter config key options b) (hself : b.selfNodeId = config.nodeId)
    (hne : a.selfNodeId ≠ b.selfNodeId)
    (hrangeA : ∀ kind id, 0 ≤ a.value kind id ∧ a.value kind id < 2 ^ 31)
    (hrangeB : ∀ kind id, 0 ≤ b.value kind id ∧ b.value kind id < 2 ^ 31) (isIncrement : Bool)
    (newUpdatedValue : Int64) :
    ∃ a' b' node', replicateTo config nNodes key options isIncrement newUpdatedValue a
        node = some (a', node') ∧ node'.HasCounter config key options b' ∧
      (Synchronised newUpdatedValue isIncrement a b a' b' ↔
        a.nNodes.toNat ≤ b.selfNodeId.toNat ∨ a.value true b.selfNodeId = 0 ∨
          b.value false b.selfNodeId ≤ a.value false b.selfNodeId) := by
  obtain ⟨a₁, lastSeen, hlast, ha₁, hagrees, hseen⟩ := ha.getLastSeen_spec hb.self_mem
  have hseen₁ : lastSeen.1.toInt =
      if a.nNodes.toNat ≤ b.selfNodeId.toNat then 0 else a.value true b.selfNodeId := by
    rw [hseen, ← hagrees.value]
    split <;> rfl
  have hseen₂ : lastSeen.2.toInt =
      if a.nNodes.toNat ≤ b.selfNodeId.toNat then 0 else a.value false b.selfNodeId := by
    rw [hseen, ← hagrees.value]
    split <;> rfl
  have hincA := hrangeA true b.selfNodeId
  have hdecA := hrangeA false b.selfNodeId
  have hincB := hrangeB true b.selfNodeId
  have hdecB := hrangeB false b.selfNodeId
  obtain ⟨read, hread, hrequest⟩ := replicateCounterRequest_eq
    (rfl : _ = replicateCounterOperation a₁.selfNodeId key isIncrement newUpdatedValue lastSeen)
    (by split at hseen₁ <;> omega) (by split at hseen₂ <;> omega)
  have hsender : (ReplicateCounterRequest.mk a₁.selfNodeId isIncrement newUpdatedValue lastSeen.1
    read).otherNodeId ∈ members := ha₁.self_mem
  obtain ⟨b', response, hedit, -, -, hvalue, hinc, hdec⟩ := hb.onReplicationCounter_spec hsender
  obtain ⟨node', answer, hoperate, hanswer, hnode'⟩ :=
    hnode.operate nNodes rfl hrequest hedit
  have hresponder : (response.reply config.nodeId).otherNodeId ∈ members := hself ▸ hb.self_mem
  obtain ⟨a', hresponse, -, -, hvalue'⟩ := ha₁.onReplicationCounterResponse_spec
    (fun kind id => by rw [hagrees.value]; exact (hrangeA kind id).1) hresponder
  refine ⟨a', b', node', ?_, hnode', ?_⟩
  · unfold replicateTo
    rw [← hself, hlast]
    simp only [bind_eq_bind, bind_some, hoperate, hanswer, ofResponseValue_toBuffer, hresponse]
    rfl
  · -- the own slots of the other node are as before, and so is what it tells of them
    have hown : ∀ kind, b'.value kind b.selfNodeId = b.value kind b.selfNodeId := by
      intro kind
      rw [hvalue]
      exact if_neg fun h => hne (hagrees.selfNodeId ▸ h.2.symm)
    have hsent : newUpdatedValue.toInt ≤ b'.value isIncrement a.selfNodeId := by
      rw [hvalue, ← hagrees.selfNodeId, Counter.setValue, if_pos ⟨rfl, rfl⟩]
      exact le_max_right _ _
    rw [hown] at hinc hdec
    dsimp only [Counter.Tells] at hinc hdec
    have hlearned : ∀ kind, a'.value kind b.selfNodeId = max (a.value kind b.selfNodeId)
        ((response.reply config.nodeId).toSync kind).toInt := by
      intro kind
      rw [hvalue', hagrees.value]
      exact if_pos hself
    have hincrement : b.value true b.selfNodeId ≤ a'.value true b.selfNodeId := by
      rw [hlearned]
      rcases hinc with ⟨-, hneeds, hsync⟩ | ⟨hge, -, -⟩
      · simp [ReplicateCounterResponse.reply, CounterReply.toSync, hneeds, hsync]
      · exact le_max_of_le_left (by split at hseen₁ <;> omega)
    have hdecrement : b.value false b.selfNodeId ≤ a'.value false b.selfNodeId ↔
        lastSeen.1.toInt = 0 ∨ b.value false b.selfNodeId ≤ a.value false b.selfNodeId := by
      rw [hlearned]
      rcases hdec with ⟨hlt, hneeds, hsync⟩ | ⟨hge, hneeds, -⟩
      · simp [ReplicateCounterResponse.reply, CounterReply.toSync, hneeds, hsync]
        omega
      · simp [ReplicateCounterResponse.reply, CounterReply.toSync, hneeds]
        omega
    simp only [Synchronised, hsent, hincrement, hdecrement, true_and, and_true, Bool.forall_bool]
    split at hseen₁ <;> omega

end

/-- A node that has counted up tells a new one. -/
theorem replicateTo_iff_counted : ∃ b v a' b' node node',
    (Counter.new 1 2).increment = some (b, v) ∧ b.value true 1 = 1 ∧
      replicateTo firstNode 2 [107] ⟨true, true, true, .NONE, 0, 0⟩ true 1 (Counter.new 2 2) node =
        some (a', node') ∧ Synchronised 1 true (Counter.new 2 2) b a' b' := by
  have hassigned : ∀ id ∈ ({1, 2} : Finset UInt16), (Counter.new id 2).Assigned {1, 2} := by
    intro id hid
    exact Counter.assigned_new hid (by decide)
  obtain ⟨b, v, hincrement⟩ := (hassigned 1 (by decide)).updateOwn_isSome true
    (by rw [Counter.value_new]; decide)
  obtain ⟨hb, hself, hv, hvalue⟩ := (hassigned 1 (by decide)).updateOwn_spec hincrement
  rw [Counter.value_new] at hv
  have hrange : ∀ kind id, 0 ≤ b.value kind id ∧ b.value kind id < 2 ^ 31 := by
    intro kind id
    rw [hvalue, Counter.setValue, Counter.value_new]
    split <;> omega
  have hwf : (Map.new 1 (by decide)).WellFormed := Map.wellFormed_new 1 (by decide)
  obtain ⟨counted, -, hcounted⟩ := Map.updateCounter_counter hwf
    (show (View.withCounter _ [107] (firstNode.calculateHash [107]) 1 2).data =
      .counter (Counter.new 1 2) by rw [View.withCounter, Map.view_new]; rfl) true
  obtain ⟨hwf', hview⟩ := hcounted b
  have hnode : Node.HasCounter firstNode [107] ⟨true, true, true, .NONE, 0, 0⟩
      { emptyNode .RUNNING 1 with memDbStores := fun _ => some (counted b) } b :=
    ⟨_, _, rfl, hwf', by rw [hview, Function.update_self], rfl⟩
  obtain ⟨a', b', node', hrun, -, hiff⟩ :=
    replicateTo_iff 2 (hassigned 2 (by decide)) hb hnode hself
    (by rw [hself]; decide) (fun kind id => by rw [Counter.value_new]; decide) hrange true 1
  refine ⟨b, v, a', b', _, node', hincrement, ?_, hrun, hiff.mpr (.inr (.inl ?_))⟩
  · rw [hvalue]
    exact (if_pos ⟨rfl, rfl⟩).trans hv
  · rw [Counter.value_new]

/-- A node that has counted up and down, and one that has seen the increment: it is not told of the
    decrement. -/
theorem decrement_not_told : ∃ up down a a' node',
    (Map.new 1 (by decide)).updateCounter firstNode.calculateHash [107] 1 2 true =
      some (up, some 1) ∧
    up.updateCounter firstNode.calculateHash [107] 1 2 false = some (down, some 1) ∧
    (Counter.new 2 2).sync true 1 1 = some a ∧
    replicateTo firstNode 2 [107] ⟨true, true, true, .NONE, 0, 0⟩ true 1 a
      { emptyNode .RUNNING 1 with memDbStores := fun _ => some down } = some (a', node') ∧
    a'.value false 1 = 0 := by
  simp only [exists_and_left]
  decide +kernel

/-! ### Requests for several nodes

    The request creator that `replicate` gives to `broadcastForEachAndWait` is called for one node
    after the other. Its copies share one vector of arguments, and so do the bodies that they build.
-/

/-- The arguments are shared: a copy of the builder points to the same vector. -/
structure RequestBuilder where
  operatorNumber : UInt8
  operatorFlag1 : Bool
  args : Nat
deriving DecidableEq, Repr

/-- An `OperationBody` with the vector that its arguments are in. -/
structure SharedOperationBody where
  args : Nat
  timestamp : UInt64
  nodeId : UInt16
  operatorNumber : UInt8
  flag1 : Bool
  flag2 : Bool
deriving DecidableEq, Repr

namespace RequestBuilder

/-- `push_back` of each of the arguments. -/
def pushBack (builder : RequestBuilder) (args : List SimpleString)
    (heap : Heap (List SimpleString)) : Option (Heap (List SimpleString)) :=
  (heap.read builder.args).map fun old => heap.write builder.args (old ++ args)

def buildOperationBody (builder : RequestBuilder) : SharedOperationBody where
  args := builder.args
  timestamp := 0
  nodeId := 0
  operatorNumber := builder.operatorNumber
  flag1 := builder.operatorFlag1
  flag2 := false

end RequestBuilder

/-- The memory that the copies of the request creator share: the vectors and the counter. -/
structure CreatorMemory where
  vectors : Heap (List SimpleString)
  counter : Counter
deriving DecidableEq, Repr

/-- A body, with the numbers of its node that were put into it. -/
structure CreatedRequest where
  lastSeen : Int64 × Int64
  body : SharedOperationBody
deriving DecidableEq, Repr

section
variable (builder : RequestBuilder) (key : SimpleString) (newUpdatedValue : Int64)

def createRequest (nodeId : UInt16) (memory : CreatorMemory) :
    Option (CreatorMemory × CreatedRequest) := do
  let (counter, lastSeen) ← memory.counter.getLastSeen nodeId
  let vectors ← builder.pushBack [key] memory.vectors
  let vectors ← builder.pushBack (addDoubleArg newUpdatedValue.toUInt64) vectors
  let vectors ← builder.pushBack (addDoubleArg lastSeen.1.toUInt64) vectors
  let vectors ← builder.pushBack (addDoubleArg lastSeen.2.toUInt64) vectors
  return (⟨vectors, counter⟩, ⟨lastSeen, builder.buildOperationBody⟩)

def createRequests : List UInt16 → CreatorMemory → Option (CreatorMemory × List CreatedRequest)
  | [], memory => some (memory, [])
  | nodeId :: nodeIds, memory => do
    let (memory, created) ← createRequest builder key newUpdatedValue nodeId memory
    let (memory, others) ← createRequests nodeIds memory
    return (memory, created :: others)

/-- The seven arguments of a request. -/
def counterArgs (lastSeen : Int64 × Int64) : List SimpleString :=
  [key] ++ addDoubleArg newUpdatedValue.toUInt64 ++ addDoubleArg lastSeen.1.toUInt64 ++
    addDoubleArg lastSeen.2.toUInt64

/-- All requests can be created, and in the end each has its own arguments. -/
def OwnArguments (nodeIds : List UInt16) (memory : CreatorMemory) : Prop :=
  ∃ memory' created, createRequests builder key newUpdatedValue nodeIds memory =
    some (memory', created) ∧ ∀ request ∈ created, memory'.vectors.read request.body.args =
      some (counterArgs key newUpdatedValue request.lastSeen)

variable {builder}

theorem pushBack_eq {old : List SimpleString} {vectors : Heap (List SimpleString)}
    (hold : vectors.read builder.args = some old) (args : List SimpleString) :
    ∃ vectors', builder.pushBack args vectors = some vectors' ∧
      vectors'.read builder.args = some (old ++ args) := by
  unfold RequestBuilder.pushBack
  rw [hold]
  exact ⟨_, rfl, Heap.read_write_self (Heap.read_lt_next hold) _⟩

/-- One more request adds its arguments to those that are there. -/
theorem createRequest_eq {old : List SimpleString} {memory : CreatorMemory}
    (hold : memory.vectors.read builder.args = some old) {nodeId : UInt16} {counter : Counter}
    {lastSeen : Int64 × Int64}
    (hseen : memory.counter.getLastSeen nodeId = some (counter, lastSeen)) :
    ∃ vectors, createRequest builder key newUpdatedValue nodeId memory =
        some (⟨vectors, counter⟩, ⟨lastSeen, builder.buildOperationBody⟩) ∧
      vectors.read builder.args = some (old ++ counterArgs key newUpdatedValue lastSeen) := by
  obtain ⟨vectors₁, hpush₁, hread₁⟩ := pushBack_eq hold [key]
  obtain ⟨vectors₂, hpush₂, hread₂⟩ := pushBack_eq hread₁ (addDoubleArg newUpdatedValue.toUInt64)
  obtain ⟨vectors₃, hpush₃, hread₃⟩ := pushBack_eq hread₂ (addDoubleArg lastSeen.1.toUInt64)
  obtain ⟨vectors₄, hpush₄, hread₄⟩ := pushBack_eq hread₃ (addDoubleArg lastSeen.2.toUInt64)
  refine ⟨vectors₄, ?_, ?_⟩
  · simp [createRequest, hseen, hpush₁, hpush₂, hpush₃, hpush₄]
  · rw [hread₄, counterArgs]
    simp only [append_assoc]

variable {key newUpdatedValue}

/-- In the end every body points to the arguments of all requests. -/
theorem createRequests_shared {nodeIds : List UInt16} {old : List SimpleString}
    {memory memory' : CreatorMemory} {created : List CreatedRequest}
    (hold : memory.vectors.read builder.args = some old)
    (h : createRequests builder key newUpdatedValue nodeIds memory = some (memory', created)) :
    created.length = nodeIds.length ∧ (∀ request ∈ created, request.body.args = builder.args) ∧
      memory'.vectors.read builder.args =
        some (old ++ created.flatMap fun request =>
          counterArgs key newUpdatedValue request.lastSeen) := by
  induction nodeIds generalizing memory old created with
  | nil =>
    cases h
    exact ⟨rfl, by simp, by simpa using hold⟩
  | cons nodeId nodeIds ih =>
    simp only [createRequests, bind_eq_bind, bind_eq_some_iff, Option.pure_def, some.injEq,
      Prod.exists, Prod.mk.injEq] at h
    obtain ⟨memory₁, first, hfirst, memory₂, others, hothers, rfl, rfl⟩ := h
    obtain ⟨⟨counter, lastSeen⟩, hseen, -⟩ := bind_eq_some_iff.mp hfirst
    obtain ⟨vectors, hcreate, hread⟩ := createRequest_eq key newUpdatedValue hold hseen
    cases hcreate.symm.trans hfirst
    obtain ⟨hlength, hbodies, hall⟩ := ih hread hothers
    exact ⟨by simp [hlength], forall_mem_cons.mpr ⟨rfl, hbodies⟩, by simpa using hall⟩

end

/-- The builder of `replicate`; its vector is the first one. -/
def replicateCounterRequest (isIncrement : Bool) : RequestBuilder :=
  ⟨OperatorNumbers.REPLICATE_COUNTER, isIncrement, 0⟩

/-- The requests have their own arguments if there is at most one of them. -/
theorem ownArguments_iff (isIncrement : Bool) (key : SimpleString) (newUpdatedValue : Int64)
    (nodeIds : List UInt16) (counter : Counter) :
    OwnArguments (replicateCounterRequest isIncrement) key newUpdatedValue nodeIds
        ⟨Heap.empty.alloc [], counter⟩ ↔
      nodeIds.length ≤ 1 ∧ ∀ nodeId ∈ nodeIds, (counter.getLastSeen nodeId).isSome := by
  have hnew : (CreatorMemory.mk (Heap.empty.alloc []) counter).vectors.read
    (replicateCounterRequest isIncrement).args = some [] := rfl
  constructor
  · rintro ⟨memory, created, hrun, hown⟩
    obtain ⟨hlength, hbodies, hall⟩ := createRequests_shared hnew hrun
    have hone : nodeIds.length ≤ 1 := by
      rcases created with _ | ⟨first, others⟩
      · simp [← hlength]
      · -- the first body has the arguments of the others too, seven for each
        have hfirst := hown first mem_cons_self
        rw [hbodies first mem_cons_self, hall] at hfirst
        have hcount := congrArg length (some.inj hfirst)
        simp [counterArgs, addDoubleArg, length_flatMap] at hcount
        simpa [hcount] using hlength.ge
    refine ⟨hone, ?_⟩
    intro nodeId hmem
    obtain ⟨only, rfl⟩ := length_eq_one_iff.mp (le_antisymm hone (length_pos_of_mem hmem))
    obtain rfl := mem_singleton.mp hmem
    obtain ⟨_, hcreate, -⟩ := bind_eq_some_iff.mp hrun
    obtain ⟨seen, hseen, -⟩ := bind_eq_some_iff.mp hcreate
    exact isSome_of_eq_some hseen
  · rintro ⟨hone, hseen⟩
    rcases nodeIds with _ | ⟨nodeId, _ | ⟨other, nodeIds⟩⟩
    · exact ⟨_, [], rfl, by simp⟩
    · obtain ⟨⟨counter', lastSeen⟩, hseen⟩ := isSome_iff_exists.mp (hseen nodeId mem_cons_self)
      obtain ⟨vectors, hcreate, hread⟩ := createRequest_eq key newUpdatedValue hnew hseen
      refine ⟨⟨vectors, counter'⟩,
        [⟨lastSeen, (replicateCounterRequest isIncrement).buildOperationBody⟩],
        by simp [createRequests, hcreate], ?_⟩
      rw [forall_mem_singleton]
      exact hread
    · simp at hone

/-- Two recipients: the body for the first one ends up with fourteen arguments. -/
theorem not_ownArguments_two : ¬ OwnArguments (replicateCounterRequest true) [107] 1 [2, 3]
    ⟨Heap.empty.alloc [], Counter.new 1 4⟩ := by
  unfold OwnArguments
  decide +kernel

end MemDb

import MemDb.Operators.KeyOperators

/-! # The effects of the operators on keys

    A successful operation has its effect on the content of its key (`effectOn`), and an
    unsuccessful one has none. Every operator keeps to that in the store that it gets, as long as
    its write is not refused without an error, its removal reaches none of the defects of the tree,
    and a counter is not asked for where a value is.
-/

namespace MemDb

open Option OperatorNumbers Function

/-! ### Contents and effects -/

/-- What is stored under a key, without its timestamp. -/
inductive Content where
  | value (v : SimpleString)
  | counter (c : Counter)
deriving DecidableEq, Repr

def NodeData.content : NodeData → Content
  | .data d => .value d.value
  | .counter c => .counter c

/-- The content under a hash of a store. -/
def View.content (V : View) (h : UInt32) : Option Content :=
  (V h).map fun entry => entry.data.content

/-- The content of a key in the store of its partition. -/
def Node.content (config : Configuration) (node : Node) (key : SimpleString) : Option Content :=
  (node.memDbStores (getPartitionIdByKey config key)).bind fun m =>
    m.view.content (config.calculateHash key)

/-- What a `GET` tells about a content: whether the key is known, and the value. -/
def shown : Option Content → Option (Bool × SimpleString)
  | none => some (false, [])
  | some (.value v) => some (true, v)
  | some (.counter c) => c.count.map fun count => (true, fromNumber 8 count.toUInt64.toNat)

section effects
variable (config : Configuration) (nNodes : UInt32)

/-- The counter of a content, or the one that is added where there is none. -/
def counterOf : Option Content → Counter
  | some (.counter c) => c
  | _ => Counter.new config.nodeId nNodes

/-- The content of its key after an operation has succeeded. -/
def effectOn (operation : OperationBody) (content : Option Content) : Option Content :=
  if operation.operatorNumber = SET then (operation.getArg 1).map .value
  else if operation.operatorNumber = DEL then none
  else if operation.operatorNumber = UPDATE_COUNTER then
    ((counterOf config nNodes content).updateOwn operation.flag1).map fun updated =>
      .counter updated.1
  else if operation.operatorNumber = REPLICATE_COUNTER then
    (operation.replicateCounterRequest.bind
      (counterOf config nNodes content).onReplicationCounter).map fun replicated =>
        .counter replicated.1
  else if operation.operatorNumber = CAS then (operation.getArg 2).map .value
  else if operation.operatorNumber = CAS_ACCEPT then
    (operation.getArg 1).map .value
  else content

end effects

/-! ### Edits of one key -/

/-- From `node` to `node'` nothing has changed in the stores but the content of the key. -/
structure Node.Edits (config : Configuration) (key : SimpleString) (node node' : Node)
    (content : Option Content) : Prop where
  state : node'.nodeState = node.nodeState
  buffer : node'.delayedOperationsBuffer = node.delayedOperationsBuffer
  others : ∀ p, p ≠ getPartitionIdByKey config key → node'.memDbStores p = node.memDbStores p
  store : ∃ m m', node.memDbStores (getPartitionIdByKey config key) = some m ∧
    node'.memDbStores (getPartitionIdByKey config key) = some m' ∧ m'.WellFormed ∧
    (∀ h, h ≠ config.calculateHash key → m'.view h = m.view h) ∧
    m'.view.content (config.calculateHash key) = content

/-- From `m` to `m'` nothing has changed but the content under the hash. -/
structure Map.Edits (hash : UInt32) (m m' : Map) (content : Option Content) : Prop where
  wellFormed : m'.WellFormed
  others : ∀ h, h ≠ hash → m'.view h = m.view h
  content : m'.view.content hash = content

section edits
variable {config : Configuration} {key : SimpleString} {node node' : Node} {m m' : Map}

section
variable (hm : node.memDbStores (getPartitionIdByKey config key) = some m)
include hm

theorem Node.content_of_store :
    node.content config key = m.view.content (config.calculateHash key) := by
  unfold Node.content
  rw [hm]
  rfl

theorem Node.Edits.unchanged (hwf : m.WellFormed) (hstate : node'.nodeState = node.nodeState)
    (hbuffer : node'.delayedOperationsBuffer = node.delayedOperationsBuffer)
    (hstores : node'.memDbStores = node.memDbStores) :
    node.Edits config key node' (node.content config key) := by
  constructor
  · exact hstate
  · exact hbuffer
  · intro p _
    rw [hstores]
  · refine ⟨m, m, hm, by rw [hstores, hm], hwf, fun _ _ => rfl, ?_⟩
    rw [Node.content_of_store hm]

theorem Node.Edits.setStore {content : Option Content}
    (h : m.Edits (config.calculateHash key) m' content) (clock : LamportClock) :
    node.Edits config key (node.setStore (getPartitionIdByKey config key) m' clock) content := by
  constructor
  · rfl
  · rfl
  · intro p hp
    exact if_neg hp
  · exact ⟨m, m', hm, if_pos rfl, h.wellFormed, h.others, h.content⟩

end

/-- What follows an edit and keeps the stores. -/
theorem Node.Edits.rest {content : Option Content} {after : Node}
    (h : node.Edits config key node' content) (hstate : after.nodeState = node'.nodeState)
    (hbuffer : after.delayedOperationsBuffer = node'.delayedOperationsBuffer)
    (hstores : after.memDbStores = node'.memDbStores) : node.Edits config key after content := by
  constructor
  · exact hstate.trans h.state
  · exact hbuffer.trans h.buffer
  · rw [hstores]
    exact h.others
  · rw [hstores]
    exact h.store

end edits

/-! ### The effect of each operator -/

/-- A write under the hash is accepted, or an error tells that it is not. -/
def Map.reportsRefusal (m : Map) (h : UInt32) (timestamp : LamportClock)
    (strategy : UpdateClockStrategy) (checkTimestamps : Bool) : Bool :=
  decide (m.atRoot h) || m.view.accepts h timestamp strategy checkTimestamps

section writes
variable {calculateHash : SimpleString → UInt32} {m m' : Map} {key value : SimpleString}
  {timestamp clock clock' : LamportClock} {strategy : UpdateClockStrategy} {checkTimestamps : Bool}
  {result : Option DbEditResult}

theorem content_put (V : View) (key : SimpleString) (h : UInt32) (d : DataAVLNode) :
    (V.put key h d).content h = some (.value d.value) := by
  rw [View.content, View.put_self, map_some, View.written_data]
  rfl

theorem putData_content (hwf : m.WellFormed)
    (hreported : m.reportsRefusal (calculateHash key) timestamp strategy checkTimestamps = true)
    (hput : m.putData calculateHash key value timestamp strategy clock checkTimestamps =
      some (m', clock', result)) :
    m.Edits (calculateHash key) m'
      (if result.isSome then some (.value value) else m.view.content (calculateHash key)) := by
  obtain ⟨hwf', hcases⟩ := Map.putData_cases hwf hput
  rcases hcases with ⟨-, -, hsome, hview⟩ | ⟨hacc, -, hresult, hview⟩
  · refine ⟨hwf', ?_, ?_⟩
    · intro h hne
      rw [hview, View.put_ne _ _ hne]
    · rw [hview, content_put, hsome]
      simp
  · -- a refusal that is not reported is excluded
    have hroot : m.atRoot (calculateHash key) := by
      simpa [Map.reportsRefusal, hacc] using hreported
    rw [hresult, if_pos hroot]
    exact ⟨hwf', fun _ _ => by rw [hview], by rw [hview]; rfl⟩

theorem remove_content (hwf : m.WellFormed)
    (hsafe : m.removalSafe (calculateHash key) timestamp strategy checkTimestamps = true)
    (hremove : m.remove calculateHash key timestamp strategy clock checkTimestamps =
      some (m', clock', result)) :
    m.Edits (calculateHash key) m'
      (if result.isSome then none else m.view.content (calculateHash key)) := by
  obtain ⟨m₁, clock₁, result₁, hremove₁, hwf₁, -, hcases⟩ := m.remove_cases hwf clock hsafe
  cases hremove₁.symm.trans hremove
  rcases hcases with ⟨-, -, -, -, rfl, hview⟩ | ⟨-, -, rfl, hview⟩
  · refine ⟨hwf₁, ?_, ?_⟩
    · intro h hne
      rw [hview, View.erase_ne _ hne]
    · rw [hview, View.content, View.erase_self]
      rfl
  · exact ⟨hwf₁, fun _ _ => by rw [hview], by rw [hview]; rfl⟩

end writes

section counters
variable {config : Configuration} {nNodes : UInt32} {key : SimpleString} {m m' : Map}

/-- Where no value is stored, the counter that an operator finds or adds. -/
theorem withCounter_data
    (hvalue : ∀ v, m.view.content (config.calculateHash key) ≠ some (.value v)) :
    (m.view.withCounter key (config.calculateHash key) config.nodeId nNodes).data =
      .counter (counterOf config nNodes
        (m.view.content (config.calculateHash key))) := by
  unfold View.withCounter View.content at *
  cases hview : m.view (config.calculateHash key) with
  | none => rfl
  | some entry =>
    cases hdata : entry.data with
    | data d =>
      rw [hview, map_some, hdata] at hvalue
      exact absurd rfl (hvalue d.value)
    | counter c => simp [hdata, NodeData.content, counterOf]

/-- Handing a request to the counter of a key once there is one. -/
theorem editCounter_content (hwf : m.WellFormed) {entry : MapEntry} {counter : Counter}
    (hview : m.view (config.calculateHash key) = some entry)
    (hcounter : entry.data = .counter counter)
    {request : ReplicateCounterRequest} {response : ReplicateCounterResponse}
    (hrun : m.editCounter config.calculateHash key (·.onReplicationCounter request) =
      some (m', response)) :
    m.Edits (config.calculateHash key) m'
      ((counter.onReplicationCounter request).map fun replicated => .counter replicated.1) := by
  obtain ⟨written, hedit, hwritten⟩ := Map.editCounter_spec hwf hview hcounter
    (·.onReplicationCounter request)
  rw [hedit] at hrun
  obtain ⟨⟨edited, _⟩, hedited, hresult⟩ := map_eq_some_iff.mp hrun
  cases hresult
  obtain ⟨hwf', hview'⟩ := hwritten edited
  refine ⟨hwf', ?_, ?_⟩
  · intro h hne
    rw [hview', update_of_ne hne]
  · rw [hview', View.content, update_self, hedited]
    rfl

/-- The check of the operator is for a value under the key. -/
theorem any_type_iff (hwf : m.WellFormed) (h : UInt32) :
    ((m.view h).any fun entry => entry.type != .COUNTER) = true ↔
      ∃ v, m.view.content h = some (.value v) := by
  unfold View.content
  cases hview : m.view h with
  | none => simp
  | some entry =>
    have htype := hwf.type_eq hview
    cases hdata : entry.data <;> simp [htype, hdata, NodeData.nodeType, NodeData.content]

theorem replicateCounter_content (hwf : m.WellFormed) {request : ReplicateCounterRequest}
    {result : Option ReplicateCounterResponse}
    (hrun : replicateCounter config nNodes key request m = some (m', result)) :
    m.Edits (config.calculateHash key) m' (if result.isSome then
        ((counterOf config nNodes (m.view.content (config.calculateHash key)))
          |>.onReplicationCounter request).map fun replicated => .counter replicated.1
      else m.view.content (config.calculateHash key)) := by
  simp only [replicateCounter, hwf.get, bind_eq_bind, bind_some] at hrun
  split at hrun
  · cases hrun
    exact ⟨hwf, fun _ _ => rfl, rfl⟩
  · next hcounter =>
    rw [any_type_iff hwf, not_exists] at hcounter
    obtain ⟨m₁, hadd, hrun⟩ := bind_eq_some_iff.mp hrun
    -- one way or the other there is a counter now
    have hadded : m₁.WellFormed ∧ m₁.view = update m.view (config.calculateHash key)
        (some (m.view.withCounter key (config.calculateHash key) config.nodeId
          nNodes)) := by
      unfold addNewCounter at hadd
      split at hadd
      · obtain ⟨m₂, added, hput, hwf₂, hview₂⟩ :
            ∃ m₂ added, m.putCounter config.calculateHash key config.nodeId nNodes =
              some (m₂, added) ∧ _ ∧ _ :=
          Map.putCounter_spec hwf key config.nodeId nNodes
        rw [hput] at hadd
        cases hadd
        exact ⟨hwf₂, hview₂⟩
      · next hsome =>
        cases hadd
        obtain ⟨entry, hentry⟩ : ∃ entry, m.view (config.calculateHash key) = some entry :=
          ne_none_iff_exists'.mp (by simpa using hsome)
        refine ⟨hwf, ?_⟩
        rw [View.withCounter, hentry]
        exact (update_eq_self_iff.mpr hentry.symm).symm
    obtain ⟨hwf₁, hview₁⟩ := hadded
    obtain ⟨⟨m₂, response⟩, hedit, hresult⟩ := bind_eq_some_iff.mp hrun
    cases hresult
    have hentry : m₁.view (config.calculateHash key) = some (m.view.withCounter key
        (config.calculateHash key) config.nodeId nNodes) := by
      rw [hview₁, update_self]
    have hedits := editCounter_content hwf₁ hentry (withCounter_data hcounter) hedit
    refine ⟨hedits.wellFormed, ?_, hedits.content⟩
    intro h hne
    rw [hedits.others h hne, hview₁, update_of_ne hne]

end counters

/-- The clock has reached the timestamp of the stored value and has room for the passes of a call of
    `CAS`, so that the timestamp of the call is the greater one; or a refusal is reported. -/
def Map.reportsCasRefusal (m : Map) (h : UInt32) (clock : LamportClock) (passes : Nat) : Bool :=
  decide (m.atRoot h) || ((m.view h).all fun entry => entry.data.asData.all fun d =>
    decide (d.timestamp.counter ≤ clock.counter) && decide (clock.counter.toNat + passes < 2 ^ 64))

/-! A call of `CAS` writes under its copy of the clock plus the number of passes of its loop. -/

section passes
variable {config : Configuration} {partitionId : UInt32} {key expectedValue : SimpleString}

theorem sendRetriesPrepares_spec {promises : List Bool} {nextTimestamp : LamportClock}
    {node node' : Node} {result : Except UInt8 (LamportClock × LamportClock)}
    (hrun : sendRetriesPrepares config partitionId key expectedValue promises nextTimestamp node =
      some (node', result)) :
    (∃ outbox, node' = { node with outbox := outbox }) ∧
      ∀ prevTimestamp lastTimestamp, result = .ok (prevTimestamp, lastTimestamp) →
        readExpectedAt config partitionId key expectedValue node = some (.ok prevTimestamp) ∧
        ∃ passes, 0 < passes ∧ passes ≤ promises.length ∧
          lastTimestamp.counter = nextTimestamp.counter + UInt64.ofNat passes := by
  induction promises generalizing nextTimestamp node with
  | nil => cases hrun
  | cons quorum promises ih =>
    rw [sendRetriesPrepares] at hrun
    obtain ⟨found, hfound, hrun⟩ := bind_eq_some_iff.mp hrun
    cases found with
    | error code =>
      cases hrun
      exact ⟨⟨_, rfl⟩, fun _ _ h => absurd h (by simp)⟩
    | ok prevTimestamp =>
      cases quorum with
      | true =>
        cases hrun
        refine ⟨⟨_, rfl⟩, ?_⟩
        intro prev last hresult
        cases Except.ok.inj hresult
        exact ⟨hfound, 1, Nat.one_pos, by simp, rfl⟩
      | false =>
        obtain ⟨⟨outbox, rfl⟩, hlast⟩ := ih hrun
        refine ⟨⟨outbox, rfl⟩, ?_⟩
        intro prev last hresult
        obtain ⟨hread, passes, hpos, hle, hcounter⟩ := hlast prev last hresult
        -- the stores are those of the first pass
        refine ⟨hread, passes + 1, Nat.succ_pos _, by simpa using hle, ?_⟩
        rw [hcounter, UInt64.ofNat_add, UInt64.add_assoc, UInt64.add_comm 1]
        rfl

/-- The refusal of the write at the end of the call is reported. -/
theorem reportsRefusal_cas {m : Map} {h : UInt32} {clock lastTimestamp : LamportClock}
    {n passes : Nat}
    (hreported : m.reportsCasRefusal h clock n = true) (hpos : 0 < passes) (hle : passes ≤ n)
    (hlast : lastTimestamp.counter = clock.counter + UInt64.ofNat passes) {entry : MapEntry}
    {d : DataAVLNode} (hview : m.view h = some entry) (hdata : entry.data = .data d) :
    m.reportsRefusal h lastTimestamp .SET_MAX true = true := by
  unfold Map.reportsCasRefusal at hreported
  unfold Map.reportsRefusal
  rw [Bool.or_eq_true] at hreported ⊢
  rcases hreported with hroot | hclock
  · exact Or.inl hroot
  · right
    simp only [hview, hdata, NodeData.asData, all_some, Bool.and_eq_true, decide_eq_true_eq]
      at hclock
    obtain ⟨hreached, hroom⟩ := hclock
    have hcounter : lastTimestamp.counter.toNat = clock.counter.toNat + passes := by
      rw [hlast, UInt64.toNat_add, UInt64.toNat_ofNat', Nat.mod_eq_of_lt (a := passes) (by omega),
        Nat.mod_eq_of_lt (by omega)]
    refine accepts_eq_true_iff.mpr ?_
    intro entry' hentry'
    cases hview.symm.trans hentry'
    refine ⟨d, hdata, le_of_lt (LamportClock.lt_iff.mpr (Or.inl ?_))⟩
    have := UInt64.le_iff_toNat_le.mp hreached
    omega

end passes

section operators
variable {config : Configuration} {nNodes : UInt32} {quorums : CasQuorums}
  {operation : OperationBody} {options : OperationOptions} {key : SimpleString} {node node' : Node}
  {response : Response} {m : Map}

section reads
variable (hm : node.memDbStores (getPartitionIdByKey config key) = some m) (hwf : m.WellFormed)
include hm hwf

theorem edits_get
    (hrun : (GetOperator config).operate operation options node = some (node', response)) :
    node.Edits config key node' (node.content config key) := by
  simp only [GetOperator, bind_eq_bind, bind_eq_some_iff] at hrun
  obtain ⟨_, _, _, _, _, _, _, _, _, _, hresult⟩ := hrun
  cases hresult
  exact Node.Edits.unchanged hm hwf rfl rfl rfl

theorem edits_contains
    (hrun : (ContainsOperator config).operate operation options node = some (node', response)) :
    node.Edits config key node' (node.content config key) := by
  simp only [ContainsOperator, bind_eq_bind, bind_eq_some_iff] at hrun
  obtain ⟨_, _, _, _, _, _, hresult⟩ := hrun
  cases hresult
  exact Node.Edits.unchanged hm hwf rfl rfl rfl

theorem edits_prepareCas
    (hrun : (PrepareCasOperator config).operate operation options node = some (node', response)) :
    node.Edits config key node' (node.content config key) := by
  obtain ⟨rounds, rfl⟩ := operate_prepareCas hrun
  exact Node.Edits.unchanged hm hwf rfl rfl rfl

end reads

section writes
variable (hkey : operation.getArg 0 = some key)
  (hpartition : options.partitionId = getPartitionIdByKey config key)
  (hm : node.memDbStores (getPartitionIdByKey config key) = some m) (hwf : m.WellFormed)
include hkey hpartition hm hwf

theorem edits_set
    (hreported : m.reportsRefusal (config.calculateHash key) (getTimestamp config operation options)
      options.updateClockStrategy options.checkTimestamps = true)
    (hrun : (SetOperator config).operate operation options node = some (node', response)) :
    node.Edits config key node' (if response.isSuccessful then (operation.getArg 1).map .value
      else node.content config key) := by
  simp only [SetOperator, hpartition, hm, hkey, bind_eq_bind, bind_some,
    bind_eq_some_iff] at hrun
  obtain ⟨value, hvalue, ⟨store, clock, result⟩, hput, hresult⟩ := hrun
  cases hresult
  have hedits := Node.Edits.setStore hm (putData_content hwf hreported hput) clock
  rw [← Node.content_of_store hm] at hedits
  rw [hvalue]
  exact hedits

theorem edits_delete
    (hsafe : m.removalSafe (config.calculateHash key) (getTimestamp config operation options)
      options.updateClockStrategy options.checkTimestamps = true)
    (hrun : (DeleteOperator config).operate operation options node = some (node', response)) :
    node.Edits config key node' (if response.isSuccessful then none
      else node.content config key) := by
  simp only [DeleteOperator, hpartition, hm, hkey, bind_eq_bind, bind_some,
    bind_eq_some_iff] at hrun
  obtain ⟨⟨store, clock, result⟩, hremove, hresult⟩ := hrun
  cases hresult
  have hedits := Node.Edits.setStore hm (remove_content hwf hsafe hremove) clock
  rw [← Node.content_of_store hm] at hedits
  exact hedits

theorem edits_updateCounter
    (hvalue : ∀ v, m.view.content (config.calculateHash key) ≠ some (.value v))
    (hrun : (UpdateCounterOperator config nNodes).operate operation options node =
      some (node', response)) :
    node.Edits config key node' (if response.isSuccessful then
        ((counterOf config nNodes (node.content config key)).updateOwn
          operation.flag1).map fun updated => .counter updated.1
      else node.content config key) := by
  simp only [UpdateCounterOperator, hpartition, hm, hkey, bind_eq_bind, bind_some,
    bind_eq_some_iff] at hrun
  obtain ⟨⟨store, result⟩, hupdate, hresult⟩ := hrun
  cases hresult
  obtain ⟨counted, hcounted, hcounter⟩ := Map.updateCounter_counter hwf (withCounter_data hvalue)
    operation.flag1
  rw [hcounted] at hupdate
  obtain ⟨⟨edited, value⟩, hedited, hresult⟩ := map_eq_some_iff.mp hupdate
  cases hresult
  obtain ⟨hwf', hview⟩ := hcounter edited
  rw [Node.content_of_store hm, hedited]
  refine Node.Edits.setStore hm ⟨hwf', ?_, ?_⟩ node.clock
  · intro h hne
    rw [hview, update_of_ne hne]
  · rw [hview, View.content, update_self]
    rfl

theorem edits_replicateCounter
    (hrun : (ReplicateCounterOperator config nNodes).operate operation options node =
      some (node', response)) :
    node.Edits config key node' (if response.isSuccessful then
        (operation.replicateCounterRequest.bind
          (counterOf config nNodes (node.content config key)).onReplicationCounter)
            |>.map fun replicated => .counter replicated.1
      else node.content config key) := by
  simp only [ReplicateCounterOperator, hpartition, hm, hkey, bind_eq_bind, bind_some,
    bind_eq_some_iff] at hrun
  obtain ⟨request, hrequest, ⟨store, result⟩, hreplicate, hresult⟩ := hrun
  cases hresult
  have hedits := Node.Edits.setStore hm (replicateCounter_content hwf hreplicate) node.clock
  rw [← Node.content_of_store hm] at hedits
  rw [hrequest]
  cases result <;> exact hedits

theorem edits_acceptCas
    (hreported : ∀ nextTimestamp, operation.getTimestampArg 5 = some nextTimestamp →
      m.reportsRefusal (config.calculateHash key) nextTimestamp .SET_MAX true = true)
    (hrun : (AcceptCasOperator config).operate operation options node = some (node', response)) :
    node.Edits config key node' (if response.isSuccessful then (operation.getArg 1).map .value
      else node.content config key) := by
  simp only [AcceptCasOperator, hpartition, hm, hkey, bind_eq_bind, bind_some,
    bind_eq_some_iff] at hrun
  obtain ⟨value, hvalue, prevTimestamp, -, nextTimestamp, hnext, stored, -, hrun⟩ := hrun
  have hunchanged : node.Edits config key node (node.content config key) :=
    Node.Edits.unchanged hm hwf rfl rfl rfl
  rw [hvalue]
  cases stored with
  | none =>
    cases hrun
    exact hunchanged
  | some stored =>
    dsimp only at hrun
    split at hrun
    · cases hrun
      exact hunchanged
    · -- the write is refused with an error, or the value is stored and the round marked
      simp only [acceptCas, bind_eq_bind, bind_eq_some_iff] at hrun
      obtain ⟨⟨store, clock, result⟩, hput, hrun⟩ := hrun
      have hedits := Node.Edits.setStore hm (putData_content hwf (hreported _ hnext) hput) clock
      rw [← Node.content_of_store hm] at hedits
      cases result with
      | none =>
        cases hrun
        exact hedits
      | some edit =>
        obtain ⟨promised, hpromised, hrun⟩ := bind_eq_some_iff.mp hrun
        obtain ⟨_, -, rfl⟩ := map_eq_some_iff.mp hpromised
        cases hrun
        exact hedits.rest rfl rfl rfl

theorem edits_cas
    (hreported : m.reportsCasRefusal (config.calculateHash key) node.clock quorums.promises.length =
      true)
    (hrun : (CasOperator config quorums).operate operation options node = some (node', response)) :
    node.Edits config key node' (if response.isSuccessful then (operation.getArg 2).map .value
      else node.content config key) := by
  simp only [CasOperator, hpartition, hkey, bind_eq_bind, bind_some,
    bind_eq_some_iff] at hrun
  obtain ⟨expectedValue, -, newValue, hvalue, ⟨sent, resultPrepare⟩, hloop, hrun⟩ := hrun
  obtain ⟨⟨outbox, rfl⟩, hlast⟩ := sendRetriesPrepares_spec hloop
  have hunchanged : ∀ outbox, node.Edits config key { node with outbox := outbox }
      (node.content config key) := fun _ => Node.Edits.unchanged hm hwf rfl rfl rfl
  rw [hvalue]
  cases resultPrepare with
  | error code =>
    cases hrun
    exact hunchanged outbox
  | ok timestamps =>
    obtain ⟨hread, passes, hpos, hle, hcounter⟩ := hlast timestamps.1 timestamps.2 rfl
    obtain ⟨entry, hview, -, hdata⟩ := readExpectedAt_ok hm hwf hread
    have hrefusal := reportsRefusal_cas hreported hpos hle hcounter hview hdata
    dsimp only at hrun
    split at hrun
    · simp only [saveToLocalDb, Node.send, hm, bind_eq_bind, bind_some,
        bind_eq_some_iff] at hrun
      obtain ⟨⟨store, clock, result⟩, hput, hrun⟩ := hrun
      have hedits := Node.Edits.setStore hm (putData_content hwf hrefusal hput) clock
      rw [← Node.content_of_store hm] at hedits
      cases result <;> cases hrun <;> exact hedits.rest rfl rfl rfl
    · cases hrun
      exact hunchanged _

end writes

end operators

end MemDb

import MemDb.Operators.Restore
import MemDb.Operators.SingleNode
import MemDb.Persistence.BlockCompaction

/-! # Counters and compaction

    Compaction keeps one operation for each key of a segment, as if every operation replaced what
    the ones in front of it have left. An `UPDATE_COUNTER` adds to it instead. The dispatcher logs
    all of them with the timestamp 0, so the one that is kept is the last on its key.

    A log that is executed from an empty store leaves under each hash a counter that shows the
    increments minus the decrements of the log, in whatever order they come (`replay_counts`). So
    the compacted log shows the same counts exactly where the last updates of the segments add up to
    as much as all of them (`replay_compacted_iff`).
-/

namespace MemDb

open Lib List Option OperatorNumbers

/-! ### Updates of counters -/

def OperationBody.isUpdate (operation : OperationBody) : Bool :=
  operation.operatorNumber == UPDATE_COUNTER

theorem OperationBody.isUpdate_iff {operation : OperationBody} :
    operation.isUpdate = true ↔ operation.operatorNumber = UPDATE_COUNTER :=
  beq_iff_eq

theorem OperationBody.getArg_zero (operation : OperationBody) :
    operation.getArg 0 = operation.keyArg := by
  unfold getArg keyArg
  congr 1
  funext args
  exact head?_eq_getElem?.symm

/-! ### Counting the updates of a log -/

section tally
variable (calculateHash : SimpleString → UInt32)

/-- The operation counts under the hash, in the given direction. -/
def OperationBody.updates (h : UInt32) (isIncrement : Bool) (operation : OperationBody) : Bool :=
  operation.isUpdate && (operation.flag1 == isIncrement) &&
    (operation.keyArg.map calculateHash == some h)

/-- The updates of a log under a hash. -/
def tally (operations : List OperationBody) (h : UInt32) (isIncrement : Bool) : Nat :=
  operations.countP (·.updates calculateHash h isIncrement)

/-- The hashes under which a log counts. -/
def updatedHashes (operations : List OperationBody) : Set UInt32 :=
  { h | ∃ operation ∈ operations, operation.isUpdate = true ∧
    operation.keyArg.map calculateHash = some h }

variable {calculateHash} {operation : OperationBody} {operations : List OperationBody}

variable {key : SimpleString}

theorem mem_updatedHashes (hop : operation ∈ operations) (hupdate : operation.isUpdate = true)
    (hkey : operation.keyArg = some key) :
    calculateHash key ∈ updatedHashes calculateHash operations :=
  ⟨operation, hop, hupdate, by rw [hkey]; rfl⟩

theorem tally_append (first second : List OperationBody) (h : UInt32) (isIncrement : Bool) :
    tally calculateHash (first ++ second) h isIncrement =
      tally calculateHash first h isIncrement + tally calculateHash second h isIncrement :=
  countP_append

theorem tally_le (operations : List OperationBody) (h : UInt32) (isIncrement : Bool) :
    tally calculateHash operations h isIncrement ≤ operations.countP (·.isUpdate) := by
  apply countP_mono_left
  intro operation _ hupdates
  simp only [OperationBody.updates, Bool.and_eq_true] at hupdates
  exact hupdates.1.1

/-- Operations that are no updates, and the order of the others, do not matter. -/
theorem tally_of_perm {updates : List OperationBody}
    (hperm : (operations.filter (·.isUpdate)).Perm updates) :
    tally calculateHash operations = tally calculateHash updates := by
  funext h isIncrement
  unfold tally
  rw [← hperm.countP_eq, countP_filter]
  apply countP_congr
  intro operation _
  simp only [OperationBody.updates, Bool.and_eq_true]
  tauto

theorem tally_eq_zero {h : UInt32} (hnot : h ∉ updatedHashes calculateHash operations)
    (isIncrement : Bool) :
    tally calculateHash operations h isIncrement = 0 := by
  apply countP_eq_zero.mpr
  intro operation hop hupdates
  simp only [OperationBody.updates, Bool.and_eq_true, beq_iff_eq] at hupdates
  exact hnot ⟨operation, hop, hupdates.1.1, hupdates.2⟩

/-- One update more. -/
theorem tally_singleton (hupdate : operation.isUpdate = true)
    (hkey : operation.keyArg = some key) (h : UInt32) (isIncrement : Bool) :
    tally calculateHash [operation] h isIncrement =
      if h = calculateHash key ∧ isIncrement = operation.flag1 then 1 else 0 := by
  have hupdates : operation.updates calculateHash h isIncrement = true ↔
      h = calculateHash key ∧ isIncrement = operation.flag1 := by
    simp only [OperationBody.updates, hupdate, hkey, map_some, Bool.true_and, Bool.and_eq_true,
      beq_iff_eq, some.injEq]
    tauto
  rw [tally, countP_singleton]
  exact if_congr hupdates rfl rfl

theorem tally_other (hother : operation.isUpdate = false) (h : UInt32) (isIncrement : Bool) :
    tally calculateHash [operation] h isIncrement = 0 := by
  simp [tally, OperationBody.updates, hother]

end tally

/-- The count that so many increments and decrements leave; without any there is no counter. -/
def shownCount (counted : Bool → Nat) : Option Int :=
  if counted true + counted false = 0 then none
  else some ((counted true : Int) - (counted false : Int))

/-! ### The counter under a hash -/

/-- The counter that the node alone has updated so many times, or none. -/
inductive CountsAt (nodeId : UInt16) : Option MapEntry → (Bool → Nat) → Prop
  | absent {counted : Bool → Nat} (hzero : ∀ isIncrement, counted isIncrement = 0) :
    CountsAt nodeId none counted
  | present {entry : MapEntry} {counted : Bool → Nat} (c : Counter)
    (hdata : entry.data = .counter c) (hcounts : c.CountsAlone nodeId counted)
    (hsome : counted true + counted false ≠ 0) : CountsAt nodeId (some entry) counted

section counter
variable {nodeId : UInt16} {counted : Bool → Nat}

/-- What the store shows of it. -/
theorem CountsAt.count {found : Option MapEntry} (h : CountsAt nodeId found counted)
    (hsmall : ∀ isIncrement, counted isIncrement < 2 ^ 63) :
    ((found.bind fun entry => entry.data.asCounter).bind Counter.count).map Int64.toInt =
      shownCount counted := by
  cases h with
  | absent hzero => simp [shownCount, hzero]
  | present c hdata hcounts hsome =>
    obtain ⟨total, hcount, htotal⟩ := hcounts.count hsmall
    rw [bind_some, hdata, NodeData.asCounter, bind_some, hcount, map_some, htotal,
      shownCount, if_neg hsome]

/-- The counter that an update finds or adds. -/
theorem CountsAt.withCounter {m : Map} {h : UInt32} (hcounts : CountsAt nodeId (m.view h) counted)
    {nNodes : UInt32} (hnodes : 0 < nNodes.toNat) (key : SimpleString) :
    ∃ c, (m.view.withCounter key h nodeId nNodes).data = .counter c ∧
      c.CountsAlone nodeId counted := by
  unfold View.withCounter
  generalize m.view h = found at hcounts
  cases hcounts with
  | absent hzero =>
    rw [funext hzero]
    exact ⟨_, rfl, Counter.countsAlone_new hnodes⟩
  | present c hdata hcounts _ => exact ⟨c, hdata, hcounts⟩

/-- An update counts once more under its hash and leaves the others alone. -/
theorem updateCounter_counts {calculateHash : SimpleString → UInt32} {m : Map} (hwf : m.WellFormed)
    (hcounts : CountsAt nodeId (m.view (calculateHash key)) counted)
    {nNodes : UInt32} (hnodes : 0 < nNodes.toNat) {isIncrement : Bool}
    (hsmall : counted isIncrement + 1 < 2 ^ 63) :
    ∃ m' value, m.updateCounter calculateHash key nodeId nNodes isIncrement =
        some (m', some value) ∧ m'.WellFormed ∧
      CountsAt nodeId (m'.view (calculateHash key))
        (fun kind => counted kind + if kind = isIncrement then 1 else 0) ∧
      ∀ h, h ≠ calculateHash key → m'.view h = m.view h := by
  obtain ⟨c, hdata, hcounted⟩ := hcounts.withCounter hnodes key
  obtain ⟨m', v, entry, edited, hupdate, hwf', hview, hentry, hedited⟩ :=
    hcounted.updateCounter hwf hdata isIncrement hsmall
  refine ⟨m', v, hupdate, hwf', ?_, ?_⟩
  · rw [hview, Function.update_self]
    refine .present edited hentry hedited ?_
    cases isIncrement <;> simp
  · intro h hne
    rw [hview, Function.update_of_ne hne]

end counter

/-! ### Executing a log -/

section replay
variable (config : Configuration) (others : UInt8 → Option Operator)
  (options : OperationOptions)

/-- The operation is executed, and what is stored under the hashes stays as it is. -/
def Spares (hashes : Set UInt32) (operation : OperationBody) : Prop :=
  ∀ node m, node.memDbStores options.partitionId = some m → m.WellFormed →
    ∃ node' m', operatorsDispatcher config others options [operation] node = some node' ∧
      node'.memDbStores options.partitionId = some m' ∧ m'.WellFormed ∧
      ∀ h ∈ hashes, m'.view h = m.view h

/-- A `SET` stores under the hash of its key. -/
theorem spares_set {hashes : Set UInt32} {operation : OperationBody} {key value : SimpleString}
    (hset : operation.IsSet key value) (hcheck : options.checkTimestamps = true)
    (hhash : config.calculateHash key ∉ hashes) :
    Spares config others options hashes operation := by
  intro node m hm hwf
  obtain ⟨m', clock, result, hput, hwf', -, hcases⟩ := m.putData_spec hwf value node.clock
    operation.stamp options.updateClockStrategy true
  obtain ⟨node', hdispatch, -, -, hstores, -⟩ := operatorsDispatcher_set config others options
    hset hcheck hm hput []
  refine ⟨node', m', hdispatch, ?_, hwf', ?_⟩
  · rw [hstores]
    exact if_pos rfl
  · intro h hh
    rcases hcases with ⟨-, -, -, hview⟩ | ⟨-, -, -, hview⟩
    · have hne : h ≠ config.calculateHash key := by
        rintro rfl
        exact hhash hh
      rw [hview, View.put_ne _ _ hne]
    · rw [hview]

/-- Under the hashes the store has counted the updates that have been executed. -/
def Map.Counts (m : Map) (hashes : Set UInt32) (executed : List OperationBody) : Prop :=
  ∀ h ∈ hashes, CountsAt config.nodeId (m.view h) (tally config.calculateHash executed h)

/-- The updates of a list are under the hashes, and the other operations leave these alone. -/
structure Replayable (hashes : Set UInt32) (operations : List OperationBody) : Prop where
  update : ∀ operation ∈ operations, operation.isUpdate = true →
    ∃ key, operation.keyArg = some key ∧ config.calculateHash key ∈ hashes
  other : ∀ operation ∈ operations, operation.isUpdate = false →
    Spares config others options hashes operation

variable {config others options} {hashes : Set UInt32} {operation : OperationBody}
  {operations executed : List OperationBody} {node : Node} {m : Map}

theorem Replayable.mono (h : Replayable config others options hashes operations)
    {fewer : List OperationBody} (hsubset : fewer ⊆ operations) :
    Replayable config others options hashes fewer :=
  ⟨fun operation hop => h.update operation (hsubset hop),
    fun operation hop => h.other operation (hsubset hop)⟩

/-- An operation that counts nothing leaves the counts. -/
theorem Map.Counts.other (hcounts : m.Counts config hashes executed)
    (hother : operation.isUpdate = false) {m' : Map} (hview : ∀ h ∈ hashes, m'.view h = m.view h) :
    m'.Counts config hashes (executed ++ [operation]) := by
  intro h hh
  have htally : tally config.calculateHash (executed ++ [operation]) h =
      tally config.calculateHash executed h := by
    funext isIncrement
    rw [tally_append, tally_other hother, Nat.add_zero]
  rw [hview h hh, htally]
  exact hcounts h hh

variable {nNodes : UInt32}
  (hcounter : others UPDATE_COUNTER =
    some (UpdateCounterOperator config nNodes))
  (hnodes : 0 < nNodes.toNat)
include hcounter hnodes

theorem update_counts (hupdate : operation.isUpdate = true)
    (hkey : operation.keyArg = some key) (hhash : config.calculateHash key ∈ hashes)
    (hm : node.memDbStores options.partitionId = some m) (hwf : m.WellFormed)
    (hcounts : m.Counts config hashes executed)
    (hsmall : executed.countP (·.isUpdate) + 1 < 2 ^ 63) :
    ∃ node' m', operatorsDispatcher config others options [operation] node = some node' ∧
      node'.memDbStores options.partitionId = some m' ∧ m'.WellFormed ∧
      m'.Counts config hashes (executed ++ [operation]) := by
  have hroom : tally config.calculateHash executed (config.calculateHash key) operation.flag1 + 1 <
      2 ^ 63 :=
    Nat.lt_of_le_of_lt (Nat.add_le_add_right (tally_le _ _ _) 1) hsmall
  obtain ⟨m', value, hcount, hwf', hcounts', hview⟩ :=
    updateCounter_counts hwf (hcounts _ hhash) hnodes hroom
  have hregistry : operatorRegistry config others operation.operatorNumber =
      some (UpdateCounterOperator config nNodes) := by
    rw [OperationBody.isUpdate_iff.mp hupdate, ← hcounter]
    rfl
  have harg : operation.getArg 0 = some key := operation.getArg_zero.trans hkey
  have hoperate : (UpdateCounterOperator config nNodes).operate operation options node =
      some (node.setStore options.partitionId m' node.clock, Response.success) := by
    simp [UpdateCounterOperator, hm, harg, hcount]
  obtain ⟨node', hdispatch, -, -, hstores, -⟩ :=
    operatorsDispatcher_cons config others options hregistry harg hoperate []
  refine ⟨node', m', hdispatch, ?_, hwf', ?_⟩
  · rw [hstores]
    exact if_pos rfl
  · intro h hh
    have htally : tally config.calculateHash (executed ++ [operation]) h =
        fun kind => tally config.calculateHash executed h kind +
          if h = config.calculateHash key ∧ kind = operation.flag1 then 1 else 0 := by
      funext kind
      rw [tally_append, tally_singleton hupdate hkey]
    rw [htally]
    -- the tallies of the other keys stay
    by_cases heq : h = config.calculateHash key
    · subst heq
      simpa using hcounts'
    · rw [hview h heq]
      simpa [heq] using hcounts h hh

/-- A log is executed whole, and the store has then counted its updates. -/
theorem replay_counts (hreplay : Replayable config others options hashes operations)
    (hm : node.memDbStores options.partitionId = some m) (hwf : m.WellFormed)
    (hcounts : m.Counts config hashes executed)
    (hsmall : (executed ++ operations).countP (·.isUpdate) < 2 ^ 63) :
    ∃ node' m', operatorsDispatcher config others options operations node = some node' ∧
      node'.memDbStores options.partitionId = some m' ∧ m'.WellFormed ∧
      m'.Counts config hashes (executed ++ operations) := by
  -- by induction on what is left of the log
  induction operations generalizing executed node m with
  | nil => exact ⟨node, m, rfl, hm, hwf, by rwa [append_nil]⟩
  | cons operation operations ih =>
    obtain ⟨node₁, m₁, hfirst, hm₁, hwf₁, hcounts₁⟩ : ∃ node₁ m₁,
        operatorsDispatcher config others options [operation] node = some node₁ ∧
        node₁.memDbStores options.partitionId = some m₁ ∧ m₁.WellFormed ∧
        m₁.Counts config hashes (executed ++ [operation]) := by
      cases hupdate : operation.isUpdate with
      | true =>
        obtain ⟨key, hkey, hhash⟩ := hreplay.update operation mem_cons_self hupdate
        rw [countP_append, countP_cons_of_pos hupdate] at hsmall
        exact update_counts hcounter hnodes hupdate hkey hhash hm hwf hcounts (by omega)
      | false =>
        obtain ⟨node₁, m₁, hfirst, hm₁, hwf₁, hview⟩ :=
          hreplay.other operation mem_cons_self hupdate node m hm hwf
        exact ⟨node₁, m₁, hfirst, hm₁, hwf₁, hcounts.other hupdate hview⟩
    rw [append_cons] at hsmall ⊢
    obtain ⟨node', m', hrest, hstore⟩ :=
      ih (hreplay.mono (subset_cons_self _ _)) hm₁ hwf₁ hcounts₁ hsmall
    refine ⟨node', m', ?_, hstore⟩
    rw [← singleton_append, operatorsDispatcher_append, hfirst, bind_some]
    exact hrest

end replay

/-! ### What a node shows -/

/-- `get(key)->toCounter()->counter.count()`; `none` where there is no counter. -/
def Node.count (config : Configuration) (partitionId : UInt32) (key : SimpleString) (node : Node) :
    Option Int64 := do
  let memDbStore ← node.memDbStores partitionId
  let entry ← (← memDbStore.get config.calculateHash key)
  let counter ← entry.data.asCounter
  counter.count

theorem Map.Counts.count {config : Configuration} {m : Map} {hashes : Set UInt32}
    {executed : List OperationBody} (hcounts : m.Counts config hashes executed) (hwf : m.WellFormed)
    (hsmall : executed.countP (·.isUpdate) < 2 ^ 63) {node : Node} {partitionId : UInt32}
    (hm : node.memDbStores partitionId = some m)
    (hhash : config.calculateHash key ∈ hashes) :
    (node.count config partitionId key).map Int64.toInt =
      shownCount (tally config.calculateHash executed (config.calculateHash key)) := by
  rw [← (hcounts _ hhash).count fun isIncrement => Nat.lt_of_le_of_lt (tally_le _ _ _) hsmall]
  simp [Node.count, hm, hwf.get, bind_assoc]

/-! ### What compaction keeps of the updates -/

/-- The updates of a segment that no operation on the same string follows. -/
def lastUpdates : List OperationBody → List OperationBody
  | [] => []
  | operation :: rest =>
    if operation.isUpdate && !rest.any fun later =>
      later.keyString zeroBehind == operation.keyString zeroBehind then
      operation :: lastUpdates rest
    else lastUpdates rest

theorem lastUpdates_sublist (operations : List OperationBody) :
    (lastUpdates operations).Sublist (operations.filter (·.isUpdate)) := by
  induction operations with
  | nil => exact Sublist.refl _
  | cons operation rest ih =>
    unfold lastUpdates
    split
    · next hkept =>
      rw [filter_cons_of_pos (by simp only [Bool.and_eq_true] at hkept; exact hkept.1)]
      exact ih.cons_cons operation
    · exact ih.trans ((sublist_cons_self operation rest).filter _)

theorem onString_lastUpdates (operations : List OperationBody) (c : List UInt8) :
    onString zeroBehind c (lastUpdates operations) =
      (onString zeroBehind c operations).getLast?.toList.filter (·.isUpdate) := by
  induction operations with
  | nil => rfl
  | cons operation rest ih =>
    by_cases hstring : operation.keyString zeroBehind = some c
    · have hcons :
          ∀ others, onString zeroBehind c (operation :: others) =
            operation :: onString zeroBehind c others :=
        fun others => filter_cons_of_pos (by simpa using hstring)
      have hlater :
          (rest.any fun later => later.keyString zeroBehind == operation.keyString zeroBehind) =
            true ↔
          onString zeroBehind c rest ≠ [] := by
        simp [hstring, onString]
      rw [hcons, lastUpdates]
      cases hrest : onString zeroBehind c rest with
      | nil =>
        -- the operation is the last on its string
        have hnone := Bool.eq_false_of_not_eq_true fun h => hlater.mp h hrest
        rw [hrest] at ih
        cases hupdate : operation.isUpdate with
        | true => simp [hnone, hcons, ih, hupdate]
        | false => simp [ih, hupdate]
      | cons later laters =>
        have hsome := hlater.mpr (by rw [hrest]; exact cons_ne_nil _ _)
        rw [hrest] at ih
        rw [hsome, getLast?_cons_cons]
        simpa using ih
    · have hskip :
          ∀ others, onString zeroBehind c (operation :: others) = onString zeroBehind c others :=
        fun others => filter_cons_of_neg (by simpa using hstring)
      rw [hskip, ← ih, lastUpdates]
      split
      · rw [hskip]
      · rfl

/-- Operations with keys are the same up to their order where they are so under each string. -/
theorem perm_of_onString {left right : List OperationBody} (hleft : ∀ op ∈ left, op.keyArg.isSome)
    (hright : ∀ op ∈ right, op.keyArg.isSome)
    (h : ∀ c, onString zeroBehind c left = onString zeroBehind c right) :
    left.Perm right := by
  apply perm_iff_count.mpr
  intro op
  cases hkey : op.keyArg with
  | none =>
    have hnot : ∀ ops : List OperationBody, (∀ op ∈ ops, op.keyArg.isSome) → op ∉ ops := by
      intro ops hops hop
      have hsome := hops op hop
      rw [hkey] at hsome
      cases hsome
    rw [count_eq_zero_of_not_mem (hnot left hleft),
      count_eq_zero_of_not_mem (hnot right hright)]
  | some key =>
    -- the operation is counted among those under its own string
    have hstring : decide (op.keyString zeroBehind = some (cString key)) = true :=
      decide_eq_true (keyString_of_key hkey)
    have hcount :
        ∀ ops : List OperationBody, (onString zeroBehind (cString key) ops).count op =
          ops.count op :=
      fun ops => count_filter hstring
    rw [← hcount left, ← hcount right, h]

/-- Where nothing is newer than the last operation, it is kept. -/
theorem keptOperation_eq_getLast? {operations : List OperationBody}
    (hle : ∀ op ∈ operations, ∀ other ∈ operations, op.timestamp ≤ other.timestamp) :
    keptOperation none operations = operations.getLast? := by
  cases hfinal : operations.getLast? with
  | none => simp [keptOperation, hfinal]
  | some last =>
    have hnone : operations.find? (last.timestamp < ·.timestamp) = none := by
      apply find?_eq_none.mpr
      intro op hop
      simpa using hle op hop last (mem_of_getLast? hfinal)
    simp [keptOperation, hfinal, hnone]

/-- Under a string whose operations have one timestamp compaction leaves the last of them. -/
theorem OperationLogCompacter.compact_kept (behind : OperationBody → List UInt8)
    (numberThreads : Nat) {operations : List OperationBody}
    (hkeys : ∀ op ∈ operations, op.keyArg.isSome) :
    ∃ compacted, OperationLogCompacter.compact behind numberThreads operations = some compacted ∧
      (∀ op ∈ compacted, op.keyArg.isSome) ∧
      ∀ c, onString behind c compacted ⊆ onString behind c operations ∧
        ((∀ op ∈ onString behind c operations, ∀ other ∈ onString behind c operations,
            op.timestamp ≤ other.timestamp) →
          onString behind c compacted = (onString behind c operations).getLast?.toList) := by
  unfold OperationLogCompacter.compact
  split
  · obtain ⟨compacted, hcompacted, hkeyed, hroot⟩ :=
      MultiThreadedLogCompactor.compact_kept behind numberThreads hkeys
    refine ⟨compacted, hcompacted, hkeyed, fun c => ⟨(hroot c).1, fun hle => ?_⟩⟩
    rw [(hroot c).2, keptOperation_eq_getLast? hle]
    intro later _ earlier _ op hop other _ last hfinal
    obtain ⟨hop, hstring⟩ := mem_onString.mp hop
    exact hle op (mem_onString.mpr ⟨MultiThreadedLogCompactor.leaf_subset _ hop, hstring⟩) last
      (mem_of_getLast? hfinal)
  · obtain ⟨compacted, noted, hcompacted, hkept, hkeyed⟩ := compact_nil_spec behind hkeys
    refine ⟨compacted, by rw [hcompacted]; rfl, hkeyed, fun c => ⟨?_, fun hle => ?_⟩⟩
    · intro op hop
      rw [hkept] at hop
      exact keptOperation_mem (mem_toList.mp hop)
    · rw [hkept, keptOperation_eq_getLast? hle]

/-- What `OplogIndexSegmentWriter::write` makes of the operations of a segment. -/
def compactSegment (env : LogEnvironment) (segment : List OperationBody) :
    Option (List OperationBody) :=
  (OperationLogCompacter.compact env.behind env.hardwareConcurrency segment).map
    env.sortByTimestamp

/-- A segment whose operations have keys with a zero byte behind them, and whose updates have the
    timestamp that the dispatcher gives them. What shares its string with an update is one. -/
structure UpdatesApart (env : LogEnvironment) (segment : List OperationBody) : Prop where
  keyed : ∀ operation ∈ segment, operation.keyArg.isSome
  terminated : ∀ operation ∈ segment, (env.behind operation).head? = some 0
  stamped : ∀ operation ∈ segment, operation.isUpdate = true → operation.timestamp = 0
  apart : ∀ operation ∈ segment, ∀ other ∈ segment, operation.isUpdate = true →
    other.keyString zeroBehind = operation.keyString zeroBehind → other.isUpdate = true

section segments
variable (env : LogEnvironment)

theorem compactSegment_spec {segment : List OperationBody} (h : UpdatesApart env segment) :
    ∃ compacted, compactSegment env segment = some compacted ∧ compacted ⊆ segment ∧
      (compacted.filter (·.isUpdate)).Perm (lastUpdates segment) := by
  obtain ⟨compacted, hcompact, hkeyed, hstrings⟩ :=
    OperationLogCompacter.compact_kept env.behind env.hardwareConcurrency h.keyed
  have hsubset : compacted ⊆ segment := by
    intro operation hop
    obtain ⟨c, hstring⟩ := exists_keyString env.behind (hkeyed operation hop)
    exact (mem_onString.mp ((hstrings c).1 (mem_onString.mpr ⟨hop, hstring⟩))).1
  -- the keys are compared up to the zero byte
  simp only [onString_of_terminated h.terminated,
    onString_of_terminated fun op hop => h.terminated op (hsubset hop)] at hstrings
  have hsort := env.sort_perm compacted
  refine ⟨env.sortByTimestamp compacted, by rw [compactSegment, hcompact]; rfl,
    fun operation hop => hsubset (hsort.mem_iff.mp hop), ?_⟩
  · apply (hsort.filter _).trans
    apply perm_of_onString
    · intro operation hop
      exact hkeyed operation (mem_of_mem_filter hop)
    · intro operation hop
      exact h.keyed operation (mem_of_mem_filter ((lastUpdates_sublist segment).subset hop))
    · intro c
      have hcomm : onString zeroBehind c (compacted.filter (·.isUpdate)) =
          (onString zeroBehind c compacted).filter (·.isUpdate) := by
        rw [onString, onString, filter_comm]
      rw [hcomm, onString_lastUpdates]
      by_cases hupdate : ∃ operation ∈ onString zeroBehind c segment, operation.isUpdate = true
      · -- all operations on the string are updates, and have the timestamp 0
        obtain ⟨operation, hop, hupdate⟩ := hupdate
        obtain ⟨hop, hstring⟩ := mem_onString.mp hop
        have hzero : ∀ other ∈ onString zeroBehind c segment, other.timestamp = 0 := by
          intro other hother
          obtain ⟨hother, hotherString⟩ := mem_onString.mp hother
          exact h.stamped other hother
            (h.apart operation hop other hother hupdate (hotherString.trans hstring.symm))
        rw [(hstrings c).2]
        intro op hop other hother
        rw [hzero op hop, hzero other hother]
        exact UInt64.le_refl 0
      · -- none of them is
        push Not at hupdate
        rw [filter_eq_nil_iff.mpr fun op hop => hupdate op ((hstrings c).1 hop),
          filter_eq_nil_iff.mpr]
        intro op hop
        exact hupdate op (mem_of_getLast? (mem_toList.mp hop))

theorem compactSegments_spec {segments : List (List OperationBody)}
    (h : ∀ segment ∈ segments, UpdatesApart env segment) :
    ∃ compacted, segments.mapM (compactSegment env) = some compacted ∧
      compacted.flatten ⊆ segments.flatten ∧
      (compacted.flatten.filter (·.isUpdate)).Perm (segments.flatMap lastUpdates) := by
  induction segments with
  | nil => exact ⟨[], rfl, Subset.refl _, Perm.refl _⟩
  | cons segment segments ih =>
    obtain ⟨hsegment, hsegments⟩ := forall_mem_cons.mp h
    obtain ⟨first, hfirst, hfirstSubset, hfirstPerm⟩ := compactSegment_spec env hsegment
    obtain ⟨rest, hrest, hrestSubset, hrestPerm⟩ := ih hsegments
    refine ⟨first :: rest, by simp [hfirst, hrest], ?_, ?_⟩
    · rw [flatten_cons, flatten_cons]
      exact append_subset.mpr ⟨subset_append_of_subset_left _ hfirstSubset,
        subset_append_of_subset_right _ hrestSubset⟩
    · rw [flatten_cons, filter_append, flatMap_cons]
      exact hfirstPerm.append hrestPerm

end segments

theorem flatMap_lastUpdates_sublist (segments : List (List OperationBody)) :
    (segments.flatMap lastUpdates).Sublist (segments.flatten.filter (·.isUpdate)) := by
  induction segments with
  | nil => exact Sublist.refl _
  | cons segment segments ih =>
    rw [flatMap_cons, flatten_cons, filter_append]
    exact (lastUpdates_sublist segment).append ih

/-! ### The compacted log -/

section compacted
variable (config : Configuration) (others : UInt8 → Option Operator)
  (options : OperationOptions) (env : LogEnvironment)

/-- The segments of a log with fewer than `2 ^ 63` updates, whose other operations leave the
    counters alone. -/
structure CounterLog (segments : List (List OperationBody)) : Prop where
  small : segments.flatten.countP (·.isUpdate) < 2 ^ 63
  apart : ∀ segment ∈ segments, UpdatesApart env segment
  spared : ∀ operation ∈ segments.flatten, operation.isUpdate = false →
    Spares config others options
      (updatedHashes config.calculateHash segments.flatten) operation

variable {config others options env} {segments : List (List OperationBody)}

theorem CounterLog.replayable (h : CounterLog config others options env segments) :
    Replayable config others options
      (updatedHashes config.calculateHash segments.flatten) segments.flatten := by
  refine ⟨?_, h.spared⟩
  intro operation hop hupdate
  obtain ⟨segment, hsegment, hmem⟩ := mem_flatten.mp hop
  obtain ⟨key, hkey⟩ :=
    isSome_iff_exists.mp ((h.apart segment hsegment).keyed operation hmem)
  exact ⟨key, hkey, mem_updatedHashes hop hupdate hkey⟩

/-- Compaction adds no updates. -/
theorem countP_compacted_le {compacted : List (List OperationBody)}
    (hperm : (compacted.flatten.filter (·.isUpdate)).Perm (segments.flatMap lastUpdates)) :
    compacted.flatten.countP (·.isUpdate) ≤ segments.flatten.countP (·.isUpdate) := by
  rw [countP_eq_length_filter, countP_eq_length_filter, hperm.length_eq]
  exact (flatMap_lastUpdates_sublist segments).length_le

/-- Where the log counts nothing, its last updates count nothing either. -/
theorem tally_lastUpdates_of_not_mem {calculateHash : SimpleString → UInt32} {h : UInt32}
    (hnot : h ∉ updatedHashes calculateHash segments.flatten) :
    tally calculateHash (segments.flatMap lastUpdates) h =
      tally calculateHash segments.flatten h := by
  have hlast : h ∉ updatedHashes calculateHash (segments.flatMap lastUpdates) := by
    intro ⟨operation, hop, hupdate, hkey⟩
    have hop := (flatMap_lastUpdates_sublist segments).subset hop
    exact hnot ⟨operation, mem_of_mem_filter hop, hupdate, hkey⟩
  funext isIncrement
  rw [tally_eq_zero hnot, tally_eq_zero hlast]

end compacted

/-- A log is executed whole, compacted or not, from an empty store. Every key of an update then has
    the same count after both exactly where, under each hash, the last updates of the segments on
    their strings amount to what all updates do. -/
theorem replay_compacted_iff (config : Configuration) (others : UInt8 → Option Operator)
    (nNodes : UInt32) (env : LogEnvironment) (saveInOperationLog : Bool)
    (partitionId : UInt32) (segments : List (List OperationBody)) (node : Node)
    (hcounter : others UPDATE_COUNTER =
      some (UpdateCounterOperator config nNodes))
    (hnodes : 0 < nNodes.toNat)
    (hlog : CounterLog config others (applyOplogOptions saveInOperationLog partitionId)
      env segments)
    (hempty : ∃ m, node.memDbStores partitionId = some m ∧ m.WellFormed ∧ ∀ h, m.view h = none) :
    ∃ compacted uncompactedNode compactedNode,
      segments.mapM (compactSegment env) = some compacted ∧
      operatorsDispatcher config others (applyOplogOptions saveInOperationLog partitionId)
        segments.flatten node = some uncompactedNode ∧
      operatorsDispatcher config others (applyOplogOptions saveInOperationLog partitionId)
        compacted.flatten node = some compactedNode ∧
      ((∀ operation ∈ segments.flatten, operation.isUpdate = true → ∀ key,
          operation.keyArg = some key →
          uncompactedNode.count config partitionId key =
            compactedNode.count config partitionId key) ↔
        ∀ h, shownCount (tally config.calculateHash segments.flatten h) =
          shownCount (tally config.calculateHash (segments.flatMap lastUpdates) h)) := by
  obtain ⟨m, hm, hwf, hview⟩ := hempty
  obtain ⟨compacted, hcompacted, hsubset, hperm⟩ := compactSegments_spec env hlog.apart
  have hstart : m.Counts config (updatedHashes config.calculateHash segments.flatten) [] := by
    intro h _
    rw [hview]
    exact .absent fun _ => rfl
  have hsmall := Nat.lt_of_le_of_lt (countP_compacted_le hperm) hlog.small
  obtain ⟨uncompactedNode, m₁, hrun₁, hm₁, hwf₁, hcounts₁⟩ :=
    replay_counts hcounter hnodes hlog.replayable hm hwf hstart hlog.small
  obtain ⟨compactedNode, m₂, hrun₂, hm₂, hwf₂, hcounts₂⟩ :=
    replay_counts hcounter hnodes (hlog.replayable.mono hsubset) hm hwf hstart hsmall
  refine ⟨compacted, uncompactedNode, compactedNode, hcompacted, hrun₁, hrun₂, ?_⟩
  -- both counts are those of the updates that have been executed
  have hcount₁ :
      ∀ key, config.calculateHash key ∈ updatedHashes config.calculateHash segments.flatten →
      (uncompactedNode.count config partitionId key).map Int64.toInt =
        shownCount (tally config.calculateHash segments.flatten (config.calculateHash key)) :=
    fun key => hcounts₁.count hwf₁ hlog.small hm₁
  have hcount₂ :
      ∀ key, config.calculateHash key ∈ updatedHashes config.calculateHash segments.flatten →
      (compactedNode.count config partitionId key).map Int64.toInt =
        shownCount (tally config.calculateHash (segments.flatMap lastUpdates)
          (config.calculateHash key)) := by
    rw [← tally_of_perm hperm]
    exact fun key => hcounts₂.count hwf₂ hsmall hm₂
  constructor
  · intro hsame h
    by_cases hh : h ∈ updatedHashes config.calculateHash segments.flatten
    · obtain ⟨operation, hop, hupdate, hkeyHash⟩ := hh
      obtain ⟨key, hkey, rfl⟩ := map_eq_some_iff.mp hkeyHash
      have hmem : config.calculateHash key ∈ updatedHashes config.calculateHash segments.flatten :=
        mem_updatedHashes hop hupdate hkey
      rw [← hcount₁ key hmem, ← hcount₂ key hmem, hsame operation hop hupdate key hkey]
    · rw [tally_lastUpdates_of_not_mem hh]
  · intro hcounts operation hop hupdate key hkey
    have hmem : config.calculateHash key ∈ updatedHashes config.calculateHash segments.flatten :=
      mem_updatedHashes hop hupdate hkey
    apply map_injective fun a b => Int64.toInt_inj.mp
    rw [hcount₁ key hmem, hcount₂ key hmem, hcounts]

/-- The increment of a user, as it is logged. -/
def incrementOf (key : SimpleString) : OperationBody :=
  (userRequest UPDATE_COUNTER [key]).operation

/-- Increments of `a` in two segments, with one of `b` and a `SET` beside them. -/
def twoSegments : List (List OperationBody) :=
  [[incrementOf [97], setOfA 5, incrementOf [98]], [incrementOf [97]]]

theorem counterLog_twoSegments : CounterLog firstNode (serverOperators firstNode 1)
    (applyOplogOptions false 0) plainEnvironment twoSegments := by
  constructor
  · decide
  · intro segment hsegment
    rcases mem_pair.mp hsegment with rfl | rfl
    · constructor <;> decide
    · constructor <;> decide
  · have hset : ∀ operation ∈ twoSegments.flatten, operation.isUpdate = false →
        operation = setOfA 5 := by
      decide
    have hhash : ∀ operation ∈ twoSegments.flatten, operation.isUpdate = true →
        operation.keyArg.map firstNode.calculateHash ≠ some (firstNode.calculateHash [65]) := by
      decide
    intro operation hop hother
    rw [hset operation hop hother]
    apply spares_set firstNode _ _ ⟨rfl, [], rfl⟩ rfl
    intro ⟨update, hmem, hupdate, hkey⟩
    exact hhash update hmem hupdate hkey

/-- In each of the two segments every key has one update. -/
theorem replay_compacted_twoSegments :
    ∃ compacted uncompactedNode compactedNode,
      twoSegments.mapM (compactSegment plainEnvironment) = some compacted ∧
      operatorsDispatcher firstNode (serverOperators firstNode 1) (applyOplogOptions false 0)
        twoSegments.flatten (emptyNode .RUNNING 1) = some uncompactedNode ∧
      operatorsDispatcher firstNode (serverOperators firstNode 1) (applyOplogOptions false 0)
        compacted.flatten (emptyNode .RUNNING 1) = some compactedNode ∧
      ∀ operation ∈ twoSegments.flatten, operation.isUpdate = true → ∀ key,
        operation.keyArg = some key →
        uncompactedNode.count firstNode 0 key = compactedNode.count firstNode 0 key := by
  obtain ⟨compacted, uncompactedNode, compactedNode, hcompacted, hrun, hrun', hiff⟩ :=
    replay_compacted_iff firstNode (serverOperators firstNode 1) 1 plainEnvironment false 0
      twoSegments (emptyNode .RUNNING 1) rfl (by decide) counterLog_twoSegments
      ⟨Map.new 1 (by decide), rfl, Map.wellFormed_new 1 (by decide), Map.view_new 1 _⟩
  refine ⟨compacted, uncompactedNode, compactedNode, hcompacted, hrun, hrun', hiff.mpr ?_⟩
  intro h
  have hall : twoSegments.flatten.filter (·.isUpdate) = twoSegments.flatMap lastUpdates := by decide
  rw [tally_of_perm (Perm.of_eq hall)]

/-- Two increments of one key, logged one after another by the dispatcher, are one after
    compaction. -/
theorem compaction_loses_increment :
    ((Run.run (serveStep firstNode 1) [.received (userRequest UPDATE_COUNTER [[97]]),
        .received (userRequest UPDATE_COUNTER [[97]])] emptyServer).map fun state =>
          state.node.operationLog) = some [(0, incrementOf [97]), (0, incrementOf [97])] ∧
    ∃ compacted uncompactedNode compactedNode,
      [[incrementOf [97], incrementOf [97]]].mapM (compactSegment plainEnvironment) =
        some compacted ∧
      operatorsDispatcher firstNode (serverOperators firstNode 1) (applyOplogOptions false 0)
        [incrementOf [97], incrementOf [97]] (emptyNode .RUNNING 1) = some uncompactedNode ∧
      operatorsDispatcher firstNode (serverOperators firstNode 1) (applyOplogOptions false 0)
        compacted.flatten (emptyNode .RUNNING 1) = some compactedNode ∧
      uncompactedNode.count firstNode 0 [97] = some 2 ∧
      compactedNode.count firstNode 0 [97] = some 1 := by
  simp only [exists_and_left]
  decide +kernel

end MemDb

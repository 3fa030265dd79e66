import MemDb.Operators.Sets
import MemDb.Db.Convergence

/-! # Operations executed one after another

    A node executes lists of operations that it did not get as requests: those of an operation log
    that it restores, and those of a partition that it takes over. Each operation goes to its
    operator with the same options. The timestamps are checked, so that a `SET` is stored under the
    timestamp that it brings along.
-/

namespace MemDb

open Option OperatorNumbers List ErrorCode

section replay
variable (config : Configuration) (others : UInt8 → Option Operator)

/-- `operatorsDispatcher`; the operator of an unknown number is a null pointer. -/
def operatorsDispatcher (options : OperationOptions) : List OperationBody → Node → Option Node
  | [], node => some node
  | operation :: operations, node => do
    let operatorToExecute ← operatorRegistry config others operation.operatorNumber
    let (node, _) ← executeOperation config operatorToExecute operation options node
    operatorsDispatcher options operations node

theorem operatorsDispatcher_append (options : OperationOptions) (first second : List OperationBody)
    (node : Node) :
    operatorsDispatcher config others options (first ++ second) node =
      (operatorsDispatcher config others options first node).bind
        (operatorsDispatcher config others options second) := by
  induction first generalizing node with
  | nil => rfl
  | cons operation first ih =>
    simp only [cons_append, operatorsDispatcher, bind_eq_bind, bind_assoc]
    congr 1
    funext operator
    congr 1
    funext result
    exact ih result.1

end replay

/-! ### `SET` -/

/-- `SET key value`; further arguments are ignored. -/
def OperationBody.IsSet (operation : OperationBody) (key value : SimpleString) : Prop :=
  operation.operatorNumber = SET ∧
    ∃ rest, operation.args = some (key :: value :: rest)

/-- The timestamp that an operation brings along. -/
def OperationBody.stamp (operation : OperationBody) : LamportClock :=
  ⟨operation.nodeId, operation.timestamp⟩

section set
variable (config : Configuration) (others : UInt8 → Option Operator)
  {operation : OperationBody} (options : OperationOptions) {node : Node} {m : Map}
  {key value : SimpleString}

theorem operatorRegistry_set (hset : operation.operatorNumber = SET) :
    operatorRegistry config others operation.operatorNumber = some (SetOperator config) := by
  rw [operatorRegistry, if_pos hset]

theorem operatorRegistry_del (hdel : operation.operatorNumber = DEL) :
    operatorRegistry config others operation.operatorNumber =
      some (DeleteOperator config) := by
  rw [operatorRegistry, if_neg (by rw [hdel]; decide), if_pos hdel]

/-- An operation with a key is executed by its operator, and the others follow. -/
theorem operatorsDispatcher_cons {operator : Operator} {edited : Node} {response : Response}
    (hregistry : operatorRegistry config others operation.operatorNumber = some operator)
    (hkey : operation.getArg 0 = some key)
    (hoperate : operator.operate operation options node = some (edited, response))
    (operations : List OperationBody) :
    ∃ node', operatorsDispatcher config others options (operation :: operations) node =
        operatorsDispatcher config others options operations node' ∧
      node'.nodeState = edited.nodeState ∧
      node'.delayedOperationsBuffer = edited.delayedOperationsBuffer ∧
      node'.memDbStores = edited.memDbStores ∧ node'.clock = edited.clock := by
  obtain ⟨node', hexecute, hkeeps⟩ := executeOperation_returns config hkey hoperate
  refine ⟨node', ?_, hkeeps⟩
  rw [operatorsDispatcher, hregistry, bind_eq_bind, bind_some, hexecute]
  rfl

/-- With checked timestamps an operation keeps the one that it brings along. -/
theorem getTimestamp_checked (hcheck : options.checkTimestamps = true) :
    getTimestamp config operation options = operation.stamp := by
  simp [getTimestamp, OperationOptions.fromClient, hcheck, OperationBody.stamp]

theorem OperationBody.IsSet.getArg (h : operation.IsSet key value) :
    operation.getArg 0 = some key ∧ operation.getArg 1 = some value := by
  obtain ⟨-, rest, hargs⟩ := h
  simp [OperationBody.getArg, hargs]

variable {clock : LamportClock} {m' : Map} {result : Option DbEditResult}

/-- What the operator of `SET` returns once `putData` has returned. -/
theorem operate_set (hset : operation.IsSet key value)
    (hm : node.memDbStores options.partitionId = some m)
    (hput : m.putData config.calculateHash key value (getTimestamp config operation options)
      options.updateClockStrategy node.clock options.checkTimestamps = some (m', clock, result)) :
    (SetOperator config).operate operation options node =
      some (node.setStore options.partitionId m' clock,
        Response.ofEdit result ALREADY_REPLICATED) := by
  simp [SetOperator, hm, hset.getArg, hput]

/-- What the operator of `DEL` returns once `remove` has returned. -/
theorem operate_del (hkey : operation.getArg 0 = some key)
    (hm : node.memDbStores options.partitionId = some m)
    (hremove : m.remove config.calculateHash key (getTimestamp config operation options)
      options.updateClockStrategy node.clock options.checkTimestamps = some (m', clock, result)) :
    (DeleteOperator config).operate operation options node =
      some (node.setStore options.partitionId m' clock,
        Response.ofEdit result UNKNOWN_KEY) := by
  simp [DeleteOperator, hm, hkey, hremove]

section
variable (hset : operation.IsSet key value) (hcheck : options.checkTimestamps = true)
  (hm : node.memDbStores options.partitionId = some m)
  (hput : m.putData config.calculateHash key value operation.stamp options.updateClockStrategy
    node.clock true = some (m', clock, result))
include hset hcheck hm hput

/-- A `SET` with checked timestamps is `putData` with the timestamp of the operation. -/
theorem operate_set_checked :
    operation.getArg 0 = some key ∧ (SetOperator config).operate operation options node =
      some (node.setStore options.partitionId m' clock,
        Response.ofEdit result ALREADY_REPLICATED) := by
  refine ⟨hset.getArg.1, operate_set config options hset hm ?_⟩
  rw [getTimestamp_checked config options hcheck, hcheck]
  exact hput

theorem operatorsDispatcher_set (operations : List OperationBody) :
    ∃ node', operatorsDispatcher config others options (operation :: operations) node =
        operatorsDispatcher config others options operations node' ∧
      node'.nodeState = node.nodeState ∧
      node'.delayedOperationsBuffer = node.delayedOperationsBuffer ∧
      node'.memDbStores = (node.setStore options.partitionId m' clock).memDbStores ∧
      node'.clock = clock := by
  obtain ⟨hkey, hoperate⟩ := operate_set_checked config options hset hcheck hm hput
  exact operatorsDispatcher_cons config others options
    (operatorRegistry_set config others hset.1) hkey hoperate operations

end

/-- A `SET` that has been executed had a key and a value. -/
theorem args_of_operatorsDispatcher_set (hset : operation.operatorNumber = SET)
    {operations : List OperationBody} {node' : Node}
    (h : operatorsDispatcher config others options (operation :: operations) node =
      some node') : ∃ key value rest, operation.args = some (key :: value :: rest) := by
  rw [operatorsDispatcher, operatorRegistry_set config others hset, bind_eq_bind,
    bind_some] at h
  obtain ⟨result, hexecute, -⟩ := bind_eq_some_iff.mp h
  rw [executeOperation_eq] at hexecute
  obtain ⟨edited, hoperate, -⟩ := bind_eq_some_iff.mp hexecute
  simp only [SetOperator, bind_eq_bind, bind_eq_some_iff] at hoperate
  obtain ⟨-, -, key, hkey, value, hvalue, -⟩ := hoperate
  obtain ⟨args, hargs, hfirst⟩ := bind_eq_some_iff.mp hkey
  rw [OperationBody.getArg, hargs, bind_some] at hvalue
  cases args with
  | nil => cases hfirst
  | cons key args =>
    cases args with
    | nil => cases hvalue
    | cons value rest => exact ⟨key, value, rest, hargs⟩

end set

/-! ### Operations on keys -/

/-- `DEL key`; further arguments are ignored. -/
def OperationBody.IsDel (operation : OperationBody) (key : SimpleString) : Prop :=
  operation.operatorNumber = DEL ∧ ∃ rest, operation.args = some (key :: rest)

theorem OperationBody.IsDel.getArg {operation : OperationBody} {key : SimpleString}
    (h : operation.IsDel key) : operation.getArg 0 = some key := by
  obtain ⟨-, rest, hargs⟩ := h
  simp [OperationBody.getArg, hargs]

/-- The operation on a key that an operation of the log stands for, if it is a `SET` or a `DEL`. -/
def OperationBody.edit (operation : OperationBody) : Option (SimpleString × KeyOperation) :=
  (operation.getArg 0).bind fun key =>
    if operation.operatorNumber = SET then
      (operation.getArg 1).map fun value => (key, .SET value operation.stamp)
    else if operation.operatorNumber = DEL then some (key, .DEL operation.stamp)
    else none

section edit
variable {operation : OperationBody} {key value : SimpleString}

theorem OperationBody.IsSet.edit (h : operation.IsSet key value) :
    operation.edit = some (key, .SET value operation.stamp) := by
  obtain ⟨hnumber, rest, hargs⟩ := h
  simp [OperationBody.edit, OperationBody.getArg, hnumber, hargs]

theorem OperationBody.IsDel.edit (h : operation.IsDel key) :
    operation.edit = some (key, .DEL operation.stamp) := by
  obtain ⟨hnumber, rest, hargs⟩ := h
  have hne : DEL ≠ SET := by decide
  simp [OperationBody.edit, OperationBody.getArg, hnumber, hargs, hne]

theorem OperationBody.edit_cases {edit : SimpleString × KeyOperation}
    (h : operation.edit = some edit) :
    (∃ key value, operation.IsSet key value ∧ edit = (key, .SET value operation.stamp)) ∨
      ∃ key, operation.IsDel key ∧ edit = (key, .DEL operation.stamp) := by
  obtain ⟨key, hkey, h⟩ := bind_eq_some_iff.mp h
  obtain ⟨args, hargs, hfirst⟩ := bind_eq_some_iff.mp hkey
  obtain ⟨rest, rfl⟩ : ∃ rest, args = key :: rest := by
    cases args with
    | nil => cases hfirst
    | cons first rest => exact ⟨rest, by rw [some.inj hfirst]⟩
  split at h
  · next hnumber =>
    left
    obtain ⟨value, hvalue, rfl⟩ := map_eq_some_iff.mp h
    rw [OperationBody.getArg, hargs, bind_some] at hvalue
    cases rest with
    | nil => cases hvalue
    | cons second rest =>
      obtain rfl := some.inj hvalue
      exact ⟨key, second, ⟨hnumber, rest, hargs⟩, rfl⟩
  · split at h
    · next hnumber =>
      right
      exact ⟨key, ⟨hnumber, rest, hargs⟩, (some.inj h).symm⟩
    · cases h

end edit

section edits
variable (config : Configuration) (others : UInt8 → Option Operator)
  {options : OperationOptions} (hcheck : options.checkTimestamps = true)
  (hstrategy : options.updateClockStrategy = .SET_MAX)
include hcheck hstrategy

theorem operatorsDispatcher_edit {operation : OperationBody} {edit : SimpleString × KeyOperation}
    (hedit : operation.edit = some edit) {node : Node} {m m' : Map} {clock : LamportClock}
    (hm : node.memDbStores options.partitionId = some m)
    (happly : edit.2.apply config.calculateHash edit.1 m node.clock = some (m', clock))
    (operations : List OperationBody) :
    ∃ node', operatorsDispatcher config others options (operation :: operations) node =
        operatorsDispatcher config others options operations node' ∧
      node'.nodeState = node.nodeState ∧
      node'.delayedOperationsBuffer = node.delayedOperationsBuffer ∧
      node'.memDbStores = (node.setStore options.partitionId m' clock).memDbStores ∧
      node'.clock = clock := by
  rcases OperationBody.edit_cases hedit with ⟨key, value, hset, rfl⟩ | ⟨key, hdel, rfl⟩
  · obtain ⟨⟨store, clock', result⟩, hput, hresult⟩ := map_eq_some_iff.mp happly
    cases hresult
    exact operatorsDispatcher_set config others options hset hcheck hm
      (hstrategy ▸ hput) operations
  · obtain ⟨⟨store, clock', result⟩, hremove, hresult⟩ := map_eq_some_iff.mp happly
    cases hresult
    have hoperate : (DeleteOperator config).operate operation options node =
        some (node.setStore options.partitionId store clock',
          Response.ofEdit result UNKNOWN_KEY) := by
      apply operate_del config options hdel.getArg hm
      rw [getTimestamp_checked config options hcheck, hcheck, hstrategy]
      exact hremove
    exact operatorsDispatcher_cons config others options
      (operatorRegistry_del config others hdel.1) hdel.getArg hoperate operations

/-- Operations of the log act on the store of their partition as the operations on keys do. -/
theorem operatorsDispatcher_edits {operations : List OperationBody}
    (hedits : ∀ operation ∈ operations, operation.edit.isSome) {node : Node} {m m' : Map}
    {clock : LamportClock} (hm : node.memDbStores options.partitionId = some m)
    (happly : KeyOperation.applyAll config.calculateHash
      (operations.filterMap OperationBody.edit) m node.clock = some (m', clock)) :
    ∃ node', operatorsDispatcher config others options operations node = some node' ∧
      node'.nodeState = node.nodeState ∧
      node'.delayedOperationsBuffer = node.delayedOperationsBuffer ∧
      node'.memDbStores options.partitionId = some m' := by
  induction operations generalizing node m with
  | nil =>
    cases happly
    exact ⟨node, rfl, rfl, rfl, hm⟩
  | cons operation operations ih =>
    obtain ⟨edit, hedit⟩ := isSome_iff_exists.mp (hedits operation mem_cons_self)
    rw [filterMap_cons, hedit] at happly
    obtain ⟨⟨m₁, clock₁⟩, hfirst, hrest⟩ := bind_eq_some_iff.mp happly
    obtain ⟨node₁, hexecute, hstate, hbuffer, hstores, hclock⟩ := operatorsDispatcher_edit config
      others hcheck hstrategy hedit hm hfirst operations
    have hm₁ : node₁.memDbStores options.partitionId = some m₁ := by
      rw [hstores]
      exact if_pos rfl
    obtain ⟨node', hothers, hstate', hbuffer', hm'⟩ := ih
      (fun o ho => hedits o (mem_cons_of_mem _ ho)) hm₁ (by rw [hclock]; exact hrest)
    exact ⟨node', hexecute.trans hothers, hstate'.trans hstate, hbuffer'.trans hbuffer, hm'⟩

end edits

/-! ### Writes that are all accepted -/

namespace View

variable (calculateHash : SimpleString → UInt32)

/-- Accepted writes, one after another. -/
def putAll (V : View) (writes : List (SimpleString × DataAVLNode)) : View :=
  writes.foldl (fun V write => V.put write.1 (calculateHash write.1) write.2) V

/-- What is known of an entry that writes have left: its key is that of the first of them with this
    hash, its data that of the last. -/
structure WrittenBy (writes : List (SimpleString × DataAVLNode)) (h : UInt32) (entry : MapEntry) :
    Prop where
  keyHash : entry.keyHash = h
  type : entry.type = .DATA
  key : ∃ write ∈ writes, write.1 = entry.key ∧ calculateHash write.1 = h
  data : ∃ write ∈ writes, calculateHash write.1 = h ∧ entry.data = .data write.2

variable {calculateHash} {V : View} {all : List (SimpleString × DataAVLNode)}

theorem WrittenBy.put (hV : ∀ h entry, V h = some entry → WrittenBy calculateHash all h entry)
    {write : SimpleString × DataAVLNode} (hwrite : write ∈ all) :
    ∀ h entry, V.put write.1 (calculateHash write.1) write.2 h = some entry →
      WrittenBy calculateHash all h entry := by
  intro h entry hentry
  by_cases hh : h = calculateHash write.1
  · subst hh
    rw [put_self] at hentry
    cases hentry
    unfold written
    cases hold : V (calculateHash write.1) with
    | none => exact ⟨rfl, rfl, ⟨write, hwrite, rfl, rfl⟩, ⟨write, hwrite, rfl, rfl⟩⟩
    | some old =>
      -- the entry keeps the key that it has
      obtain ⟨hkeyHash, htype, hkey, -⟩ := hV _ old hold
      exact ⟨hkeyHash, htype, hkey, ⟨write, hwrite, rfl, rfl⟩⟩
  · rw [put_ne _ _ hh] at hentry
    exact hV h entry hentry

theorem putAll_writtenBy {writes : List (SimpleString × DataAVLNode)} (hwrites : writes ⊆ all)
    (hV : ∀ h entry, V h = some entry → WrittenBy calculateHash all h entry) :
    ∀ h entry, V.putAll calculateHash writes h = some entry →
      WrittenBy calculateHash all h entry := by
  induction writes generalizing V with
  | nil => exact hV
  | cons write writes ih =>
    obtain ⟨hwrite, hrest⟩ := cons_subset.mp hwrites
    exact ih hrest (WrittenBy.put hV hwrite)

theorem put_isSome {key : SimpleString} {h h' : UInt32} {d : DataAVLNode} (hV : (V h').isSome) :
    (V.put key h d h').isSome := by
  by_cases hh : h' = h
  · subst hh
    rw [put_self]
    rfl
  · rwa [put_ne _ _ hh]

theorem putAll_isSome {writes : List (SimpleString × DataAVLNode)} {h : UInt32}
    (hh : (V h).isSome ∨ ∃ write ∈ writes, calculateHash write.1 = h) :
    (V.putAll calculateHash writes h).isSome := by
  induction writes generalizing V with
  | nil =>
    obtain hV | ⟨write, hwrite, -⟩ := hh
    · exact hV
    · cases hwrite
  | cons first writes ih =>
    apply ih
    obtain hV | ⟨write, hwrite, hhash⟩ := hh
    · exact .inl (put_isSome hV)
    · obtain rfl | hrest := mem_cons.mp hwrite
      · left
        rw [← hhash]
        show (V.put write.1 (calculateHash write.1) write.2 (calculateHash write.1)).isSome = true
        rw [put_self]
        rfl
      · exact .inr ⟨write, hrest, hhash⟩

end View

end MemDb

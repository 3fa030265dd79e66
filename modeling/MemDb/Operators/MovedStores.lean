import MemDb.Operators.MoveOplog
import MemDb.Lib.Run

/-! # The stores of a node that partitions are handed to

    A node starts with a store for each of its partitions, and no function adds one later. A
    `MOVE_OPLOG` that clears its old partition erases the store, whether the node goes on holding a
    partition under that number or not; what the next message of the same hand-over brings for it
    then has no store to go to.
-/

namespace MemDb

open Lib.Run Option UInt32

/-- No store of the partitions that a node holds is missing. -/
def Node.HasStores (node : Node) (nodesPerPartition : UInt32) : Prop :=
  ∀ p < nodesPerPartition, (node.memDbStores p).isSome = true

/-- The operator erases no store. -/
def Operator.ErasesNothing (operator : Operator) : Prop :=
  ∀ operation options node node' response,
    operator.operate operation options node = some (node', response) →
      ∀ p, (node.memDbStores p).isSome = true → (node'.memDbStores p).isSome = true

/-- The partition that a `MOVE_OPLOG` executes its operations on. -/
def appliedPartition (nodesPerPartition : UInt32) (operation : OperationBody) : Option UInt32 := do
  let newOplogId ← toNumber 4 (← operation.getArg 0)
  if nodesPerPartition.toNat ≤ newOplogId then none else some (UInt32.ofNat newOplogId)

/-- The partition that a `MOVE_OPLOG` clears. A new partition that the node does not hold stands for
    the flag. -/
def clearedPartition (nodesPerPartition : UInt32) (operation : OperationBody) : Option UInt32 := do
  let newOplogId ← toNumber 4 (← operation.getArg 0)
  let oldOplogId ← toNumber 4 (← operation.getArg 1)
  if nodesPerPartition.toNat ≤ newOplogId ∨ operation.flag2 then some (UInt32.ofNat oldOplogId)
  else none

section stores
variable (config : Configuration) (others : UInt8 → Option Operator)
  (nodesPerPartition numberOplogs : UInt32) (options : OperationOptions)

/-- The node after it has executed a `MOVE_OPLOG`. -/
def receiveMoveOplog (operation : OperationBody) (node : Node) : Option Node :=
  ((MovePartitionOplogOperator config others nodesPerPartition numberOplogs).operate operation
    options node).map (·.1)

/-- After each of the operations that is executed the node has all its stores, and the next one
    finds the store of its partition. -/
def StoresStay (operations : List OperationBody) (node : Node) : Prop :=
  ∀ done rest reached, operations = done ++ rest →
    run (receiveMoveOplog config others nodesPerPartition numberOplogs options) done node =
      some reached →
    reached.HasStores nodesPerPartition ∧
      ∀ operation ∈ rest.head?, ∀ p ∈ appliedPartition nodesPerPartition operation,
        (reached.memDbStores p).isSome = true

variable {config others nodesPerPartition numberOplogs options} {node node' : Node}
  {operation : OperationBody} {p : UInt32}

theorem isSome_setStore (partitionId : UInt32) (store : Map) (clock : LamportClock)
    (hp : (node.memDbStores p).isSome = true) :
    ((node.setStore partitionId store clock).memDbStores p).isSome = true := by
  unfold Node.setStore
  by_cases hpartition : p = partitionId <;> simp [hpartition, hp]

theorem erasesNothing_set : (SetOperator config).ErasesNothing := by
  intro operation options node node' response h p hp
  simp only [SetOperator, bind_eq_bind, bind_eq_some_iff, pure_def,
    some.injEq, Prod.mk.injEq] at h
  obtain ⟨-, -, -, -, -, -, ⟨store, clock, result⟩, -, rfl, -⟩ := h
  exact isSome_setStore _ store clock hp

theorem erasesNothing_delete : (DeleteOperator config).ErasesNothing := by
  intro operation options node node' response h p hp
  simp only [DeleteOperator, bind_eq_bind, bind_eq_some_iff, pure_def,
    some.injEq, Prod.mk.injEq] at h
  obtain ⟨-, -, -, -, ⟨store, clock, result⟩, -, rfl, -⟩ := h
  exact isSome_setStore _ store clock hp

section
variable (hothers : ∀ number operator, others number = some operator → operator.ErasesNothing)
include hothers

theorem erasesNothing_registry {number : UInt8} {operator : Operator}
    (h : operatorRegistry config others number = some operator) : operator.ErasesNothing := by
  unfold operatorRegistry at h
  split at h
  · cases h
    exact erasesNothing_set
  · split at h
    · cases h
      exact erasesNothing_delete
    · exact hothers number operator h

theorem operatorsDispatcher_isSome {operations : List OperationBody}
    (h : operatorsDispatcher config others options operations node = some node')
    (hp : (node.memDbStores p).isSome = true) : (node'.memDbStores p).isSome = true := by
  induction operations generalizing node with
  | nil =>
    cases h
    exact hp
  | cons operation operations ih =>
    obtain ⟨operator, hoperator, h⟩ := bind_eq_some_iff.mp h
    obtain ⟨⟨edited, response⟩, hexecute, h⟩ := bind_eq_some_iff.mp h
    rw [executeOperation_eq] at hexecute
    obtain ⟨⟨operated, result⟩, hoperate, hafter⟩ := bind_eq_some_iff.mp hexecute
    obtain ⟨-, -, -, hstores, -⟩ := persistAndBroadcast_keeps config hafter
    apply ih h
    rw [hstores]
    exact erasesNothing_registry hothers hoperator _ _ _ _ _ hoperate p hp

omit hothers in
/-- `hasOplogFile` is never true, so that the operations are executed whatever the flag says. -/
theorem executed_of_moveOplog {applyNewOplog clearOldOplog : Bool} {newOplogId oldOplogId : UInt32}
    {oplog : List OperationBody} {response : Response}
    (h : moveOplog config others numberOplogs applyNewOplog clearOldOplog newOplogId oldOplogId
      oplog node = some (node', response)) :
    ∃ executed, operatorsDispatcher config others (moveOplogOptions newOplogId) oplog node =
        some executed ∧ node' = finishMove clearOldOplog newOplogId oldOplogId oplog executed := by
  unfold moveOplog hasOplogFile at h
  have hmove : (operatorsDispatcher config others (moveOplogOptions newOplogId) oplog node).bind
      (fun executed => some (finishMove clearOldOplog newOplogId oldOplogId oplog executed,
        Response.success)) = some (node', response) := by
    cases applyNewOplog with
    | true => exact h
    | false =>
      by_cases hbeyond : numberOplogs < newOplogId
      · simp [hbeyond] at h
      · simpa [hbeyond] using h
  obtain ⟨executed, hexecuted, hfinish⟩ := bind_eq_some_iff.mp hmove
  exact ⟨executed, hexecuted, (Prod.mk.inj (some.inj hfinish)).1.symm⟩

/-- What a `MOVE_OPLOG` does to the stores: the one of the partition that it clears is gone, unless
    it is partition 0, and every other one stays. -/
theorem receiveMoveOplog_spec
    (h : receiveMoveOplog config others nodesPerPartition numberOplogs options operation node =
      some node') :
    (p ∈ clearedPartition nodesPerPartition operation → 0 < p → node'.memDbStores p = none) ∧
    ((node.memDbStores p).isSome = true →
      (p ∈ clearedPartition nodesPerPartition operation → p = 0) →
      (node'.memDbStores p).isSome = true) := by
  obtain ⟨⟨after, response⟩, hoperate, rfl⟩ := map_eq_some_iff.mp h
  simp only [MovePartitionOplogOperator, bind_eq_bind, bind_eq_some_iff] at hoperate
  obtain ⟨first, hfirst, newOplogId, hnew, second, hsecond, oldOplogId, hold, hmove⟩ := hoperate
  have hcleared : clearedPartition nodesPerPartition operation =
      if nodesPerPartition.toNat ≤ newOplogId ∨ operation.flag2 then some (UInt32.ofNat oldOplogId)
      else none := by
    simp [clearedPartition, hfirst, hnew, hsecond, hold]
  -- clearing a partition, whatever came before
  have hclear : ∀ middle : Node,
      (p = UInt32.ofNat oldOplogId → 0 < p →
        (clearOperationLog (UInt32.ofNat oldOplogId) middle).memDbStores p = none) ∧
      ((middle.memDbStores p).isSome = true → (p = UInt32.ofNat oldOplogId → p = 0) →
        ((clearOperationLog (UInt32.ofNat oldOplogId) middle).memDbStores p).isSome = true) := by
    intro middle
    unfold clearOperationLog
    constructor
    · rintro rfl hpos
      simp [hpos]
    · intro hp hzero
      split
      · next hpos =>
        by_cases heq : p = UInt32.ofNat oldOplogId
        · rw [← heq, hzero heq] at hpos
          exact absurd hpos (by decide)
        · simp [heq, hp]
      · exact hp
  split at hmove
  · next hbeyond =>
    cases hmove
    rw [hcleared, if_pos (.inl hbeyond)]
    simp only [mem_def, some.injEq]
    exact ⟨fun heq => (hclear node).1 heq.symm,
      fun hp hzero => (hclear node).2 hp fun heq => hzero heq.symm⟩
  · next hheld =>
    obtain ⟨_, -, hmove⟩ := bind_eq_some_iff.mp hmove
    obtain ⟨oplog, -, hmove⟩ := bind_eq_some_iff.mp hmove
    obtain ⟨executed, hexecuted, rfl⟩ := executed_of_moveOplog hmove
    have hkept := fun hp => operatorsDispatcher_isSome (p := p) hothers hexecuted hp
    rw [hcleared]
    cases hflag : operation.flag2 with
    | true =>
      have hclear := hclear executed
      simp only [or_true, if_true, mem_def, some.injEq, finishMove]
      exact ⟨fun heq => hclear.1 heq.symm, fun hp hzero => hclear.2 (hkept hp) fun heq =>
        hzero heq.symm⟩
    | false => simpa [hheld, finishMove] using hkept

/-- A node keeps a store for each of its partitions if and only if no `MOVE_OPLOG` that it executes
    clears one of them; partition 0 is never cleared. -/
theorem storesStay_iff (hnode : node.HasStores nodesPerPartition)
    (operations : List OperationBody) :
    StoresStay config others nodesPerPartition numberOplogs options operations node ↔
      ∀ done operation rest reached, operations = done ++ operation :: rest →
        run (receiveMoveOplog config others nodesPerPartition numberOplogs options)
          (done ++ [operation]) node = some reached →
        ∀ p ∈ clearedPartition nodesPerPartition operation, 0 < p → nodesPerPartition ≤ p := by
  constructor
  · intro hstay done operation rest reached hoperations hrun p hcleared hpos
    have hstores := (hstay (done ++ [operation]) rest reached (by simp [hoperations]) hrun).1
    rw [run_append] at hrun
    obtain ⟨middle, -, hlast⟩ := bind_eq_some_iff.mp hrun
    obtain ⟨next, hreceive, hnext⟩ := run_cons_eq_some.mp hlast
    cases hnext
    have hgone := (receiveMoveOplog_spec hothers hreceive).1 hcleared hpos
    by_contra hheld
    have hdefined := hstores p (UInt32.not_le.mp hheld)
    rw [hgone] at hdefined
    cases hdefined
  · intro hclears
    have hall : ∀ done rest reached, operations = done ++ rest →
        run (receiveMoveOplog config others nodesPerPartition numberOplogs options) done node =
          some reached → reached.HasStores nodesPerPartition := by
      intro done
      -- from the last operation backwards: each one starts from a node with all its stores
      induction done using List.reverseRecOn with
      | nil =>
        intro rest reached _ hrun
        cases hrun
        exact hnode
      | append_singleton done operation ih =>
        intro rest reached hoperations hrun p hp
        rw [List.append_assoc] at hoperations
        have hlast := hclears done operation rest reached hoperations hrun p
        rw [run_append] at hrun
        obtain ⟨middle, hmiddle, hrun⟩ := bind_eq_some_iff.mp hrun
        obtain ⟨next, hreceive, hnext⟩ := run_cons_eq_some.mp hrun
        cases hnext
        apply (receiveMoveOplog_spec hothers hreceive).2 (ih _ middle hoperations hmiddle p hp)
        intro hcleared
        by_contra hne
        have hpos : 0 < p := UInt32.pos_iff_ne_zero.mpr hne
        exact absurd (hlast hcleared hpos) (UInt32.not_le.mpr hp)
    intro done rest reached hoperations hrun
    have hstores := hall done rest reached hoperations hrun
    refine ⟨hstores, ?_⟩
    intro operation _ p hp
    apply hstores p
    simp only [appliedPartition, bind_eq_bind, mem_def, bind_eq_some_iff] at hp
    obtain ⟨_, -, newOplogId, -, hp⟩ := hp
    split at hp
    · cases hp
    · next hheld =>
      cases hp
      have hlt := nodesPerPartition.toNat_lt
      rw [lt_iff_toNat_lt, toNat_ofNat']
      omega

end

end stores

/-! ### A leaving node -/

/-- What `sendRestOplogsToNextNodes` sends, each with the place of its receiver among the neighbors
    clockwise: every bucket of every partition but the first goes to all the nodes that move up by
    it. -/
def sendRestOplogsToNextNodes (nodesPerPartition : Nat) (buckets : Nat → List (List MapEntry)) :
    List (Nat × CreateMoveOplogReqParams) :=
  (List.range' 1 (nodesPerPartition - 1)).flatMap fun actualOplogId =>
    ((buckets actualOplogId).filter fun actualOplog => !actualOplog.isEmpty).flatMap
      fun actualOplog =>
        (List.range (nodesPerPartition - actualOplogId)).map fun i =>
          let newOplogId := i + actualOplogId
          let oldOplog := newOplogId + 1
          let nodeAlreadyHoldsOplog := decide (oldOplog < nodesPerPartition)
          (i, ⟨actualOplog, !nodeAlreadyHoldsOplog, nodeAlreadyHoldsOplog, UInt32.ofNat oldOplog,
            UInt32.ofNat newOplogId⟩)

/-- What a node gets when node 1 leaves, with one entry in each of its partitions. -/
def movedByLeaving (nodesPerPartition place : Nat) : Option (List OperationBody) :=
  ((sendRestOplogsToNextNodes nodesPerPartition fun _ => [[stampedEntry 1]]).filter
    fun sent => sent.1 == place).mapM fun sent =>
      (MoveOpLogRequestCreator.create [110] 1 sent.2).map (·.operation)

/-- A node with an empty store for each of its partitions. -/
def nodeWithStores (nodesPerPartition : UInt32) : Node :=
  { emptyNode .RUNNING 2 with
    memDbStores :=
      fun p => if p < nodesPerPartition then (emptyNode .RUNNING 2).memDbStores 0 else none }

theorem hasStores_nodeWithStores (nodesPerPartition : UInt32) :
    (nodeWithStores nodesPerPartition).HasStores nodesPerPartition := by
  intro p hp
  simp [nodeWithStores, emptyNode, hp]

/-- With two nodes in a partition nothing is cleared, here by two nodes that leave in turn. -/
theorem storesStay_two : ∃ operations, movedByLeaving 2 0 = some operations ∧
    StoresStay firstNode (fun _ => none) 2 2 (moveOplogOptions 0) (operations ++ operations)
      (nodeWithStores 2) := by
  refine ⟨_, rfl, (storesStay_iff ?_ (hasStores_nodeWithStores 2) _).mpr ?_⟩
  · intro number operator h
    cases h
  · intro done operation rest reached hoperations _ p hp hpos
    have hmem : operation ∈ done ++ operation :: rest := by simp
    rw [← hoperations] at hmem
    obtain rfl := List.mem_singleton.mp (or_self_iff.mp (List.mem_append.mp hmem))
    cases hp

theorem not_storesStay_of_erased {first : OperationBody} (rest : List OperationBody) {p : UInt32}
    (hp : p < 3)
    (herased : (run (receiveMoveOplog firstNode (fun _ => none) 3 3 (moveOplogOptions 0))
      [first] (nodeWithStores 3)).any (fun reached => (reached.memDbStores p).isNone) = true) :
    ¬ StoresStay firstNode (fun _ => none) 3 3 (moveOplogOptions 0) (first :: rest)
      (nodeWithStores 3) := by
  intro hstay
  cases hrun : run (receiveMoveOplog firstNode (fun _ => none) 3 3 (moveOplogOptions 0)) [first]
      (nodeWithStores 3) with
  | none =>
    rw [hrun] at herased
    cases herased
  | some reached =>
    have hstore := (hstay [first] rest reached rfl hrun).1 p hp
    rw [hrun, any_some, isNone_iff_eq_none] at herased
    rw [herased] at hstore
    cases hstore

/-- With three nodes in a partition, the first message to the next node erases its store of
    partition 2, for which the second one brings operations. -/
theorem leaving_node_erases_store : ∃ operations, movedByLeaving 3 0 = some operations ∧
    operations.map (appliedPartition 3) = [some 1, some 2] ∧
    ¬ StoresStay firstNode (fun _ => none) 3 3 (moveOplogOptions 0) operations (nodeWithStores 3) ∧
    (run (receiveMoveOplog firstNode (fun _ => none) 3 3 (moveOplogOptions 0)) operations
      (nodeWithStores 3)).isNone = true := by
  refine ⟨_, rfl, by decide, not_storesStay_of_erased _ (p := 2) (by decide) (by decide +kernel),
    by decide +kernel⟩

end MemDb

import MemDb.Operators.KeyOperators

/-! # The store that an operator works on

    An operator works on one store when the stores of the other partitions could as well be missing:
    it gives the same response, and leaves them as they are. `Local` says so of any function on
    nodes, and is kept when such functions follow one another. Every operator on keys is local to
    the partition in its options, but for `CONTAINS`, which is local to the partition of its key.
-/

namespace MemDb

open Option Function

/-! ### Local functions -/

/-- The node with other stores. -/
def Node.withStores (node : Node) (stores : UInt32 → Option Map) : Node :=
  { node with memDbStores := stores }

/-- The node with the stores of all other partitions missing. -/
def Node.only (node : Node) (partitionId : UInt32) : Node :=
  node.withStores fun p => if p = partitionId then node.memDbStores p else none

/-- The node with the stores of all other partitions taken from another node. -/
def Node.withOthers (after node : Node) (partitionId : UInt32) : Node :=
  after.withStores fun p => if p = partitionId then after.memDbStores p else node.memDbStores p

/-- The function works on the store of the partition, and on no other: exchanging the others before
    or after it makes no difference. -/
def Local {α : Type} (partitionId : UInt32) (f : Node → Option (Node × α)) : Prop :=
  ∀ node other, f (node.withOthers other partitionId) = (f node).map fun result =>
    (result.1.withOthers other partitionId, result.2)

section nodes
variable {node other : Node} {partitionId : UInt32}

@[simp] theorem Node.withOthers_store :
    (node.withOthers other partitionId).memDbStores partitionId =
    node.memDbStores partitionId := if_pos rfl

@[simp] theorem Node.withOthers_clock : (node.withOthers other partitionId).clock = node.clock :=
    rfl

@[simp] theorem Node.withOthers_rounds :
    (node.withOthers other partitionId).paxosRoundsAcceptatorByKeyHash =
      node.paxosRoundsAcceptatorByKeyHash := rfl

@[simp] theorem Node.only_withOthers :
    (node.only partitionId).withOthers node partitionId = node := by
  have hstores : (fun p => if p = partitionId then (node.only partitionId).memDbStores p
      else node.memDbStores p) = node.memDbStores := by
    funext p
    by_cases hp : p = partitionId <;> simp [Node.only, Node.withStores, hp]
  rw [Node.withOthers, hstores]
  rfl

@[simp] theorem Node.withOthers_setStore (store : Map) (clock : LamportClock) :
    (node.withOthers other partitionId).setStore partitionId store clock =
      (node.setStore partitionId store clock).withOthers other partitionId := by
  show Node.withStores { node with clock := clock } _ =
    Node.withStores { node with clock := clock } _
  congr 1
  funext p
  by_cases hp : p = partitionId <;> simp [Node.setStore, Node.withOthers, Node.withStores, hp]

@[simp] theorem Node.withOthers_addToLog (id : UInt32) (operation : OperationBody) :
    (node.withOthers other partitionId).addToLog id operation =
      (node.addToLog id operation).withOthers other partitionId := rfl

end nodes

theorem Local.bind {α β : Type} {partitionId : UInt32} {f : Node → Option (Node × α)}
    {g : α → Node → Option (Node × β)} (hf : Local partitionId f)
    (hg : ∀ a, Local partitionId (g a)) :
    Local partitionId fun node => (f node).bind fun result => g result.2 result.1 := by
  intro node other
  dsimp only
  rw [hf, bind_map, map_bind]
  congr 1
  funext result
  exact hg result.2 result.1 other

/-! ### The operators -/

section operators
variable (config : Configuration) (nNodes : UInt32) (quorums : CasQuorums)
  (operation : OperationBody) (options : OperationOptions)

theorem local_set : Local options.partitionId ((SetOperator config).operate operation options) := by
  intro node other
  simp [SetOperator, map_bind]

theorem local_delete :
    Local options.partitionId ((DeleteOperator config).operate operation options) := by
  intro node other
  simp [DeleteOperator, map_bind]

theorem local_get : Local options.partitionId ((GetOperator config).operate operation options) := by
  intro node other
  simp [GetOperator, map_bind]

theorem local_contains {key : SimpleString} (hkey : operation.getArg 0 = some key) :
    Local (getPartitionIdByKey config key)
      ((ContainsOperator config).operate operation options) := by
  intro node other
  simp [ContainsOperator, hkey, map_bind]

theorem local_updateCounter : Local options.partitionId
    ((UpdateCounterOperator config nNodes).operate operation options) := by
  intro node other
  simp [UpdateCounterOperator, map_bind]

theorem local_replicateCounter : Local options.partitionId
    ((ReplicateCounterOperator config nNodes).operate operation options) := by
  intro node other
  simp [ReplicateCounterOperator, map_bind]

theorem local_prepareCas :
    Local options.partitionId ((PrepareCasOperator config).operate operation options) := by
  intro node other
  simp only [PrepareCasOperator, bind_eq_bind, map_bind, comp_def, Node.withOthers_store]
  congr! 9 with m _ key _ prevTimestamp _ nextTimestamp _ stored _
  cases stored with
  | none => rfl
  | some stored =>
    -- the promises are those of the node with its own stores
    dsimp only
    rw [Node.withOthers_rounds]
    split
    · rfl
    · split <;> rfl

theorem local_acceptCas :
    Local options.partitionId ((AcceptCasOperator config).operate operation options) := by
  intro node other
  simp only [AcceptCasOperator, bind_eq_bind, map_bind, comp_def, Node.withOthers_store]
  congr! 11 with m _ key _ value _ prevTimestamp _ nextTimestamp _ stored _
  cases stored with
  | none => rfl
  | some stored =>
    dsimp only
    rw [Node.withOthers_rounds]
    split
    · rfl
    · simp only [acceptCas, bind_eq_bind, map_bind, comp_def, Node.withOthers_clock,
        Node.withOthers_setStore]
      congr! 1 with ⟨store, clock, result⟩ _
      cases result with
      | none => rfl
      | some edit =>
        simp only [Node.updateAcceptedTimestamp, Node.withOthers_rounds]
        cases (node.setStore options.partitionId store clock).paxosRoundsAcceptatorByKeyHash
          (config.calculateHash key) <;> rfl

theorem local_saveToLocalDb (partitionId : UInt32) (key newValue : SimpleString)
    (nextTimestamp : LamportClock) :
    Local partitionId (saveToLocalDb config partitionId key newValue nextTimestamp) := by
  intro node other
  simp [saveToLocalDb, map_bind, apply_ite (Option.map _)]

/-- By induction on the passes of the loop. -/
theorem local_sendRetriesPrepares (partitionId : UInt32) (key expectedValue : SimpleString)
    (promises : List Bool) (nextTimestamp : LamportClock) :
    Local partitionId
      (sendRetriesPrepares config partitionId key expectedValue promises nextTimestamp) := by
  induction promises generalizing nextTimestamp with
  | nil =>
    intro node other
    rfl
  | cons quorum promises ih =>
    intro node other
    have hread : readExpectedAt config partitionId key expectedValue
        (node.withOthers other partitionId) =
          readExpectedAt config partitionId key expectedValue node := by
      simp [readExpectedAt]
    rw [sendRetriesPrepares, sendRetriesPrepares, hread]
    rcases readExpectedAt config partitionId key expectedValue node with _ | code | prevTimestamp
    · rfl
    · rfl
    · cases quorum with
      | true => rfl
      | false => exact ih _ (Node.send config node ..) other

theorem local_cas :
    Local options.partitionId ((CasOperator config quorums).operate operation options) := by
  intro node other
  simp only [CasOperator, bind_eq_bind, map_bind, Option.bind_map, comp_def,
    Node.withOthers_clock, local_sendRetriesPrepares config _ _ _ _ _ node other]
  congr! 7 with key _ expectedValue _ newValue _ ⟨sent, resultPrepare⟩ _
  cases resultPrepare with
  | error code => rfl
  | ok timestamps =>
    dsimp only
    split
    · exact local_saveToLocalDb config options.partitionId key newValue _
        (Node.send config sent ..) other
    · rfl

end operators

/-! ### Dispatching -/

section dispatching
variable (config : Configuration) {operator : Operator} {operation : OperationBody}
  {options : OperationOptions} {partitionId : UInt32}

/-- Persisting and broadcasting do not touch the stores. -/
theorem Local.executeOperation (hoperate : Local partitionId (operator.operate operation options)) :
    Local partitionId (executeOperation config operator operation options) := by
  have hpost : ∀ (canBePersisted canBroadcast : Bool) (body : OperationBody) (result : Response),
      Local partitionId fun node =>
        (broadcastAndWait config canBroadcast body
          (addToOperationLog canBePersisted options.partitionId body node)).bind fun node =>
            some (node, result) := by
    intro canBePersisted canBroadcast body result node other
    unfold broadcastAndWait addToOperationLog
    cases canBePersisted <;> cases canBroadcast <;> cases body.getArg 0 <;> rfl
  rw [executeOperation_eq]
  exact hoperate.bind fun result => hpost _ _ _ result

variable (others : UInt8 → Option Operator)

/-- Dispatched to a running node, the request works on the store of the partition and on no
    other. -/
def RunsOn (request : Request) (partitionId : UInt32) : Prop :=
  ∀ node : Node, node.nodeState = .RUNNING → node.delayedOperationsBuffer = [] →
    dispatch config others request node =
      (dispatch config others request (node.only partitionId)).map fun result =>
        (result.1.withOthers node partitionId, result.2)

theorem runsOn_of_local {request : Request}
    (hregistry : operatorRegistry config others request.operation.operatorNumber =
      some operator)
    (hlocal : ∀ p, partitionOfOperation config operator request.operation = some p →
      Local partitionId
        (operator.operate request.operation (optionsOfRequest operator request p))) :
    RunsOn config others request partitionId := by
  intro node hrun hempty
  rw [dispatch_running config others hrun hempty,
    dispatch_running config others (show (node.only partitionId).nodeState = _ from hrun)
      hempty,
    dispatchNoApply_executes config others hregistry (canExecuteRequest_running config hrun),
    dispatchNoApply_executes config others hregistry
      (canExecuteRequest_running config (show (node.only partitionId).nodeState = _ from hrun))]
  split
  · cases invalidPartition config operator request.operation with
    | none => rfl
    | some invalid =>
      cases invalid with
      | true => simp
      | false =>
        cases hp : partitionOfOperation config operator request.operation with
        | none => rfl
        | some p =>
          have hnode := (hlocal p hp).executeOperation config (node.only partitionId) node
          rw [Node.only_withOthers] at hnode
          exact hnode
  · simp

end dispatching

end MemDb

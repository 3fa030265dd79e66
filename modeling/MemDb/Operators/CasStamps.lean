import MemDb.Lib.Run
import MemDb.Operators.KeyOperators

/-! # The timestamps of `SET` and `CAS`

    At one node, `SET` requests of clients and calls of `CAS` on the same key, one beside another. A
    `SET` takes its timestamp from the clock of the node when it is stored, and advances the clock.
    A call of `CAS` copies the clock when it starts, counts its attempts on the copy, and raises the
    clock only when it has stored its value. Until then a `SET` can get the timestamp of an attempt.
    It cannot when the clock has caught up with the attempts before the `SET`, and the copies with
    the clock before an attempt.
-/

namespace MemDb

open Lib.Run Option OperatorNumbers Function UInt64

/-! ### The system -/

/-- The value and timestamp of a key in the store of its partition, if a value is there. -/
def Node.stored (config : Configuration) (node : Node) (key : SimpleString) :
    Option DataAVLNode := do
  let store ← node.memDbStores (getPartitionIdByKey config key)
  let entry ← store.view (config.calculateHash key)
  entry.data.asData

/-- A node with its calls of `CAS` on a key. -/
structure StampingNode where
  node : Node
  calls : Nat → Option CasCall
  /-- What successful `SET` requests of clients have stored under the key. -/
  sets : List DataAVLNode
  /-- The value of each attempt of a call, with the timestamp it is proposed under. -/
  attempts : List DataAVLNode

/-- What can happen next. When a wait of a call ends, and how, is decided by other nodes. -/
inductive StampingEvent where
  /-- A client sets the key. -/
  | set (request : Request)
  /-- A client calls `CAS`, and the call makes its first attempt. -/
  | call (k : Nat) (operation : OperationBody)
  /-- The wait for promises has timed out, and the call makes its next attempt. -/
  | retry (k : Nat)
  /-- There is a quorum of promises. -/
  | promised (k : Nat)
  /-- The wait for accepts has timed out. -/
  | timeout (k : Nat)
  /-- There is a quorum of accepts. -/
  | commit (k : Nat)
  /-- The node does something else. -/
  | other (after : Node)

namespace StampingNode
variable (config : Configuration) (others : UInt8 → Option Operator) (key : SimpleString)

/-- No request has been made. -/
def start (node : Node) : StampingNode := ⟨node, fun _ => none, [], []⟩

def setCall (k : Nat) (call : CasCall) (state : StampingNode) : StampingNode :=
  { state with calls := update state.calls k (some call) }

/-- The call with the number, if it is waiting in the given state. -/
def waiting (k : Nat) (proposerState : ProposerPaxosState) (state : StampingNode) :
    Option CasCall :=
  (state.calls k).filter fun call => call.response == none && call.state == proposerState

/-- A pass of the loop of a call; where it goes on to a broadcast, that is an attempt. -/
def prepare (k : Nat) (call : CasCall) (state : StampingNode) : Option StampingNode :=
  (call.prepare config state.node).map fun (call, operation) =>
    { state.setCall k call with
      attempts := operation.elim state.attempts fun _ =>
        state.attempts ++ [⟨call.newValue, call.nextTimestamp⟩] }

def step : StampingEvent → StampingNode → Option StampingNode
  | .set request, state =>
    (dispatch config others request state.node).map fun (node, response) =>
      { state with
        node := node
        sets := if response.isSuccessful then state.sets ++ (node.stored config key).toList
          else state.sets }
  | .call k operation, state =>
    if (state.calls k).isNone then
      (CasCall.start operation state.node.clock).bind (prepare config k · state)
    else none
  | .retry k, state => (state.waiting k .WAITING_FOR_PROMISE).bind (prepare config k · state)
  | .promised k, state =>
    (state.waiting k .WAITING_FOR_PROMISE).map fun call => state.setCall k (call.accept config).1
  | .timeout k, state =>
    (state.waiting k .WAITING_FOR_ACCEPT).map fun call => state.setCall k call.abort
  | .commit k, state =>
    (state.waiting k .WAITING_FOR_ACCEPT).bind fun call =>
      (call.commit config state.node).map fun (call, node) =>
        { state.setCall k call with node := node }
  | .other after, state => some { state with node := after }

/-- A node that runs, with a store for the key. -/
structure Serves (node : Node) : Prop where
  running : node.nodeState = .RUNNING
  buffer : node.delayedOperationsBuffer = []
  store : ∃ m, node.memDbStores (getPartitionIdByKey config key) = some m ∧ m.WellFormed

/-- The events are those of clients that set the key or call `CAS` on it, nothing else moves the
    clock back, and no counter wraps. -/
def OnKey : StampingEvent → StampingNode → Prop
  | .set request, state => (∃ value, request.IsSet key value) ∧ request.authenticationType = .USER ∧
    state.node.clock.counter.toNat + 1 < 2 ^ 64 ∧ request.operation.timestamp.toNat + 1 < 2 ^ 64
  | .call _ operation, state => operation.getArg 0 = some key ∧
    state.node.clock.counter.toNat + 1 < 2 ^ 64
  | .retry k, state => ∀ call, state.calls k = some call →
    call.nextTimestamp.counter.toNat + 1 < 2 ^ 64
  | .other after, state => Serves config key after ∧
    state.node.clock.counter ≤ after.clock.counter
  | _, _ => True

/-- Before a `SET` the clock has caught up with every attempt so far, and before the next attempt of
    a call its copy of the clock has caught up with the clock. -/
def CaughtUp : StampingEvent → StampingNode → Prop
  | .set _, state => ∀ attempt ∈ state.attempts,
    attempt.timestamp.counter ≤ state.node.clock.counter
  | .retry k, state => ∀ call, state.calls k = some call →
    state.node.clock.counter ≤ call.nextTimestamp.counter
  | _, _ => True

end StampingNode

/-! ### What the events do to the clock -/

section events
variable {config : Configuration} {others : UInt8 → Option Operator} {key : SimpleString}
  {node node' : Node}

theorem Node.stored_of_store {m : Map}
    (hm : node.memDbStores (getPartitionIdByKey config key) = some m) :
    node.stored config key = (m.view (config.calculateHash key)).bind fun entry =>
      entry.data.asData := by
  unfold Node.stored
  rw [hm]
  rfl

/-- A `SET` of a client is refused where there is a counter only. -/
theorem asData_of_refused {V : View} {h : UInt32} {timestamp : LamportClock}
    {strategy : UpdateClockStrategy} (hrefused : V.accepts h timestamp strategy false = false) :
    ((V h).bind fun entry => entry.data.asData) = none := by
  unfold View.accepts at hrefused
  cases hV : V h with
  | none => rfl
  | some entry =>
    rw [hV] at hrefused
    cases hdata : entry.data with
    | data d => simp [AVLTree.refuses, hdata] at hrefused
    | counter c => simp [hdata, NodeData.asData]

/-- A `SET` of a client that is stored gets the counter that the clock then shows. -/
theorem operate_clientSet {operation : OperationBody} {options : OperationOptions} {m : Map}
    {value : SimpleString} {response : Response}
    (hclient : options.checkTimestamps = false) (hstrategy : options.updateClockStrategy = .TICK)
    (hpartition : options.partitionId = getPartitionIdByKey config key)
    (hkey : operation.getArg 0 = some key) (hvalue : operation.getArg 1 = some value)
    (hm : node.memDbStores (getPartitionIdByKey config key) = some m) (hwf : m.WellFormed)
    (hrun : (SetOperator config).operate operation options node = some (node', response)) :
    node'.nodeState = node.nodeState ∧
      node'.delayedOperationsBuffer = node.delayedOperationsBuffer ∧
      (∃ m', node'.memDbStores (getPartitionIdByKey config key) = some m' ∧ m'.WellFormed) ∧
      ((node'.clock = node.clock ∧ node'.stored config key = none) ∨
        (node'.clock = (node.clock.update .TICK operation.timestamp).1 ∧
          node'.stored config key = some ⟨value, ⟨config.nodeId, node'.clock.counter⟩⟩)) := by
  simp only [SetOperator, hpartition, hm, hkey, hvalue, hclient, hstrategy, bind_eq_bind,
    bind_some, bind_eq_some_iff] at hrun
  obtain ⟨⟨store, clock, result⟩, hput, hresult⟩ := hrun
  cases hresult
  have htimestamp :
      getTimestamp config operation options = ⟨config.nodeId, operation.timestamp⟩ := by
    unfold getTimestamp OperationOptions.fromClient
    rw [hclient]
    rfl
  rw [htimestamp] at hput
  have hstore : (node.setStore (getPartitionIdByKey config key) store clock).memDbStores
      (getPartitionIdByKey config key) = some store := if_pos rfl
  obtain ⟨hwf', hcases⟩ := Map.putData_cases hwf hput
  refine ⟨rfl, rfl, ⟨store, hstore, hwf'⟩, ?_⟩
  rw [Node.stored_of_store hstore]
  -- stored under the ticked clock, or refused by a counter under the same hash
  rcases hcases with ⟨-, hclock, -, hview⟩ | ⟨hrefused, hclock, -, hview⟩
  · right
    refine ⟨hclock, ?_⟩
    show _ = some (DataAVLNode.mk value ⟨config.nodeId, clock.counter⟩)
    rw [hview, View.put_self, bind_some, View.written_data, hclock]
    simp [NodeData.asData, AVLTree.stamped, AVLTree.stamp]
  · left
    refine ⟨hclock, ?_⟩
    rw [hview]
    exact asData_of_refused hrefused

open StampingNode in
theorem dispatch_clientSet {request : Request} {value : SimpleString} {response : Response}
    (hserves : Serves config key node) (hset : request.IsSet key value)
    (huser : request.authenticationType = .USER)
    (hrun : dispatch config others request node = some (node', response)) :
    Serves config key node' ∧
      ((node'.clock = node.clock ∧
          (response.isSuccessful = true → node'.stored config key = none)) ∨
        (node'.clock = (node.clock.update .TICK request.operation.timestamp).1 ∧
          node'.stored config key = some ⟨value, ⟨config.nodeId, node'.clock.counter⟩⟩)) := by
  obtain ⟨m, hm, hwf⟩ := hserves.store
  obtain ⟨hkey, hvalue⟩ := hset.getArg
  rcases dispatch_set_cases others (canExecuteRequest_running config hserves.running)
    hserves.buffer hset hrun with ⟨rfl, rfl⟩ | ⟨edited, hoperate, hstate, hbuffer, hstores, hclock⟩
  · exact ⟨hserves, Or.inl ⟨rfl, fun hsuccess => absurd hsuccess (by decide)⟩⟩
  · -- a request of a client is not checked against the store and ticks the clock
    have hclient : (optionsOfRequest (SetOperator config) request
        (getPartitionIdByKey config key)).checkTimestamps = false := by
      simp [optionsOfRequest, huser]
    have hstrategy : (optionsOfRequest (SetOperator config) request
        (getPartitionIdByKey config key)).updateClockStrategy = .TICK := by
      simp [optionsOfRequest, huser]
    obtain ⟨hstate', hbuffer', ⟨m', hm', hwf'⟩, hcases⟩ :=
      operate_clientSet hclient hstrategy rfl hkey hvalue hm hwf hoperate
    have hstored : node'.stored config key = edited.stored config key := by
      unfold Node.stored
      rw [hstores]
    refine ⟨⟨?_, ?_, m', ?_, hwf'⟩, ?_⟩
    · rw [hstate, hstate', hserves.running]
    · rw [hbuffer, hbuffer', hserves.buffer]
    · rw [hstores, hm']
    · rw [hstored, hclock]
      rcases hcases with ⟨hsame, hnone⟩ | hticked
      · exact Or.inl ⟨hsame, fun _ => hnone⟩
      · exact Or.inr hticked

open StampingNode in
/-- A call of `CAS` that stores its value raises the clock. -/
theorem commit_serves {call call' : CasCall} (hserves : Serves config call.key node)
    (hrun : call.commit config node = some (call', node')) :
    Serves config call.key node' ∧ node.clock.counter.toNat ≤ node'.clock.counter.toNat ∧
      call'.key = call.key := by
  obtain ⟨m, hm, hwf⟩ := hserves.store
  obtain ⟨⟨saved, response⟩, hsave, hresult⟩ := map_eq_some_iff.mp hrun
  cases hresult
  simp only [saveToLocalDb, hm, bind_eq_bind, bind_some,
    bind_eq_some_iff] at hsave
  obtain ⟨⟨store, clock, result⟩, hput, hsave⟩ := hsave
  obtain ⟨hwf', hcases⟩ := Map.putData_cases hwf hput
  have hle : node.clock.counter.toNat ≤ clock.counter.toNat := by
    rcases hcases with ⟨-, hclock, -, -⟩ | ⟨-, hclock, -, -⟩
    · rw [hclock, LamportClock.toNat_update_SET_MAX]
      exact le_max_right _ _
    · rw [hclock]
  have hedited : Serves config call.key (node.setStore (getPartitionIdByKey config call.key) store
      clock) := ⟨hserves.running, hserves.buffer, store, if_pos rfl, hwf'⟩
  -- whether it is logged makes no difference to store and clock
  dsimp only at hsave
  split at hsave
  · cases hsave
    exact ⟨⟨hedited.running, hedited.buffer, hedited.store⟩, hle, rfl⟩
  · cases hsave
    exact ⟨hedited, hle, rfl⟩

/-- An attempt counts on the copy of the call. -/
theorem prepare_cases {call call' : CasCall} {operation : Option OperationBody}
    (hrun : call.prepare config node = some (call', operation)) :
    call'.key = call.key ∧ (operation.isSome = true →
      call'.nextTimestamp.counter = call.nextTimestamp.counter + 1) := by
  obtain ⟨found, -, hresult⟩ := map_eq_some_iff.mp hrun
  cases found with
  | error code =>
    cases hresult
    exact ⟨rfl, fun h => absurd h (by simp)⟩
  | ok prevTimestamp =>
    cases hresult
    exact ⟨rfl, fun _ => rfl⟩

end events

/-! ### Steps and runs -/

namespace StampingNode
variable {config : Configuration} {others : UInt8 → Option Operator} {key : SimpleString}

/-- The clock has passed every `SET`, and no `SET` has the counter of an attempt. -/
structure Separate (config : Configuration) (key : SimpleString) (state : StampingNode) : Prop where
  serves : Serves config key state.node
  calls : ∀ k call, state.calls k = some call → call.key = key
  reached : ∀ set ∈ state.sets,
    set.timestamp.counter.toNat ≤ state.node.clock.counter.toNat
  apart : ∀ set ∈ state.sets, ∀ attempt ∈ state.attempts,
    set.timestamp.counter ≠ attempt.timestamp.counter

theorem separate_start {node : Node} (hserves : Serves config key node) :
    (start node).Separate config key := by
  constructor
  · exact hserves
  · intro k call hcall
    cases hcall
  · intro set hset
    cases hset
  · intro set hset
    cases hset

section steps
variable {state next : StampingNode} (h : state.Separate config key)
include h

section
variable {k : Nat} {call : CasCall}

/-- A call that goes on keeps its key. -/
theorem Separate.setCall (hkey : call.key = key) :
    (state.setCall k call).Separate config key := by
  refine ⟨h.serves, ?_, h.reached, h.apart⟩
  show ∀ k' call', update state.calls k (some call) k' = some call' → call'.key = key
  intro k' call' hcall'
  by_cases hk : k' = k
  · rw [hk, update_self] at hcall'
    rw [← some.inj hcall', hkey]
  · rw [update_of_ne hk] at hcall'
    exact h.calls k' call' hcall'

theorem Separate.waiting {proposerState : ProposerPaxosState}
    (hwaiting : state.waiting k proposerState = some call) :
    state.calls k = some call ∧ call.key = key := by
  have hcall := (filter_eq_some_iff.mp hwaiting).1
  exact ⟨hcall, h.calls k call hcall⟩

/-- An attempt from a copy that is not behind the clock is above every `SET`. -/
theorem Separate.prepare (hkey : call.key = key)
    (hroom : call.nextTimestamp.counter.toNat + 1 < 2 ^ 64)
    (hcopy : state.node.clock.counter.toNat ≤ call.nextTimestamp.counter.toNat)
    (hstep : prepare config k call state = some next) : next.Separate config key := by
  obtain ⟨⟨call', operation⟩, hprepare, rfl⟩ := map_eq_some_iff.mp hstep
  obtain ⟨hkey', hcounter⟩ := prepare_cases hprepare
  have hcalls := h.setCall (k := k) (hkey'.trans hkey)
  refine ⟨h.serves, hcalls.calls, h.reached, ?_⟩
  cases operation with
  | none => exact h.apart
  | some operation =>
    intro set hset attempt hattempt
    rcases List.mem_append.mp hattempt with hold | hnew
    · exact h.apart set hset attempt hold
    · rw [List.mem_singleton.mp hnew]
      show set.timestamp.counter ≠ call'.nextTimestamp.counter
      rw [hcounter rfl]
      intro heq
      have hle := h.reached set hset
      have hnat := congrArg toNat heq
      rw [UInt64.toNat_add, show (1 : UInt64).toNat = 1 from rfl, Nat.mod_eq_of_lt hroom] at hnat
      omega

end

/-- A `SET` after the clock has caught up is above every attempt. -/
theorem Separate.set {request : Request}
    (honKey : OnKey config key (.set request) state) (hcaught : CaughtUp (.set request) state)
    (hstep : step config others key (.set request) state = some next) :
    next.Separate config key := by
  obtain ⟨⟨value, hset⟩, huser, hroom, hroom'⟩ := honKey
  obtain ⟨⟨node', response⟩, hrun, rfl⟩ := map_eq_some_iff.mp hstep
  obtain ⟨hserves, hcases⟩ := dispatch_clientSet h.serves hset huser hrun
  have hle : state.node.clock.counter.toNat ≤ node'.clock.counter.toNat := by
    rcases hcases with ⟨hclock, -⟩ | ⟨hclock, -⟩
    · rw [hclock]
    · rw [hclock, LamportClock.toNat_update_TICK hroom hroom']
      omega
  -- a value that is recorded now has ticked past the clock
  have hnew : ∀ set ∈ (if response.isSuccessful then state.sets ++ (node'.stored config key).toList
      else state.sets), set ∈ state.sets ∨
        (set.timestamp.counter.toNat = node'.clock.counter.toNat ∧
          state.node.clock.counter.toNat < set.timestamp.counter.toNat) := by
    intro set hmem
    split at hmem
    · next hsuccess =>
      rcases List.mem_append.mp hmem with hold | hstored
      · exact Or.inl hold
      · rcases hcases with ⟨-, hnone⟩ | ⟨hclock, hsome⟩
        · rw [hnone hsuccess] at hstored
          cases hstored
        · rw [hsome] at hstored
          obtain rfl := List.mem_singleton.mp hstored
          right
          refine ⟨rfl, ?_⟩
          show _ < node'.clock.counter.toNat
          rw [hclock, LamportClock.toNat_update_TICK hroom hroom']
          omega
    · exact Or.inl hmem
  refine ⟨hserves, h.calls, ?_, ?_⟩
  · intro set hmem
    show set.timestamp.counter.toNat ≤ node'.clock.counter.toNat
    rcases hnew set hmem with hold | ⟨heq, -⟩
    · exact (h.reached set hold).trans hle
    · exact heq.le
  · intro set hmem attempt hattempt
    rcases hnew set hmem with hold | ⟨-, hlt⟩
    · exact h.apart set hold attempt hattempt
    · intro heq
      have hreached := le_iff_toNat_le.mp (hcaught attempt hattempt)
      rw [heq] at hlt
      omega

theorem Separate.step {event : StampingEvent} (honKey : OnKey config key event state)
    (hcaught : CaughtUp event state)
    (hstep : step config others key event state = some next) :
    next.Separate config key := by
  cases event with
  | set request => exact h.set honKey hcaught hstep
  | call k operation =>
    obtain ⟨-, hstep⟩ := ite_none_right_eq_some.mp hstep
    obtain ⟨call, hcall, hprepare⟩ := bind_eq_some_iff.mp hstep
    obtain ⟨hkey, hroom⟩ := honKey
    simp only [CasCall.start, hkey, bind_eq_bind, bind_some,
      bind_eq_some_iff] at hcall
    obtain ⟨expectedValue, -, newValue, -, hcall⟩ := hcall
    cases hcall
    -- the copy is the clock itself
    exact h.prepare rfl hroom (le_refl _) hprepare
  | retry k =>
    obtain ⟨call, hwaiting, hprepare⟩ := bind_eq_some_iff.mp hstep
    obtain ⟨hcall, hkey⟩ := h.waiting hwaiting
    exact h.prepare hkey (honKey call hcall) (le_iff_toNat_le.mp (hcaught call hcall)) hprepare
  | promised k =>
    obtain ⟨call, hwaiting, rfl⟩ := map_eq_some_iff.mp hstep
    exact h.setCall (h.waiting hwaiting).2
  | timeout k =>
    obtain ⟨call, hwaiting, rfl⟩ := map_eq_some_iff.mp hstep
    exact h.setCall (h.waiting hwaiting).2
  | commit k =>
    obtain ⟨call, hwaiting, hcommit⟩ := bind_eq_some_iff.mp hstep
    obtain ⟨⟨call', node'⟩, hrun, rfl⟩ := map_eq_some_iff.mp hcommit
    obtain ⟨-, rfl⟩ := h.waiting hwaiting
    obtain ⟨hserves, hle, hkey⟩ := commit_serves h.serves hrun
    refine ⟨hserves, (h.setCall hkey).calls, ?_, h.apart⟩
    intro set hset
    exact (h.reached set hset).trans hle
  | other after =>
    cases hstep
    obtain ⟨hserves, hle⟩ := honKey
    refine ⟨hserves, h.calls, ?_, h.apart⟩
    intro set hset
    exact (h.reached set hset).trans (le_iff_toNat_le.mp hle)

end steps

/-- In every run in which the clock has caught up with the attempts before a `SET`, and the copy of
    a call with the clock before a further attempt, no `SET` and no attempt with another value share
    a timestamp. -/
theorem set_and_cas_stamps_differ (config : Configuration) (others : UInt8 → Option Operator)
    (key : SimpleString) (node : Node) (events : List StampingEvent) (final : StampingNode)
    (hserves : Serves config key node)
    (honKey : Guarded (step config others key) (OnKey config key) events (start node))
    (hcaught : Guarded (step config others key) CaughtUp events (start node))
    (hrun : run (step config others key) events (start node) = some final) :
    ∀ set ∈ final.sets, ∀ attempt ∈ final.attempts, set.value ≠ attempt.value →
      set.timestamp ≠ attempt.timestamp := by
  have hstep : ∀ event (state next : StampingNode), state.Separate config key →
      OnKey config key event state ∧ CaughtUp event state →
      step config others key event state = some next → next.Separate config key :=
    fun _ _ _ h hguard hstep => h.step hguard.1 hguard.2 hstep
  have hfinal := invariant hstep (separate_start hserves) (honKey.and hcaught) hrun
  intro set hset attempt hattempt _ heq
  exact hfinal.apart set hset attempt hattempt (congrArg LamportClock.counter heq)

/-! ### One node -/

/-- `OnKey` and `CaughtUp` for events of clients. -/
def clientEvent (key : SimpleString) : StampingEvent → StampingNode → Bool
  | .set request, state => request.operation.operatorNumber == SET &&
    request.operation.args.any (fun args => args.head? == some key && 2 ≤ args.length) &&
    request.authenticationType == .USER && state.node.clock.counter.toNat + 1 < 2 ^ 64 &&
    request.operation.timestamp.toNat + 1 < 2 ^ 64 &&
    state.attempts.all fun attempt => attempt.timestamp.counter ≤ state.node.clock.counter
  | .call _ operation, state => operation.getArg 0 == some key &&
    state.node.clock.counter.toNat + 1 < 2 ^ 64
  | .retry k, state => (state.calls k).all fun call =>
    call.nextTimestamp.counter.toNat + 1 < 2 ^ 64 &&
      state.node.clock.counter ≤ call.nextTimestamp.counter
  | .other _, _ => false
  | _, _ => true

theorem clientEvent_spec {event : StampingEvent} {state : StampingNode}
    (h : clientEvent key event state = true) :
    OnKey config key event state ∧ CaughtUp event state := by
  cases event with
  | set request =>
    simp only [clientEvent, Bool.and_eq_true, beq_iff_eq, decide_eq_true_eq, List.all_eq_true] at h
    obtain ⟨⟨⟨⟨⟨hnumber, hargs⟩, huser⟩, hroom⟩, hroom'⟩, hreached⟩ := h
    obtain ⟨args, hsome, hargs⟩ := (any_eq_true _ _).mp hargs
    simp only [Bool.and_eq_true, beq_iff_eq, decide_eq_true_eq] at hargs
    obtain ⟨first, value, rest, rfl⟩ : ∃ first value rest, args = first :: value :: rest := by
      match args, hargs.2 with
      | first :: value :: rest, _ => exact ⟨first, value, rest, rfl⟩
    obtain rfl := some.inj hargs.1
    exact ⟨⟨⟨value, hnumber, rest, hsome⟩, huser, hroom, hroom'⟩, hreached⟩
  | call k operation =>
    simp only [clientEvent, Bool.and_eq_true, beq_iff_eq, decide_eq_true_eq] at h
    exact ⟨h, trivial⟩
  | retry k =>
    have hall : ∀ call, state.calls k = some call → call.nextTimestamp.counter.toNat + 1 < 2 ^ 64 ∧
        state.node.clock.counter ≤ call.nextTimestamp.counter := by
      intro call hcall
      simpa [clientEvent, hcall] using h
    exact ⟨fun call hcall => (hall call hcall).1, fun call hcall => (hall call hcall).2⟩
  | promised k => exact ⟨trivial, trivial⟩
  | timeout k => exact ⟨trivial, trivial⟩
  | commit k => exact ⟨trivial, trivial⟩
  | other after => cases h

/-- `SET k v` of a client. -/
def setOfClient (value : UInt8) : Request where
  authentication := ⟨[117], false, false⟩
  operation := ⟨some [[107], [value]], 0, 0, SET, false, false⟩
  requestNumber := 0
  authenticationType := .USER

/-- `CAS k expected new`. -/
def casOfClient (expectedValue newValue : UInt8) : OperationBody :=
  ⟨some [[107], [expectedValue], [newValue]], 0, 0, CAS, false, false⟩

theorem serves_emptyNode : Serves firstNode [107] (emptyNode .RUNNING 1) :=
  ⟨rfl, rfl, Map.new 1 (by decide), rfl, Map.wellFormed_new 1 (by decide)⟩

/-- A call that needs two attempts between two `SET` requests: all timestamps differ. -/
theorem set_and_cas_stamps_differ_two :
    ∃ final, run (step firstNode (casOperators firstNode) [107])
        [.set (setOfClient 0), .call 0 (casOfClient 0 1), .retry 0, .promised 0, .commit 0,
          .set (setOfClient 2)] (start (emptyNode .RUNNING 1)) = some final ∧
      final.sets.length = 2 ∧ final.attempts.length = 2 ∧
      ∀ set ∈ final.sets, ∀ attempt ∈ final.attempts, set.value ≠ attempt.value →
        set.timestamp ≠ attempt.timestamp := by
  obtain ⟨final, hfinal, hsets, hattempts⟩ : ∃ final, checkedRun (step firstNode
      (casOperators firstNode) [107]) (clientEvent [107])
        [.set (setOfClient 0), .call 0 (casOfClient 0 1),
        .retry 0, .promised 0, .commit 0, .set (setOfClient 2)] (start (emptyNode .RUNNING 1)) =
          some final ∧ final.sets.length = 2 ∧ final.attempts.length = 2 := by
    decide +kernel
  obtain ⟨hrun, hguarded⟩ := checkedRun_eq_some hfinal
  have hspec : ∀ event state, clientEvent [107] event state = true →
      OnKey firstNode [107] event state ∧ CaughtUp event state := fun _ _ => clientEvent_spec
  exact ⟨final, hrun, hsets, hattempts, set_and_cas_stamps_differ firstNode (casOperators firstNode)
    [107] (emptyNode .RUNNING 1) _ final serves_emptyNode
    (hguarded.imp fun event state h => (hspec event state h).1)
    (hguarded.imp fun event state h => (hspec event state h).2) hrun⟩

/-- A `SET` between the attempt of a call and its end: the `SET` of 2 and the attempt for 1 both get
    the timestamp (2, node 1), and both are stored. -/
theorem set_and_cas_share_stamp :
    ((run (step firstNode (casOperators firstNode) [107])
        [.set (setOfClient 0), .call 0 (casOfClient 0 1), .set (setOfClient 2), .promised 0,
          .commit 0]
        (start (emptyNode .RUNNING 1))).map fun final =>
      (final.sets, final.attempts, final.node.stored firstNode [107],
        (final.calls 0).bind CasCall.response)) =
      some ([⟨[0], ⟨1, 1⟩⟩, ⟨[2], ⟨1, 2⟩⟩], [⟨[1], ⟨1, 2⟩⟩], some ⟨[1], ⟨1, 2⟩⟩,
        some Response.success) := by
  decide

end StampingNode

end MemDb

import MemDb.Lib.Run
import MemDb.Operators.Sets

/-! # The clock of a node and the versions it stores

    A node that executes what is dispatched to it, and is sent nothing but `SET` by clients and by
    other nodes. As long as no counter wraps, its clock only goes forward, stays level with every
    version it stores, and a client's `SET` gets a counter above all of them.

    A client chooses the timestamp of its request, and `tick` adds one to it in 64 bits: the
    greatest timestamp takes the clock back to 0.
-/

namespace MemDb

open Lib.Run Option

/-- A node holds the entry in the store of a partition. -/
def Node.HoldsEntry (node : Node) (partitionId : UInt32) (keyHash : UInt32) (entry : MapEntry) :
    Prop :=
  ∃ m, node.memDbStores partitionId = some m ∧ m.view keyHash = some entry

/-- A node that executes requests at once, with a clock that is not behind a version it stores. -/
structure Node.Disciplined (config : Configuration) (node : Node) : Prop where
  executes : canExecuteRequest config node = true
  buffer : node.delayedOperationsBuffer = []
  stores : ∀ partitionId m, node.memDbStores partitionId = some m → m.WellFormed
  versions : ∀ partitionId keyHash entry, node.HoldsEntry partitionId keyHash entry →
    ∃ d, entry.data = .data d ∧ d.timestamp.counter.toNat ≤ node.clock.counter.toNat

/-- The node after a request. -/
def dispatchStep (config : Configuration) (others : UInt8 → Option Operator)
    (request : Request) (node : Node) : Option Node :=
  (dispatch config others request node).map Prod.fst

/-- The request is a `SET`, and where it comes from a client it leaves the clock room for a tick. -/
def SetWithRoom (request : Request) (node : Node) : Prop :=
  (∃ key value, request.IsSet key value) ∧
    (request.authenticationType = .USER → node.clock.counter.toNat + 1 < 2 ^ 64 ∧
      request.operation.timestamp.toNat + 1 < 2 ^ 64)

section steps
variable {config : Configuration} {others : UInt8 → Option Operator} {request : Request}
  {node next : Node} {key value : SimpleString} {response : Response}

/-! ### What one `SET` does -/

/-- A `SET` is refused for its partition, or one store takes it or keeps its entry. -/
theorem Node.Disciplined.dispatch_cases (hnode : node.Disciplined config)
    (hset : request.IsSet key value)
    (hrun : dispatch config others request node = some (next, response)) :
    (next = node ∧ response.isSuccessful = false) ∨
    (next.nodeState = node.nodeState ∧
      next.delayedOperationsBuffer = node.delayedOperationsBuffer ∧
      ∃ m m', node.memDbStores (getPartitionIdByKey config key) = some m ∧ m'.WellFormed ∧
        next.memDbStores = (fun p =>
          if p = getPartitionIdByKey config key then some m' else node.memDbStores p) ∧
        ((next.clock = (node.clock.update (setOptions config request).updateClockStrategy
              (setTimestamp config request).counter).1 ∧
            response.timestamp.counter = (setStamp config request node.clock).counter ∧
            m'.view = m.view.put key (config.calculateHash key)
              ⟨value, setStamp config request node.clock⟩) ∨
          (m.view.accepts (config.calculateHash key) (setTimestamp config request)
              (setOptions config request).updateClockStrategy
              (setOptions config request).checkTimestamps = false ∧
            next.clock = node.clock ∧ m'.view = m.view))) := by
  obtain ⟨hkey, hvalue⟩ := hset.getArg
  rcases dispatch_set_cases others hnode.executes hnode.buffer hset hrun with
    ⟨rfl, rfl⟩ | ⟨edited, hoperate, hstate, hbuffer, hstores, hclock⟩
  · exact Or.inl ⟨rfl, rfl⟩
  · right
    simp only [SetOperator, hkey, hvalue, bind_eq_bind, bind_some,
      bind_eq_some_iff] at hoperate
    obtain ⟨m, hm, ⟨store, clock, edit⟩, hput, hresult⟩ := hoperate
    cases hresult
    obtain ⟨hwf', hcases⟩ := Map.putData_cases (hnode.stores _ m hm) hput
    refine ⟨hstate, hbuffer, m, store, hm, hwf', hstores, ?_⟩
    rw [hclock]
    rcases hcases with ⟨-, hclock', hedit, hview⟩ | ⟨hrefused, hclock', -, hview⟩
    · left
      rw [hedit]
      exact ⟨hclock', rfl, hview⟩
    · exact Or.inr ⟨hrefused, hclock', hview⟩

/-- Where only values are stored, a refused `SET` is one of a node, and behind the version that it
    would replace. -/
theorem refused_version {V : View} {h : UInt32}
    (hdata : ∀ entry, V h = some entry → ∃ d, entry.data = .data d)
    (hrefused : V.accepts h (setTimestamp config request)
      (setOptions config request).updateClockStrategy
      (setOptions config request).checkTimestamps = false) :
    request.authenticationType = .NODE ∧
      ∃ entry d, V h = some entry ∧ entry.data = .data d ∧
        request.operation.timestamp.toNat ≤ d.timestamp.counter.toNat := by
  unfold View.accepts at hrefused
  cases hV : V h with
  | none => simp [hV] at hrefused
  | some entry =>
    obtain ⟨d, hd⟩ := hdata entry hV
    simp only [hV, AVLTree.refuses, hd, Bool.not_eq_false'] at hrefused
    cases htype : request.authenticationType with
    | USER => simp [setOptions, optionsOfRequest, htype] at hrefused
    | NODE =>
      refine ⟨rfl, entry, d, rfl, hd, ?_⟩
      have hgt : d.timestamp.gt (setTimestamp config request) = true := by
        simpa [setOptions, optionsOfRequest, SetOperator, htype] using hrefused
      have hle := LamportClock.counter_le (LamportClock.gt_iff_lt.mp hgt).le
      unfold setTimestamp getTimestamp at hle
      split at hle <;> exact hle

/-- An accepted `SET` takes the clock to the counter of the version it stores or past it, and a
    client's past all that the clock showed before. -/
theorem accepted_counters (hroom : SetWithRoom request node) {clock : LamportClock}
    (hclock : clock = (node.clock.update (setOptions config request).updateClockStrategy
      (setTimestamp config request).counter).1) :
    node.clock.counter.toNat ≤ clock.counter.toNat ∧
      request.operation.timestamp.toNat ≤ clock.counter.toNat ∧
      (setStamp config request node.clock).counter.toNat ≤ clock.counter.toNat ∧
      (request.authenticationType = .USER →
        node.clock.counter.toNat < (setStamp config request node.clock).counter.toNat) := by
  have hcounter : (setTimestamp config request).counter = request.operation.timestamp := by
    unfold setTimestamp getTimestamp
    split <;> rfl
  rw [hcounter] at hclock
  cases htype : request.authenticationType with
  | USER =>
    obtain ⟨hroomClock, hroomRequest⟩ := hroom.2 htype
    have hstrategy : (setOptions config request).updateClockStrategy = .TICK := by
      simp [setOptions, optionsOfRequest, htype]
    rw [hstrategy] at hclock
    -- a client's version is stamped with the counter that the tick returns
    have hstamp : (setStamp config request node.clock).counter = clock.counter := by
      rw [hclock, setStamp, hcounter.symm]
      simp [AVLTree.stamped, AVLTree.stamp, setOptions, optionsOfRequest, htype]
    have htick := LamportClock.toNat_update_TICK hroomClock hroomRequest
    rw [← hclock] at htick
    rw [hstamp]
    refine ⟨?_, ?_, le_rfl, fun _ => ?_⟩ <;> omega
  | NODE =>
    have hstrategy : (setOptions config request).updateClockStrategy = .SET_MAX := by
      simp [setOptions, optionsOfRequest, SetOperator, htype]
    rw [hstrategy] at hclock
    -- a version of another node keeps the counter that the node gave it
    have hstamp : (setStamp config request node.clock).counter = request.operation.timestamp := by
      rw [← hcounter, setStamp]
      simp [AVLTree.stamped, AVLTree.stamp, setOptions, optionsOfRequest, SetOperator, htype]
    have hmax := LamportClock.toNat_update_SET_MAX node.clock request.operation.timestamp
    rw [← hclock] at hmax
    rw [hstamp]
    refine ⟨?_, ?_, ?_, fun huser => absurd huser (by decide)⟩ <;> omega

/-! ### One step -/

/-- The clock discipline of one request: the clock does not go back, it has reached the counter of a
    node's `SET` that was accepted, and the version of a client's is above all that the node
    held. -/
structure KeepsDiscipline (config : Configuration) (request : Request) (node next : Node)
    (response : Response) : Prop where
  forward : node.clock.counter.toNat ≤ next.clock.counter.toNat
  reached : request.authenticationType = .NODE → response.isSuccessful = true →
    request.operation.timestamp.toNat ≤ next.clock.counter.toNat
  above : request.authenticationType = .USER → response.isSuccessful = true →
    ∀ key value, request.IsSet key value →
      (∃ entry, next.HoldsEntry (getPartitionIdByKey config key) (config.calculateHash key) entry ∧
        entry.data = .data ⟨value, ⟨config.nodeId, response.timestamp.counter⟩⟩) ∧
      ∀ partitionId keyHash entry d, node.HoldsEntry partitionId keyHash entry →
        entry.data = .data d →
        d.timestamp.counter.toNat < response.timestamp.counter.toNat

/-- What the node holds after an edit of one store is what that store holds, or was there before. -/
theorem Node.HoldsEntry.of_edit {p partitionId keyHash : UInt32} {m' : Map} {entry : MapEntry}
    (hstores : next.memDbStores = fun q => if q = p then some m' else node.memDbStores q)
    (hholds : next.HoldsEntry partitionId keyHash entry) :
    (partitionId = p ∧ m'.view keyHash = some entry) ∨
    node.HoldsEntry partitionId keyHash entry := by
  obtain ⟨m, hm, hentry⟩ := hholds
  rw [hstores] at hm
  by_cases hp : partitionId = p
  · dsimp only at hm
    rw [if_pos hp] at hm
    cases hm
    exact Or.inl ⟨hp, hentry⟩
  · dsimp only at hm
    rw [if_neg hp] at hm
    exact Or.inr ⟨m, hm, hentry⟩

/-- The invariant survives an edit of one store after which the clock covers that store. -/
theorem Node.Disciplined.edit (hnode : node.Disciplined config)
    (hstate : next.nodeState = node.nodeState)
    (hbuffer : next.delayedOperationsBuffer = node.delayedOperationsBuffer) {p : UInt32} {m' : Map}
    (hwf : m'.WellFormed)
    (hstores : next.memDbStores = fun q => if q = p then some m' else node.memDbStores q)
    (hforward : node.clock.counter.toNat ≤ next.clock.counter.toNat)
    (hcovers : ∀ keyHash entry, m'.view keyHash = some entry →
      ∃ d, entry.data = .data d ∧ d.timestamp.counter.toNat ≤ next.clock.counter.toNat) :
    next.Disciplined config := by
  constructor
  · rw [← hnode.executes, canExecuteRequest, canExecuteRequest, hstate]
  · rw [hbuffer, hnode.buffer]
  · intro q m hm
    rw [hstores] at hm
    dsimp only at hm
    split at hm
    · cases hm
      exact hwf
    · exact hnode.stores q m hm
  · intro q keyHash entry hholds
    rcases hholds.of_edit hstores with ⟨-, hentry⟩ | hbefore
    · exact hcovers keyHash entry hentry
    · obtain ⟨d, hd, hle⟩ := hnode.versions q keyHash entry hbefore
      exact ⟨d, hd, hle.trans hforward⟩

/-- One `SET` keeps the invariant and the discipline. -/
theorem Node.Disciplined.step (hnode : node.Disciplined config) (hroom : SetWithRoom request node)
    (hrun : dispatch config others request node = some (next, response)) :
    next.Disciplined config ∧ KeepsDiscipline config request node next response := by
  obtain ⟨key, value, hset⟩ := hroom.1
  rcases hnode.dispatch_cases hset hrun with ⟨rfl, hfailed⟩ |
    ⟨hstate, hbuffer, m, m', hm, hwf', hstores, hcases⟩
  · -- refused for its partition: nothing changes, and no part of the discipline is about it
    refine ⟨hnode, le_rfl, ?_, ?_⟩
    · intro _ hsuccess
      rw [hfailed] at hsuccess
      cases hsuccess
    · intro _ hsuccess
      rw [hfailed] at hsuccess
      cases hsuccess
  have hbefore : ∀ keyHash entry, m.view keyHash = some entry →
      ∃ d, entry.data = .data d ∧ d.timestamp.counter.toNat ≤ node.clock.counter.toNat :=
    fun keyHash entry hentry => hnode.versions _ keyHash entry ⟨m, hm, hentry⟩
  rcases hcases with ⟨hclock, hcounter, hview⟩ | ⟨hrefused, hclock, hview⟩
  · obtain ⟨hforward, hreached, hstamp, habove⟩ := accepted_counters hroom hclock
    refine ⟨hnode.edit hstate hbuffer hwf' hstores hforward ?_, hforward, fun _ _ => hreached, ?_⟩
    · -- the clock covers the new version, and the others as before
      intro keyHash entry hentry
      rw [hview] at hentry
      by_cases hhash : keyHash = config.calculateHash key
      · rw [hhash, View.put_self] at hentry
        cases hentry
        exact ⟨_, View.written_data _ _ _ _, hstamp⟩
      · rw [View.put_ne _ _ hhash] at hentry
        obtain ⟨d, hd, hle⟩ := hbefore keyHash entry hentry
        exact ⟨d, hd, hle.trans hforward⟩
    · intro huser _ key' value' hset'
      obtain ⟨rfl, rfl⟩ := hset.unique hset'
      constructor
      · refine ⟨_, ⟨m', by rw [hstores]; exact if_pos rfl, by rw [hview, View.put_self]⟩, ?_⟩
        rw [View.written_data, hcounter]
        simp [setStamp, AVLTree.stamped, AVLTree.stamp, setTimestamp, getTimestamp,
          OperationOptions.fromClient, setOptions, optionsOfRequest, huser]
      · intro q keyHash entry d hholds hd
        obtain ⟨d', hd', hle⟩ := hnode.versions q keyHash entry hholds
        rw [hd, NodeData.data.injEq] at hd'
        rw [hcounter, hd']
        exact hle.trans_lt (habove huser)
  · -- a refusal: the version that stays is at or above the request, and the clock covers it
    obtain ⟨htype, entry, d, hentry, hd, hle⟩ := refused_version
      (fun entry hentry => (hbefore _ entry hentry).imp fun _ h => h.1) hrefused
    obtain ⟨d', hd', hcovered⟩ := hbefore _ entry hentry
    rw [hd, NodeData.data.injEq] at hd'
    refine ⟨hnode.edit hstate hbuffer hwf' hstores (by rw [hclock]) ?_, by rw [hclock], ?_, ?_⟩
    · rw [hview, hclock]
      exact hbefore
    · intro _ _
      rw [hclock]
      rw [← hd'] at hcovered
      exact hle.trans hcovered
    · intro huser
      rw [htype] at huser
      cases huser

end steps

/-! ### Whole runs -/

/-- In every run of `SET` requests in which the ticks have room, from a node whose clock covers what
    it stores: the clock has not gone back since the start, and the next request keeps the
    discipline. -/
theorem dispatched_sets_keep_discipline (config : Configuration)
    (others : UInt8 → Option Operator) (start : Node) (requests : List Request)
    (node : Node) (request : Request) (next : Node) (response : Response)
    (hstart : start.Disciplined config)
    (hroom : Guarded (dispatchStep config others) SetWithRoom (requests ++ [request]) start)
    (hrun : run (dispatchStep config others) requests start = some node)
    (hnext : dispatch config others request node = some (next, response)) :
    start.clock.counter.toNat ≤ node.clock.counter.toNat ∧
      KeepsDiscipline config request node next response := by
  obtain ⟨hrequests, hlast⟩ := hroom.append hrun
  have hstep : ∀ request (state state' : Node),
      (state.Disciplined config ∧ start.clock.counter.toNat ≤ state.clock.counter.toNat) →
      SetWithRoom request state → dispatchStep config others request state = some state' →
      (state'.Disciplined config ∧ start.clock.counter.toNat ≤ state'.clock.counter.toNat) := by
    intro request state state' ⟨hstate, hle⟩ hguard hdispatch
    obtain ⟨⟨state', response⟩, hresult, rfl⟩ := map_eq_some_iff.mp hdispatch
    obtain ⟨hstate', hkeeps⟩ := hstate.step hguard hresult
    exact ⟨hstate', hle.trans hkeeps.forward⟩
  obtain ⟨hnode, hle⟩ := invariant hstep ⟨hstart, le_rfl⟩ hrequests hrun
  exact ⟨hle, (hnode.step hlast.1 hnext).2⟩

/-! ### One node -/

/-- `SET k v` with a timestamp that its sender chose. -/
def setAt (timestamp : UInt64) (authenticationType : AuthenticationType) : Request where
  authentication := ⟨[], false, false⟩
  operation := ⟨some [[107], [118]], timestamp, 2, OperatorNumbers.SET, false, false⟩
  requestNumber := 0
  authenticationType := authenticationType

theorem isSet_setAt (timestamp : UInt64) (authenticationType : AuthenticationType) :
    (setAt timestamp authenticationType).IsSet [107] [118] :=
  ⟨rfl, [], rfl⟩

theorem disciplined_emptyNode : (emptyNode .RUNNING 1).Disciplined firstNode := by
  constructor
  · rfl
  · rfl
  · intro p m hm
    simp only [emptyNode, ite_none_right_eq_some, some.injEq] at hm
    rw [← hm.2]
    exact Map.wellFormed_new _ _
  · intro p keyHash entry ⟨m, hm, hentry⟩
    simp only [emptyNode, ite_none_right_eq_some, some.injEq] at hm
    rw [← hm.2, Map.view_new] at hentry
    cases hentry

/-- A node's `SET` with the counter 5 takes the clock to 5, and the client's `SET` after it gets
    6. -/
theorem dispatched_sets_keep_discipline_two :
    ∃ node next response,
      run (dispatchStep firstNode fun _ => none) [setAt 5 .NODE] (emptyNode .RUNNING 1) =
        some node ∧
      dispatch firstNode (fun _ => none) (setAt 3 .USER) node = some (next, response) ∧
      node.clock.counter = 5 ∧ response.timestamp.counter = 6 ∧
      KeepsDiscipline firstNode (setAt 3 .USER) node next response := by
  obtain ⟨node, hnode, next, response, hnext, hclock, hcounter⟩ : ∃ node,
      run (dispatchStep firstNode fun _ => none) [setAt 5 .NODE] (emptyNode .RUNNING 1) =
        some node ∧
      ∃ next response, dispatch firstNode (fun _ => none) (setAt 3 .USER) node =
        some (next, response) ∧ node.clock.counter = 5 ∧ response.timestamp.counter = 6 := by
    decide +kernel
  have hroom : Guarded (dispatchStep firstNode fun _ => none) SetWithRoom
      ([setAt 5 .NODE] ++ [setAt 3 .USER]) (emptyNode .RUNNING 1) := by
    refine ⟨⟨⟨_, _, isSet_setAt _ _⟩, fun huser => absurd huser (by decide)⟩,
      fun state hstate => ?_⟩
    have hstate' : node = state := by
      rw [run, hstate] at hnode
      exact (some.inj hnode).symm
    rw [← hstate']
    refine ⟨⟨⟨_, _, isSet_setAt _ _⟩, fun _ => ?_⟩, fun _ _ => trivial⟩
    rw [hclock]
    decide
  exact ⟨node, next, response, hnode, hnext, hclock, hcounter,
    (dispatched_sets_keep_discipline firstNode _ _ [setAt 5 .NODE] node
      (setAt 3 .USER) next response disciplined_emptyNode hroom hnode hnext).2⟩

/-- A client that sends the greatest timestamp: its `SET` is stored under the counter 0, below the
    version 5 that the node held, and the clock goes back from 5 to 0. -/
theorem greatest_timestamp_resets_clock :
    ((run (dispatchStep firstNode fun _ => none) [setAt 5 .NODE] (emptyNode .RUNNING 1)).bind
      fun node => (dispatch firstNode (fun _ => none) (setAt 18446744073709551615 .USER) node).map
        fun result => (node.clock.counter, result.2.isSuccessful, result.2.timestamp.counter,
          result.1.clock.counter, result.1.read firstNode [107])) =
      some (5, true, 0, 0, some ⟨[118], ⟨1, 0⟩⟩) := by
  decide

end MemDb

import MemDb.Lib.Run
import MemDb.Operators.Writes

/-! # Delayed writes

    A `BOOTING` node keeps the writes it accepts in a buffer, and the first request it dispatches as
    a `RUNNING` node has the buffer executed before it. The buffer is taken here without the faults
    of its file format: it holds the serialized requests and gives them back from its end.

    So the delayed writes are executed in the reverse order, and as requests of a user, since the
    authentication type is not serialized. What is executed is what was dispatched when every
    request is one that survives and the operations read the same backwards.
-/

namespace MemDb

open List

section
variable (config : Configuration) (others : UInt8 → Option Operator)

/-! ### The buffer -/

/-- What survives the buffer: a request of a user whose fields survive their encoding. -/
structure Request.Survives (request : Request) : Prop where
  isUser : request.authenticationType = .USER
  encodable : request.Encodable
  nodeId : request.authentication.flag1 = true ∨ request.operation.nodeId = 1

theorem Request.Survives.received_operation {request : Request} (h : request.Survives) :
    request.received.operation = request.operation := by
  unfold Request.received
  rcases h.nodeId with hflag | hid
  · simp [hflag]
  · simp [← hid]

variable {delayed requests : List Request} {node : Node} {buffer : List (List UInt8)}

/-- While the node boots, the accepted writes are serialized into the buffer, in their order. -/
theorem dispatchAll_booting (hwrite : ∀ r ∈ delayed, r.IsWrite)
    (hreplication : config.useReplication = true) {node' : Node} {responses : List Response}
    (hboot : node.nodeState = .BOOTING)
    (h : dispatchAll config others delayed node = some (node', responses))
    (hsuccess : ∀ response ∈ responses, response.isSuccessful = true) :
    ∃ buffer, List.Forall₂ (fun request bytes => RequestSerializer.serialize request = some bytes)
        delayed buffer ∧
      node' = { node with delayedOperationsBuffer := node.delayedOperationsBuffer ++ buffer } := by
  induction delayed generalizing node responses with
  | nil =>
    cases h
    exact ⟨[], .nil, by rw [append_nil]⟩
  | cons request delayed ih =>
    simp only [dispatchAll, Option.bind_eq_bind, Option.bind_eq_some_iff] at h
    obtain ⟨⟨next, response⟩, hdispatch, ⟨last, rest⟩, hrest, hresult⟩ := h
    cases hresult
    obtain ⟨bytes, hbytes, rfl⟩ := dispatch_booting_success config others
      (hwrite request mem_cons_self) hreplication hboot hdispatch
      (hsuccess response mem_cons_self)
    have hboot' : Node.nodeState { node with
        delayedOperationsBuffer := node.delayedOperationsBuffer ++ [bytes] } = .BOOTING := hboot
    obtain ⟨buffer, hbuffer, hlast⟩ := ih (fun r hr => hwrite r (mem_cons_of_mem _ hr)) hboot'
      hrest (fun r hr => hsuccess r (mem_cons_of_mem _ hr))
    refine ⟨bytes :: buffer, .cons hbytes hbuffer, ?_⟩
    rw [hlast]
    simp

/-! ### Executing writes one after another -/

/-- Requests executed one after another on a `RUNNING` node. -/
def executeAll : List Request → Node → Option Node
  | [], node => some node
  | request :: requests, node =>
    (dispatchNoApplyDelayedOperationsBuffer config others request node).bind fun result =>
      executeAll requests result.1

section
variable (hwrite : ∀ r ∈ requests, r.IsWrite) (hrun : node.nodeState = .RUNNING)
include hwrite hrun

theorem executeAll_keeps {node' : Node} (h : executeAll config others requests node = some node') :
    node'.nodeState = .RUNNING ∧
      node'.delayedOperationsBuffer = node.delayedOperationsBuffer := by
  induction requests generalizing node with
  | nil =>
    cases h
    exact ⟨hrun, rfl⟩
  | cons request requests ih =>
    obtain ⟨⟨next, response⟩, hstep, hrest⟩ := Option.bind_eq_some_iff.mp h
    obtain ⟨hrun', hbuffer⟩ := dispatchNoApply_running_keeps config others
      (hwrite request mem_cons_self) hrun hstep
    obtain ⟨hrun'', hbuffer'⟩ := ih (fun r hr => hwrite r (mem_cons_of_mem _ hr)) hrun' hrest
    exact ⟨hrun'', hbuffer'.trans hbuffer⟩

/-- Dispatching writes on a `RUNNING` node executes them in their order. -/
theorem dispatchAll_running (hempty : node.delayedOperationsBuffer = []) :
    (dispatchAll config others requests node).map Prod.fst =
      executeAll config others requests node := by
  induction requests generalizing node with
  | nil => rfl
  | cons request requests ih =>
    rw [dispatchAll, executeAll, dispatch_running config others hrun hempty]
    cases hstep : dispatchNoApplyDelayedOperationsBuffer config others request node with
    | none => rfl
    | some result =>
      obtain ⟨next, response⟩ := result
      obtain ⟨hrun', hbuffer⟩ := dispatchNoApply_running_keeps config others
        (hwrite request mem_cons_self) hrun hstep
      have hrest := ih (fun r hr => hwrite r (mem_cons_of_mem _ hr)) hrun'
        (hbuffer.trans hempty)
      simp only [Option.bind_eq_bind, Option.bind_some, ← hrest]
      cases dispatchAll config others requests next <;> rfl

end

/-- The buffer is executed as the requests that its bytes stand for. -/
theorem applyDelayedOperations_eq
    (h : List.Forall₂ (fun bytes request => RequestDeserializer.deserialize bytes = some request)
      buffer requests) (node : Node) :
    applyDelayedOperations config others buffer node =
      executeAll config others requests node := by
  induction h generalizing node with
  | nil => rfl
  | cons hbytes _ ih =>
    rw [applyDelayedOperations, executeAll, hbytes]
    simp only [Option.bind_eq_bind, Option.bind_some, ih]

theorem executeAll_congr {requests' : List Request} (hwrite : ∀ r ∈ requests, r.IsWrite)
    (hoperation : requests.map (·.operation) = requests'.map (·.operation))
    (huser : ∀ r ∈ requests, r.authenticationType = .USER)
    (huser' : ∀ r ∈ requests', r.authenticationType = .USER) (hrun : node.nodeState = .RUNNING) :
    executeAll config others requests node =
      executeAll config others requests' node := by
  induction requests generalizing requests' node with
  | nil =>
    obtain rfl : requests' = [] := by simpa using hoperation.symm
    rfl
  | cons request requests ih =>
    match requests' with
    | [] => simp at hoperation
    | request' :: requests' =>
      simp only [map_cons, cons.injEq] at hoperation
      have hw := hwrite request mem_cons_self
      have htype : request.authenticationType = request'.authenticationType := by
        rw [huser request mem_cons_self, huser' request' mem_cons_self]
      rw [executeAll, executeAll,
        ← dispatchNoApply_running_congr config others hw hoperation.1 htype hrun]
      cases hstep : dispatchNoApplyDelayedOperationsBuffer config others request node with
      | none => rfl
      | some result =>
        obtain ⟨hrun', -⟩ := dispatchNoApply_running_keeps config others hw hrun hstep
        exact ih (fun r hr => hwrite r (mem_cons_of_mem _ hr)) hoperation.2
          (fun r hr => huser r (mem_cons_of_mem _ hr))
          (fun r hr => huser' r (mem_cons_of_mem _ hr)) hrun'

/-! ### Replay -/

/-- The buffer is executed as what its requests become on the way, the last one first. -/
theorem applyDelayedOperations_reverse
    (hbuffer : List.Forall₂ (fun request bytes => RequestSerializer.serialize request = some bytes)
      delayed buffer) (hsurvives : ∀ r ∈ delayed, r.Survives) (node : Node) :
    applyDelayedOperations config others buffer.reverse node =
      executeAll config others (delayed.map Request.received).reverse node := by
  apply applyDelayedOperations_eq
  rw [forall₂_reverse_iff]
  induction hbuffer with
  | nil => exact .nil
  | cons hbytes _ ih =>
    have htrip := Request.deserialize_serialize (hsurvives _ mem_cons_self).encodable
    rw [hbytes, Option.bind_some] at htrip
    exact .cons htrip (ih fun r hr => hsurvives r (mem_cons_of_mem _ hr))

/-- Writes that survive the buffer and read the same backwards are replayed faithfully: the first
    dispatch after booting ends as if they had been dispatched in their order on the `RUNNING`
    node. -/
theorem delayed_writes_replayed (hreplication : config.useReplication = true) {node : Node}
    (hboot : node.nodeState = .BOOTING) (hempty : node.delayedOperationsBuffer = [])
    {delayed : List Request} (hwrite : ∀ r ∈ delayed, r.IsWrite) {booted : Node}
    {responses : List Response}
    (haccepted : dispatchAll config others delayed node = some (booted, responses))
    (hsuccess : ∀ response ∈ responses, response.isSuccessful = true)
    (hsurvives : ∀ r ∈ delayed, r.Survives)
    (hbackwards : (delayed.map (·.operation)).reverse = delayed.map (·.operation))
    (request : Request) :
    dispatch config others request { booted with nodeState := .RUNNING } =
      (dispatchAll config others delayed { node with nodeState := .RUNNING }).bind
        fun result => dispatch config others request result.1 := by
  obtain ⟨buffer, hbuffer, rfl⟩ := dispatchAll_booting config others hwrite hreplication
    hboot haccepted hsuccess
  let running : Node := { node with nodeState := .RUNNING }
  have hrun : running.nodeState = .RUNNING := rfl
  have hreplay : applyDelayedOperations config others buffer.reverse running =
      executeAll config others delayed running := by
    rw [applyDelayedOperations_reverse config others hbuffer hsurvives]
    symm
    apply executeAll_congr config others hwrite
    · rw [← hbackwards, ← map_reverse, ← map_reverse, map_map]
      apply map_congr_left
      intro r hr
      exact (hsurvives r (mem_reverse.mp hr)).received_operation.symm
    · intro r hr
      exact (hsurvives r hr).isUser
    · intro r hr
      obtain ⟨r', -, rfl⟩ := mem_map.mp (mem_reverse.mp hr)
      rfl
    · exact hrun
  -- on the right, each dispatch meets an empty buffer
  have hdispatched := dispatchAll_running config others hwrite hrun hempty
  have hright : ((dispatchAll config others delayed running).bind fun result =>
      dispatch config others request result.1) =
      (executeAll config others delayed running).bind fun next =>
        dispatchNoApplyDelayedOperationsBuffer config others request next := by
    rw [← hdispatched]
    cases hall : dispatchAll config others delayed running with
    | none => rfl
    | some result =>
      rw [hall] at hdispatched
      obtain ⟨hrun', hbuffer'⟩ := executeAll_keeps config others hwrite hrun
        hdispatched.symm
      exact dispatch_running config others hrun' (hbuffer'.trans hempty)
  rw [hright, ← hreplay]
  -- on the left, the first dispatch empties the buffer
  have hnode : ({ node with nodeState := .RUNNING, delayedOperationsBuffer := [] } : Node) =
      running := by
    rw [← hempty]
  unfold dispatch applyDelayedOperationsBuffer
  rw [if_pos (by simp [canExecuteRequest])]
  simp only [hempty, nil_append]
  rw [hnode]

end

/-! ### One node -/

/-- `SET k value`, from a user or from node 2 with the counter 5. -/
def setRequest (authenticationType : AuthenticationType) (value : SimpleString) : Request where
  authentication := ⟨[], authenticationType == .NODE, false⟩
  operation :=
    { args := some [[107], value]
      timestamp := if authenticationType = .NODE then 5 else 0
      nodeId := if authenticationType = .NODE then 2 else 1
      operatorNumber := OperatorNumbers.SET
      flag1 := false
      flag2 := false }
  requestNumber := 0
  authenticationType := authenticationType

/-- `SET k v`, `SET k w` and `SET k v` of a user, which read the same backwards. -/
def backAndForth : List Request := [[118], [119], [118]].map (setRequest .USER)

/-- Three writes of a user are replayed as they were dispatched. -/
theorem delayed_writes_replayed_three : ∃ booted responses,
    dispatchAll firstNode (fun _ => none) backAndForth (emptyNode .BOOTING 1) =
      some (booted, responses) ∧
    ∀ request,
      dispatch firstNode (fun _ => none) request { booted with nodeState := .RUNNING } =
        (dispatchAll firstNode (fun _ => none) backAndForth (emptyNode .RUNNING 1)).bind
            fun result => dispatch firstNode (fun _ => none) request result.1 := by
  obtain ⟨booted, responses, hbooted, hresponses⟩ : ∃ booted responses, dispatchAll firstNode
      (fun _ => none) backAndForth (emptyNode .BOOTING 1) = some (booted, responses) ∧
      ∀ response ∈ responses, response.isSuccessful = true := by
    decide +kernel
  have hencodable : ∀ value ∈ [[118], [119], [118]], (setRequest .USER value).Encodable := by
    refine forall_mem_cons.mpr ⟨?_, forall_mem_cons.mpr ⟨?_, forall_mem_singleton.mpr ?_⟩⟩
    all_goals
      refine ⟨by decide, by decide, by decide, ⟨_, rfl, by decide⟩, ?_⟩
      rintro bytes ⟨⟩
      decide
  have hwrite : ∀ r ∈ backAndForth, r.IsWrite := forall_mem_map.mpr fun _ _ => .inl rfl
  have hsurvives : ∀ r ∈ backAndForth, r.Survives :=
    forall_mem_map.mpr fun value hvalue => ⟨rfl, hencodable value hvalue, .inr rfl⟩
  exact ⟨booted, responses, hbooted, delayed_writes_replayed firstNode (fun _ => none) rfl rfl rfl
    hwrite hbooted hresponses hsurvives rfl⟩

/-- The timestamp stored under a key. -/
def storedTimestamp (config : Configuration) (key : SimpleString) (node : Node) :
    Option LamportClock := do
  let store ← node.memDbStores 0
  let entry ← (← store.get config.calculateHash key)
  match entry.data with
  | .data d => some d.timestamp
  | .counter _ => none

/-- A request that no operator answers. -/
def unknownRequest : Request :=
  { setRequest .USER [118] with operation.operatorNumber := 0 }

/-- A `SET` from node 2 with the counter 5 is accepted while node 1 boots. Dispatched on the
    `RUNNING` node it is stored under the timestamp of node 2; replayed as a request of a user it is
    stored under a timestamp of node 1 and moves the clock further. -/
theorem node_write_replayed_as_user : ∃ booted,
    dispatchAll firstNode (fun _ => none) [setRequest .NODE [118]] (emptyNode .BOOTING 1) =
      some (booted, [Response.success]) ∧
    (dispatch firstNode (fun _ => none) unknownRequest { booted with nodeState := .RUNNING }).map
      (fun result => (storedTimestamp firstNode [107] result.1, result.1.clock)) =
      some (some ⟨1, 6⟩, ⟨1, 6⟩) ∧
    ((dispatchAll firstNode (fun _ => none) [setRequest .NODE [118]] (emptyNode .RUNNING 1)).bind
          fun result => dispatch firstNode (fun _ => none) unknownRequest result.1).map
      (fun result => (storedTimestamp firstNode [107] result.1, result.1.clock)) =
      some (some ⟨2, 5⟩, ⟨1, 5⟩) := by
  decide +kernel

end MemDb

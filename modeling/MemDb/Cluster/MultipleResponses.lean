import MemDb.Operators.Dispatcher

/-! # Responses of several nodes

    `MultipleResponses` of a broadcast: a response is kept under its node id and handed to the
    callbacks that are registered at that moment. Each of the two steps holds the lock. A callback
    is its name here, and the object records which callback was invoked with which response.

    `onResponse` does not look at the responses that are already there, so that a callback misses
    what came before it.
-/

namespace MemDb

open List hiding get

variable {Callback : Type}

structure MultipleResponses (Callback : Type) where
  responses : List (UInt16 × Response)
  onResponsesCallbacks : List Callback
  /-- The counter of `successfulResponsesLatch`. -/
  successfulResponses : Nat
  nTotalRequest : Int
  /-- The invocations of callbacks, in their order. -/
  invocations : List (Callback × Response)

namespace MultipleResponses

def new (nTotalRequest : Int) : MultipleResponses Callback := ⟨[], [], 0, nTotalRequest, []⟩

/-- A step under `responsesLock`. -/
inductive Step (Callback : Type) where
  | onResponse (callback : Callback)
  | addResponse (nodeId : UInt16) (response : Response)

def onResponse (self : MultipleResponses Callback) (callback : Callback) :
    MultipleResponses Callback :=
  { self with onResponsesCallbacks := self.onResponsesCallbacks ++ [callback] }

/-- `MultipleResponsesNotifier::addResponse`; `insert` keeps a response that is there already. -/
def addResponse (self : MultipleResponses Callback) (nodeId : UInt16) (response : Response) :
    MultipleResponses Callback :=
  { self with
    responses := if self.responses.any (·.1 == nodeId) then self.responses
      else self.responses ++ [(nodeId, response)]
    successfulResponses := self.successfulResponses + response.isSuccessful.toNat
    invocations := self.invocations ++ self.onResponsesCallbacks.map (·, response) }

def step (self : MultipleResponses Callback) : Step Callback → MultipleResponses Callback
  | .onResponse callback => self.onResponse callback
  | .addResponse nodeId response => self.addResponse nodeId response

def run (steps : List (Step Callback)) (self : MultipleResponses Callback) :
    MultipleResponses Callback :=
  steps.foldl step self

/-- The callbacks that the steps register. -/
def registered (steps : List (Step Callback)) : List Callback :=
  steps.filterMap fun
    | .onResponse callback => some callback
    | .addResponse _ _ => none

/-- The responses that the steps add. -/
def added (steps : List (Step Callback)) : List Response :=
  steps.filterMap fun
    | .onResponse _ => none
    | .addResponse _ response => some response

theorem onResponsesCallbacks_run (steps : List (Step Callback))
    (self : MultipleResponses Callback) :
    (run steps self).onResponsesCallbacks = self.onResponsesCallbacks ++ registered steps := by
  induction steps generalizing self with
  | nil => simp [run, registered]
  | cons first steps ih =>
    cases first with
    | onResponse callback => exact (ih (self.onResponse callback)).trans (append_assoc _ _ _)
    | addResponse nodeId response => exact ih (self.addResponse nodeId response)

variable [DecidableEq Callback]

/-- What a callback was invoked with. -/
def invokedWith (self : MultipleResponses Callback) (callback : Callback) : List Response :=
  (self.invocations.filter (·.1 == callback)).map (·.2)

/-- Every registered callback was invoked exactly once for each response. -/
def AllDelivered (steps : List (Step Callback)) (nTotalRequest : Int) : Prop :=
  ∀ callback ∈ registered steps, ((run steps (new nTotalRequest)).invokedWith callback).Perm
    (added steps)

theorem invokedWith_addResponse (self : MultipleResponses Callback) (callback : Callback)
    (nodeId : UInt16) (response : Response) :
    (self.addResponse nodeId response).invokedWith callback = self.invokedWith callback ++
      List.replicate (self.onResponsesCallbacks.count callback) response := by
  have hcalls : ((self.onResponsesCallbacks.map (·, response)).filter (·.1 == callback)).map (·.2) =
      replicate (self.onResponsesCallbacks.count callback) response := by
    rw [filter_map, map_map, count_eq_length_filter, eq_replicate_iff]
    simp [Function.comp_def]
  rw [invokedWith, addResponse, filter_append, map_append, hcalls, invokedWith]

/-- A callback that the steps do not register is invoked with each response as often as it stands in
    the list. -/
theorem invokedWith_run {callback : Callback} {steps : List (Step Callback)}
    (hsteps : callback ∉ registered steps) (self : MultipleResponses Callback) :
    (run steps self).invokedWith callback = self.invokedWith callback ++
      (added steps).flatMap (List.replicate (self.onResponsesCallbacks.count callback)) := by
  induction steps generalizing self with
  | nil => simp [run, added]
  | cons first steps ih =>
    cases first with
    | onResponse other =>
      obtain ⟨hother, hsteps⟩ := not_or.mp (mt mem_cons.mpr hsteps)
      have hcount : (self.onResponse other).onResponsesCallbacks.count callback =
          self.onResponsesCallbacks.count callback := by
        simp [onResponse, Ne.symm hother]
      exact (ih hsteps (self.onResponse other)).trans (by rw [hcount]; rfl)
    | addResponse nodeId response =>
      exact (ih hsteps (self.addResponse nodeId response)).trans (by
        rw [invokedWith_addResponse, append_assoc]
        rfl)

/-- All responses reach all callbacks exactly when every callback is registered before the first
    response is added. -/
theorem allDelivered_iff {steps : List (Step Callback)} (hsteps : (registered steps).Nodup)
    (nTotalRequest : Int) :
    AllDelivered steps nTotalRequest ↔
      ∀ first callback rest, steps = first ++ .onResponse callback :: rest → added first = [] := by
  -- a callback is invoked with what is added after it
  have hlate : ∀ first callback rest, steps = first ++ .onResponse callback :: rest →
      (run steps (new nTotalRequest)).invokedWith callback = added rest ∧
        added steps = added first ++ added rest := by
    intro first callback rest heq
    subst heq
    have hnodup : (registered first ++ callback :: registered rest).Nodup := by
      rwa [registered, filterMap_append] at hsteps
    obtain ⟨-, hcons, hdisjoint⟩ := nodup_append.mp hnodup
    have hfirst : callback ∉ registered first := fun hmem =>
      hdisjoint callback hmem callback mem_cons_self rfl
    have hbefore : (run first (new nTotalRequest)).invokedWith callback = [] := by
      rw [invokedWith_run hfirst]
      simp [new, invokedWith]
    have hcount : ((run first (new nTotalRequest)).onResponse callback).onResponsesCallbacks.count
        callback = 1 := by
      rw [onResponse, onResponsesCallbacks_run]
      simp [new, count_eq_zero_of_not_mem hfirst]
    have hafter := invokedWith_run (nodup_cons.mp hcons).1
      ((run first (new nTotalRequest)).onResponse callback)
    refine ⟨?_, filterMap_append⟩
    rw [hcount] at hafter
    rw [run, foldl_append]
    refine hafter.trans ?_
    rw [show ((run first (new nTotalRequest)).onResponse callback).invokedWith callback = []
      from hbefore]
    exact flatMap_singleton' _
  constructor
  · intro hall first callback rest heq
    obtain ⟨hinvoked, hadded⟩ := hlate first callback rest heq
    have hmem : callback ∈ registered steps := by simp [heq, registered]
    have hlength := (hall callback hmem).length_eq
    rw [hinvoked, hadded, length_append] at hlength
    exact eq_nil_of_length_eq_zero (by omega)
  · intro hfirst callback hmem
    obtain ⟨step, hstep, hcallback⟩ := mem_filterMap.mp hmem
    cases step with
    | addResponse => cases hcallback
    | onResponse other =>
      cases hcallback
      obtain ⟨first, rest, heq⟩ := append_of_mem hstep
      obtain ⟨hinvoked, hadded⟩ := hlate first callback rest heq
      rw [hinvoked, hadded, hfirst first callback rest heq, nil_append]

theorem allDelivered_registered_first :
    AllDelivered [.onResponse 0, .addResponse 2 .success, .addResponse 3 .success] 2 := by
  refine (allDelivered_iff (by decide) 2).mpr ?_
  intro first callback rest heq
  rcases first with _ | ⟨_, _ | ⟨_, _ | ⟨_, first⟩⟩⟩ <;> simp_all [added]

/-- The order of `replicate`: the requests are sent, a node answers, and then the callback is
    registered. -/
theorem not_allDelivered_answered_first :
    ¬ AllDelivered [.addResponse 2 .success, .onResponse 0, .addResponse 3 .success] 2 := by
  unfold AllDelivered
  decide

end MultipleResponses

end MemDb

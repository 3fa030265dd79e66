import MemDb.Cluster.CasExclusion

/-! # What a failed `CAS` leaves behind

    One call of `CAS`, any loss and order of its messages, and nothing else that concerns the key. A
    node stores the new value as soon as an `ACCEPT` reaches it, and nothing takes it back when the
    call does not get its quorum. So a call that has returned an error has left no trace exactly if
    every node that one of its `ACCEPT` messages has reached was in a state to refuse it.
-/

namespace MemDb

open Lib.Run CasCluster Option Function ErrorCode

section failure
variable {n : Nat} (configs : Fin n → Configuration) (key newValue : SimpleString) (i : Fin n)

/-- Before the call: no node stores a timestamp of node `i` for the key that the clock of `i` has
    not reached, and `i` itself stores nothing that is ahead of its clock. -/
structure CasCluster.Calm (cluster : CasCluster n) : Prop where
  ready : ∀ t, (cluster.nodes t).Ready
  nodeId : (cluster.nodes i).clock.nodeId = (configs i).nodeId
  covered : ∀ d, (cluster.nodes i).data ((configs i).calculateHash key) = some d →
    d.timestamp.counter.toNat ≤ (cluster.nodes i).clock.counter.toNat
  fresh : ∀ t d, (cluster.nodes t).data ((configs t).calculateHash key) = some d →
    d.timestamp.nodeId = (configs i).nodeId →
      d.timestamp.counter.toNat ≤ (cluster.nodes i).clock.counter.toNat
  calls : ∀ j, cluster.calls j = none
  exchanges : ∀ p b t, cluster.exchanges p b t = .unsent

/-- Only node `i` is called, nothing else concerns the key, and no counter wraps. -/
def CasEvent.OfOneCall : CasEvent n → CasCluster n → Prop
  | .call j _, cluster => j = i ∧ (cluster.nodes j).clock.counter.toNat + 1 < 2 ^ 64
  | .retry j, cluster => ∀ call, cluster.calls j = some call →
    call.nextTimestamp.counter.toNat + 1 < 2 ^ 64
  | .other j after, cluster => after.Ready ∧
    after.view ((configs j).calculateHash key) =
      (cluster.nodes j).view ((configs j).calculateHash key)
  | _, _ => True

/-- The timestamps that the call has proposed so far, when it has started from this clock. -/
def CasCall.Proposed (call : CasCall) (clock : LamportClock) (timestamp : LamportClock) : Prop :=
  timestamp.nodeId = call.nextTimestamp.nodeId ∧
    clock.counter.toNat < timestamp.counter.toNat ∧
    timestamp.counter.toNat ≤ call.nextTimestamp.counter.toNat

/-! ### The invariant -/

variable (start : CasCluster n)

/-- The call of node `i` has read what that stored at the start, and proposes a timestamp above the
    clock. -/
structure CasProposal.Attempts (j : Fin n) (proposal : CasProposal) : Prop where
  own : j = i
  reads : ∃ d, (start.nodes i).Stores ((configs i).calculateHash key) d
  prev : proposal.prevTimestamp.counter.toNat ≤ (start.nodes i).clock.counter.toNat
  above : (start.nodes i).clock.counter.toNat < proposal.nextTimestamp.counter.toNat
  nodeId : proposal.nextTimestamp.nodeId = (configs i).nodeId
  key : proposal.key = key
  newValue : proposal.newValue = newValue

/-- The node stores for the key what it stored at the start. -/
def CasSummary.Keeps (s : CasSummary n) (t : Fin n) : Prop :=
  (s.nodes t).view ((configs t).calculateHash key) =
    (start.nodes t).view ((configs t).calculateHash key)

def CasSummary.Untouched (s : CasSummary n) : Prop := ∀ t, t ≠ i → s.Keeps configs key start t

/-- Another node stores what it stored at the start, or the new value once `ACCEPT` has been
    sent. -/
structure CasSummary.Calling (s : CasSummary n) : Prop where
  ready : ∀ t, (s.nodes t).Ready
  called : (s.calls i).isSome
  calls : ∀ j call, s.calls j = some call → j = i ∧ call.nextTimestamp.nodeId = (configs i).nodeId
  proposer : (∀ call, s.calls i = some call → call.successful = false) → s.Keeps configs key start i
  stored : ∀ t, t ≠ i → s.Keeps configs key start t ∨ ∃ call, s.calls i = some call ∧
    call.state ≠ .WAITING_FOR_PROMISE ∧
    (start.nodes i).clock.counter.toNat < call.nextTimestamp.counter.toNat ∧
    (s.nodes t).Stores ((configs t).calculateHash key) ⟨newValue, call.nextTimestamp⟩

end failure

section moves
variable {n : Nat} {configs : Fin n → Configuration} {key newValue : SimpleString} {i : Fin n}
  {start cluster cluster' : CasCluster n} {s s' : CasSummary n} {call call' : CasCall} {t : Fin n}
  {node : Node} {event : CasEvent n}

/-- What the call has proposed is not stored at the start. -/
theorem CasCluster.Calm.not_keeps (hcalm : start.Calm configs key i) {d : DataAVLNode}
    (hd : (s.nodes t).data ((configs t).calculateHash key) = some d)
    (hid : d.timestamp.nodeId = (configs i).nodeId)
    (habove : (start.nodes i).clock.counter.toNat < d.timestamp.counter.toNat) :
    ¬ s.Keeps configs key start t := by
  intro hkeeps
  unfold Node.data at hd
  rw [hkeeps] at hd
  have hle := hcalm.fresh t d hd hid
  omega

theorem CasProposal.Attempts.nodeId_own {j : Fin n} {proposal : CasProposal}
    (h : proposal.Attempts configs key newValue i start j) :
    proposal.nextTimestamp.nodeId = (configs j).nodeId := by
  rw [h.own]
  exact h.nodeId

/-- What an attempt of the call proposes. -/
theorem CasProposal.Attempts.of_before (hcalm : start.Calm configs key i) {before : CasCall}
    (hkey : before.key = key) (hvalue : before.newValue = newValue)
    (hnodeId : before.nextTimestamp.nodeId = (configs i).nodeId)
    (hcounter : (start.nodes i).clock.counter.toNat ≤ before.nextTimestamp.counter.toNat)
    (hwraps : before.nextTimestamp.counter.toNat + 1 < 2 ^ 64) {prevTimestamp : LamportClock}
    (hstored : (start.nodes i).Stores ((configs i).calculateHash before.key)
      ⟨before.expectedValue, prevTimestamp⟩) :
    (before.next prevTimestamp).Attempts configs key newValue i start i := by
  rw [hkey] at hstored
  refine ⟨rfl, ⟨_, hstored⟩, hcalm.covered _ hstored.data, ?_, hnodeId, hkey, hvalue⟩
  show (start.nodes i).clock.counter.toNat < (before.nextTimestamp.counter + 1).toNat
  rw [UInt64.toNat_add, show (1 : UInt64).toNat = 1 from rfl, Nat.mod_eq_of_lt hwraps]
  omega

/-- After an attempt every node stores what it stored at the start. -/
theorem CasSummary.Calling.of_attempt (hready : ∀ t, (s.nodes t).Ready)
    (halone : ∀ j, j ≠ i → s.calls j = none)
    (hnodeId : call.nextTimestamp.nodeId = (configs i).nodeId)
    (hkeeps : ∀ t, s.Keeps configs key start t) :
    CasSummary.Calling configs key newValue i start
      { s with calls := update s.calls i (some call) } := by
  refine ⟨hready, ?_, ?_, fun _ => hkeeps i, fun t _ => .inl (hkeeps t)⟩
  · simp
  · intro j c hc
    rcases update_calls hc with ⟨rfl, rfl⟩ | ⟨hj, hold⟩
    · exact ⟨rfl, hnodeId⟩
    · cases (halone j hj).symm.trans hold

section
variable (h : s.Calling configs key newValue i start)
include h

theorem CasSummary.Calling.alone (j : Fin n) (hj : j ≠ i) : s.calls j = none := by
  cases hcall : s.calls j with
  | none => rfl
  | some call => exact absurd (h.calls j call hcall).1 hj

/-- Before `ACCEPT` is sent. -/
theorem CasSummary.Calling.keeps (hcall : s.calls i = some call)
    (hresponse : call.response = none) (hstate : call.state = .WAITING_FOR_PROMISE) (t : Fin n) :
    s.Keeps configs key start t := by
  by_cases ht : t = i
  · subst ht
    refine h.proposer fun c hc => ?_
    cases hcall.symm.trans hc
    simp [CasCall.successful, hresponse]
  · refine (h.stored t ht).resolve_right ?_
    rintro ⟨c, hc, hne, -⟩
    cases hcall.symm.trans hc
    exact hne hstate

/-- The call goes on with its proposal. -/
theorem CasSummary.Calling.setCall (hcall : s.calls i = some call)
    (hproposal : call'.toCasProposal = call.toCasProposal)
    (hstate : call'.state ≠ .WAITING_FOR_PROMISE)
    (hkeeps : call'.successful = false → s.Keeps configs key start i) :
    CasSummary.Calling configs key newValue i start
      { s with calls := update s.calls i (some call') } := by
  refine ⟨h.ready, ?_, ?_, ?_, ?_⟩
  · simp
  · intro j c hc
    rcases update_calls hc with ⟨rfl, rfl⟩ | ⟨-, hold⟩
    · rw [hproposal]
      exact h.calls j call hcall
    · exact h.calls j c hold
  · intro hfailed
    exact hkeeps (hfailed call' (update_self ..))
  · intro t ht
    refine (h.stored t ht).imp_right ?_
    rintro ⟨c, hc, -, habove, hstores⟩
    cases hcall.symm.trans hc
    rw [← hproposal] at habove hstores
    exact ⟨call', update_self .., hstate, habove, hstores⟩

/-- A node changes: it keeps its entry for the key, or it is another one that stores the new value,
    or the call has succeeded. -/
theorem CasSummary.Calling.setNode (hready : node.Ready) (accepted : Fin n → Fin n → Prop)
    (hnode : node.view ((configs t).calculateHash key) =
        (s.nodes t).view ((configs t).calculateHash key) ∨
      ∃ call, s.calls i = some call ∧ (t = i ∧ call.successful = true ∨
        t ≠ i ∧ call.state ≠ .WAITING_FOR_PROMISE ∧
        (start.nodes i).clock.counter.toNat < call.nextTimestamp.counter.toNat ∧
        node.Stores ((configs t).calculateHash key) ⟨newValue, call.nextTimestamp⟩)) :
    CasSummary.Calling configs key newValue i start
      { s with nodes := update s.nodes t node, accepted } := by
  refine ⟨(forall_update_iff _ fun _ (node : Node) => node.Ready).mpr
    ⟨hready, fun r _ => h.ready r⟩, h.called, h.calls, ?_, ?_⟩
  · intro hfailed
    refine Eq.trans ?_ (h.proposer hfailed)
    show (update s.nodes t node i).view _ = _
    -- the proposer writes only in a commit, which ends the call with success
    by_cases hi : i = t
    · subst hi
      rw [update_self]
      refine hnode.resolve_right ?_
      rintro ⟨call, hcall, ⟨-, hsuccess⟩ | ⟨hne, -⟩⟩
      · cases (hfailed call hcall).symm.trans hsuccess
      · exact hne rfl
    · rw [update_of_ne hi]
  · intro r hr
    show (update s.nodes t node r).view _ = _ ∨ ∃ call, _ ∧ _ ∧ _ ∧
      (update s.nodes t node r).Stores _ _
    by_cases hrt : r = t
    · subst hrt
      rw [update_self]
      rcases hnode with hview | ⟨call, hcall, ⟨hri, -⟩ | ⟨-, hstores⟩⟩
      · refine (h.stored r hr).imp hview.trans ?_
        rintro ⟨c, hc, hne, habove, hstores⟩
        exact ⟨c, hc, hne, habove, hstores.congr hview⟩
      · exact absurd hri hr
      · exact .inr ⟨call, hcall, hstores⟩
    · rw [update_of_ne hrt]
      exact h.stored r hr

end

/-- The node of the call changes, or one that keeps its entry for the key. -/
theorem untouched_setNode (hnodes : s'.nodes = update s.nodes t node)
    (hview : t ≠ i → node.view ((configs t).calculateHash key) =
      (s.nodes t).view ((configs t).calculateHash key)) :
    s'.Untouched configs key i start ↔ s.Untouched configs key i start := by
  refine forall_congr' fun r => imp_congr_right fun hr => ?_
  unfold CasSummary.Keeps
  rw [hnodes]
  by_cases hrt : r = t
  · subst hrt
    rw [update_self, hview hr]
  · rw [update_of_ne hrt]

/-- Every move goes on with the call, and leaves every other node as it was exactly if no `ACCEPT`
    arrives that is not refused. -/
theorem CasSummary.Calling.moves (hconfigs : Replicated configs) (hcalm : start.Calm configs key i)
    (hwired : cluster.Wired configs (CasProposal.Attempts configs key newValue i start))
    (h : cluster.summary.Calling configs key newValue i start)
    (hevent : event.OfOneCall configs key i cluster)
    (hmoves : cluster.Moves configs (CasProposal.Attempts configs key newValue i start) event s) :
    s.Calling configs key newValue i start ∧ (s.Untouched configs key i start ↔
      cluster.summary.Untouched configs key i start ∧ event.Refused configs cluster) := by
  cases hmoves with
  | @attempt _ j before call sent hbefore hrenewed hnone =>
    cases hbefore with
    | call hnone =>
      obtain ⟨rfl, -⟩ := hevent
      have hcalled : (cluster.calls j).isSome := h.called
      simp [hnone] at hcalled
    | retry hwaiting =>
      obtain ⟨hcall, hresponse, hstate⟩ := waiting_eq_some hwaiting
      obtain ⟨rfl, hnodeId⟩ := h.calls j before hcall
      refine ⟨.of_attempt h.ready h.alone ?_ (h.keeps hcall hresponse hstate),
        (and_iff_left trivial).symm⟩
      cases hrenewed with
      | fails => exact hnodeId
      | proposes => exact hnodeId
  | @propose j call hwaiting hnone =>
    obtain ⟨hcall, hresponse, hstate⟩ := waiting_eq_some hwaiting
    obtain ⟨rfl, -⟩ := h.calls j call hcall
    exact ⟨h.setCall hcall rfl (by simp [CasCall.accept])
      (fun _ => h.keeps hcall hresponse hstate j), (and_iff_left trivial).symm⟩
  | @promise p t b rounds hrefused =>
    have hready := h.ready t
    have hpromised : Node.Ready { cluster.nodes t with paxosRoundsAcceptatorByKeyHash := rounds } :=
      ⟨hready.running, hready.buffer, hready.outbox, hready.store⟩
    have hsame : CasSummary.Untouched configs key i start { cluster.summary with
        nodes := update cluster.nodes t
          { cluster.nodes t with paxosRoundsAcceptatorByKeyHash := rounds } } ↔
        cluster.summary.Untouched configs key i start := untouched_setNode rfl fun _ => rfl
    exact ⟨h.setNode hpromised _ (.inl rfl), hsame.trans (and_iff_left hrefused).symm⟩
  | @accept p t b c d result node hpt hc hattempts hstate hrequest hrefused hd hle hwrites =>
    obtain ⟨rfl, -, hprev, habove, hid, hkey, hvalue⟩ := hattempts
    rw [hkey] at hd hwrites
    rw [hvalue] at hwrites
    -- the proposal is above all that the call has read, so that it is written
    obtain ⟨-, -, hview, -⟩ := hwrites.cases.resolve_right fun hnewer => by
      have hcounter := LamportClock.counter_le (hnewer.1.le.trans hle)
      omega
    have hstores := hd.put key hview
    refine ⟨h.setNode hwrites.ready _ (.inr ⟨c, hc, .inr ⟨hpt.symm, hstate, habove, hstores⟩⟩),
      iff_of_false (fun huntouched => ?_) (fun hboth => hrefused hboth.2)⟩
    have hdata : (update cluster.nodes t node t).data ((configs t).calculateHash key) =
        some ⟨newValue, c.nextTimestamp⟩ := by
      rw [update_self]
      exact hstores.data
    exact hcalm.not_keeps hdata hid habove (huntouched t hpt.symm)
  | returned => exact ⟨h, (and_iff_left trivial).symm⟩
  | failed => exact ⟨h, (and_iff_left trivial).symm⟩
  | @abort j call hwaiting =>
    obtain ⟨hcall, hresponse, -⟩ := waiting_eq_some hwaiting
    obtain ⟨rfl, -⟩ := h.calls j call hcall
    refine ⟨h.setCall hcall rfl (by simp [CasCall.abort]) (fun _ => h.proposer fun c hc => ?_),
      (and_iff_left trivial).symm⟩
    cases hcall.symm.trans hc
    simp [CasCall.successful, hresponse]
  | @commit j call call' node hwaiting hquorum hcommit =>
    obtain ⟨hcall, hresponse, -⟩ := waiting_eq_some hwaiting
    obtain ⟨rfl, -⟩ := h.calls j call hcall
    obtain ⟨-, ⟨d, hd⟩, -, -, -, hkey, -⟩ := hwired.calls j call hcall hresponse
    have hkeeps : cluster.summary.Keeps configs key start j := by
      refine h.proposer fun c hc => ?_
      cases hcall.symm.trans hc
      simp [CasCall.successful, hresponse]
    have hd' := hd.congr hkeeps
    rw [← hkey] at hd'
    obtain ⟨result, hwrites, rfl⟩ := commit_cases (h.ready j) (hconfigs.usePartitions j) hd' hcommit
    refine ⟨?_, (untouched_setNode rfl fun hne => absurd rfl hne).trans (and_iff_left trivial).symm⟩
    cases result with
    | some edit =>
      have hcommitted : CasSummary.Calling configs key newValue j start { cluster.summary with
          calls := update cluster.calls j (some { call with
            state := .COMITTED, response := some Response.success }) } :=
        h.setCall hcall rfl (by simp) (fun hfailed => by cases hfailed)
      exact hcommitted.setNode hwrites.ready _ (.inr ⟨_, update_self .., .inl ⟨rfl, rfl⟩⟩)
    | none =>
      -- a write that fails leaves what the node has
      obtain ⟨-, -, hview, -⟩ := hwrites.cases.resolve_left fun hstored => by cases hstored.2.1
      have haborted : CasSummary.Calling configs key newValue j start
          { cluster.summary with calls := update cluster.calls j (some call.abort) } :=
        h.setCall hcall rfl (by simp [CasCall.abort]) (fun _ => hkeeps)
      exact haborted.setNode hwrites.ready _ (.inl (congrFun hview _))
  | other =>
    exact ⟨h.setNode hevent.1 _ (.inl hevent.2),
      (untouched_setNode rfl fun _ => hevent.2).trans (and_iff_left trivial).symm⟩

end moves

/-! ### Runs -/

section runs
variable {n : Nat} {configs : Fin n → Configuration} {key newValue : SimpleString} {i : Fin n}
  {start cluster cluster' : CasCluster n}

/-- The requests of the call are in order, and the nodes store what they should. -/
structure CasCluster.Calling (cluster : CasCluster n) (configs : Fin n → Configuration)
    (key newValue : SimpleString) (i : Fin n) (start : CasCluster n) : Prop where
  wired : cluster.Wired configs (CasProposal.Attempts configs key newValue i start)
  calling : cluster.summary.Calling configs key newValue i start

theorem CasCluster.Calling.step (hconfigs : Replicated configs) (hcalm : start.Calm configs key i)
    (h : cluster.Calling configs key newValue i start) {event : CasEvent n}
    (hevent : event.OfOneCall configs key i cluster)
    (hstep : CasCluster.step configs event cluster = some cluster') :
    cluster'.Calling configs key newValue i start ∧
    (cluster'.summary.Untouched configs key i start ↔
      cluster.summary.Untouched configs key i start ∧ event.Refused configs cluster) := by
  have hproposes : cluster.Proposes configs (CasProposal.Attempts configs key newValue i start)
      event := by
    intro j before prevTimestamp hbefore hstored
    cases hbefore with
    | call hnone =>
      obtain ⟨rfl, -⟩ := hevent
      have hcalled : (cluster.calls j).isSome := h.calling.called
      simp [hnone] at hcalled
    | retry hwaiting =>
      obtain ⟨hcall, hresponse, hstate⟩ := waiting_eq_some hwaiting
      obtain ⟨rfl, -, -, habove, hnodeId, hkey, hvalue⟩ := h.wired.calls j before hcall hresponse
      have hkeeps := h.calling.keeps hcall hresponse hstate j
      refine .of_before hcalm hkey hvalue hnodeId habove.le (hevent before hcall) ?_
      rw [hkey] at hstored ⊢
      exact hstored.congr hkeeps.symm
  obtain ⟨hwired, hmoves⟩ :=
    h.wired.step hconfigs h.calling.ready (fun _ _ hP => hP.nodeId_own) hproposes hstep
  obtain ⟨hcalling, huntouched⟩ := h.calling.moves hconfigs hcalm h.wired hevent hmoves
  exact ⟨⟨hwired, hcalling⟩, huntouched⟩

/-- The call is made. -/
theorem CasCluster.Calm.call (hconfigs : Replicated configs) (h : start.Calm configs key i)
    (hwraps : (start.nodes i).clock.counter.toNat + 1 < 2 ^ 64) {operation : OperationBody}
    {expected : SimpleString} {rest : List SimpleString}
    (hargs : operation.args = some (key :: expected :: newValue :: rest))
    (hstep : CasCluster.step configs (.call i operation) start = some cluster) :
    cluster.Calling configs key newValue i start ∧
      cluster.summary.Untouched configs key i start := by
  have hstart : ∀ before, CasCall.start operation (start.nodes i).clock = some before → before =
      ⟨⟨key, expected, newValue, ⟨0, 0⟩, (start.nodes i).clock⟩, .WAITING_FOR_PROMISE, 0,
        none⟩ := by
    intro before hbefore
    simp only [CasCall.start, OperationBody.getArg, hargs] at hbefore
    exact (some.inj hbefore).symm
  -- the call is the first in the cluster, and its attempt the only one of the step
  have hproposes : start.Proposes configs (CasProposal.Attempts configs key newValue i start)
      (.call i operation) := by
    intro j before prevTimestamp hbefore hstored
    cases hbefore with
    | call _ hbefore =>
      obtain rfl := hstart _ hbefore
      exact .of_before h rfl rfl h.nodeId (le_refl _) hwraps hstored
  obtain ⟨hwired, hmoves⟩ := (wired_start h.exchanges h.calls).step hconfigs h.ready
    (fun _ _ hP => hP.nodeId_own) hproposes hstep
  have hcalling : ∀ s, start.Moves configs (CasProposal.Attempts configs key newValue i start)
        (.call i operation) s →
      s.Calling configs key newValue i start ∧ s.Untouched configs key i start := by
    intro s hmoves
    cases hmoves with
    | attempt hbefore hrenewed hnone =>
      cases hbefore with
      | call _ hbefore =>
        obtain rfl := hstart _ hbefore
        refine ⟨.of_attempt h.ready (fun j _ => h.calls j) ?_ (fun _ => rfl), fun _ _ => rfl⟩
        cases hrenewed with
        | fails => exact h.nodeId
        | proposes => exact h.nodeId
  obtain ⟨hcalling, huntouched⟩ := hcalling _ hmoves
  exact ⟨⟨hwired, hcalling⟩, huntouched⟩

/-- A call that has returned an error has left its value nowhere, under any timestamp that it has
    proposed, exactly if every `ACCEPT` that has arrived found its target in a state to refuse
    it. -/
theorem failed_cas_without_effect_iff (hconfigs : Replicated configs) {start final : CasCluster n}
    (hcalm : start.Calm configs key i) {operation : OperationBody}
    {expected newValue : SimpleString} {rest : List SimpleString}
    (hargs : operation.args = some (key :: expected :: newValue :: rest))
    {events : List (CasEvent n)}
    (hevents : Guarded (CasCluster.step configs) (CasEvent.OfOneCall configs key i)
      (.call i operation :: events) start)
    (hrun : run (CasCluster.step configs) (.call i operation :: events) start = some final)
    {call : CasCall} {response : Response} (hcall : final.calls i = some call)
    (hresponse : call.response = some response) (hfailed : response.isSuccessful = false) :
    (∀ t d, (final.nodes t).read (configs t) key = some d →
      ¬ (d.value = newValue ∧ call.Proposed (start.nodes i).clock d.timestamp)) ↔
    Guarded (CasCluster.step configs) (CasEvent.Refused configs) (.call i operation :: events)
      start := by
  obtain ⟨called, hcalled, hrest⟩ := run_cons_eq_some.mp hrun
  obtain ⟨hfirst, hnone⟩ := hcalm.call hconfigs hevents.1.2 hargs hcalled
  have hstep : ∀ event (cluster cluster' : CasCluster n),
      cluster.Calling configs key newValue i start → event.OfOneCall configs key i cluster →
      step configs event cluster = some cluster' →
      cluster'.Calling configs key newValue i start ∧
      (cluster'.summary.Untouched configs key i start ↔
        cluster.summary.Untouched configs key i start ∧ event.Refused configs cluster) :=
    fun _ _ _ h hevent hstep => h.step hconfigs hcalm hevent hstep
  have hallowed := hevents.2 called hcalled
  obtain ⟨-, hcalling⟩ := invariant (fun event cluster cluster' h hevent hnext =>
    (hstep event cluster cluster' h hevent hnext).1) hfirst hallowed hrest
  have hkept : final.summary.Untouched configs key i start ↔
      Guarded (step configs) (CasEvent.Refused configs) (.call i operation :: events) start := by
    rw [kept_iff hstep hfirst hallowed hrest]
    simp [Guarded, hcalled, hnone, CasEvent.Refused]
  rw [← hkept]
  have hread : ∀ t, (final.nodes t).read (configs t) key =
      (final.nodes t).data ((configs t).calculateHash key) := fun t => (hcalling.ready t).read _ _
  have hid := (hcalling.calls i call hcall).2
  constructor
  · intro hnone t ht
    refine (hcalling.stored t ht).resolve_right ?_
    rintro ⟨c, hc, -, habove, hstores⟩
    cases hcall.symm.trans hc
    exact hnone t _ ((hread t).trans hstores.data) ⟨rfl, rfl, habove, le_refl _⟩
  · rintro huntouched t d hd ⟨-, hproposed, habove, -⟩
    rw [hread] at hd
    -- an entry as at the start bears no timestamp of the call
    refine hcalm.not_keeps (s := final.summary) hd (hproposed.trans hid) habove ?_
    by_cases ht : t = i
    · subst ht
      refine hcalling.proposer fun c hc => ?_
      cases hcall.symm.trans hc
      simp [CasCall.successful, hresponse, hfailed]
    · exact huntouched t ht

theorem CasCluster.Starts.calm {expected : SimpleString} {base : LamportClock}
    {cluster : CasCluster n}
    (h : cluster.Starts configs key expected base) (i : Fin n) : cluster.Calm configs key i := by
  have hdata : ∀ t d, (cluster.nodes t).data ((configs t).calculateHash key) = some d →
      d.timestamp = base := by
    intro t d hd
    cases (h.stored t).data.symm.trans hd
    rfl
  refine ⟨h.ready, h.nodeId i, ?_, ?_, h.calls, h.exchanges⟩
  · intro d hd
    rw [hdata i d hd]
    exact h.clock i
  · intro t d hd _
    rw [hdata t d hd]
    exact h.clock i

/-- Node 3 promises, and the `ACCEPT` messages get lost. -/
def acceptsLost (i k : Fin 3) : List (CasEvent 3) :=
  [.call i (casOfZero [1]), .request i 1 k, .response i 1 k, .promised i, .timeout i]

theorem failed_cas_without_effect_three :
    ∃ final call, run (CasCluster.step (numberedNodes 3)) (acceptsLost 0 2) (zeroCluster 3) =
      some final ∧ final.calls 0 = some call ∧ call.response = some (Response.error CAS_FAILED) ∧
      Guarded (CasCluster.step (numberedNodes 3)) (CasEvent.Refused (numberedNodes 3))
        (acceptsLost 0 2) (zeroCluster 3) := by
  obtain ⟨final, hrun, call, hcall, hresponse, hreads⟩ : ∃ final,
      run (step (numberedNodes 3)) (acceptsLost 0 2) (zeroCluster 3) = some final ∧
      ∃ call, final.calls 0 = some call ∧ call.response = some (Response.error CAS_FAILED) ∧
        ∀ t, (final.nodes t).read (numberedNodes 3 t) [107] = some ⟨[0], ⟨1, 1⟩⟩ := by
    decide +kernel
  have hevents : ∀ event ∈ (acceptsLost 0 2).tail, ∀ cluster,
      event.OfOneCall (numberedNodes 3) [107] 0 cluster := by
    intro event hevent cluster
    unfold acceptsLost at hevent
    fin_cases hevent <;> exact trivial
  refine ⟨final, call, hrun, hcall, hresponse, ?_⟩
  refine (failed_cas_without_effect_iff (replicated_numberedNodes 3) ((starts_zeroCluster 3).calm 0)
    rfl ⟨⟨rfl, by decide⟩, fun _ _ => Guarded.of_forall hevents _⟩ hrun
    hcall hresponse rfl).mp ?_
  intro t d hread heffect
  cases (hreads t).symm.trans hread
  exact absurd heffect.1 (by decide)

/-- Node 3 accepts, but its response does not arrive in time. -/
def acceptedTooLate (i k : Fin 3) : List (CasEvent 3) :=
  [.call i (casOfZero [1]), .request i 1 k, .response i 1 k, .promised i, .request i 2 k,
    .timeout i]

/-- The call returns an error, and node 3 stores its value under its timestamp. -/
theorem failed_cas_is_stored :
    (zeroCluster 3).Calm (numberedNodes 3) [107] 0 ∧
      (run (CasCluster.step (numberedNodes 3)) (acceptedTooLate 0 2) (zeroCluster 3)).any
        (fun final =>
        (final.calls 0).any (fun call =>
          call.response == some (Response.error CAS_FAILED) &&
            call.nextTimestamp == ⟨1, 2⟩) &&
        (final.nodes 2).read (numberedNodes 3 2) [107] == some ⟨[1], ⟨1, 2⟩⟩) = true := by
  refine ⟨(starts_zeroCluster 3).calm 0, ?_⟩
  decide

end runs

end MemDb

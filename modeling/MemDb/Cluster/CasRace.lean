import MemDb.Cluster.CasCalls

/-! # Calls of `CAS` that race

    All nodes of a cluster store one value under one timestamp, and clients call `CAS` on it at
    several nodes. This is an election: the calls are its candidates, and the timestamp that a node
    stores is its stamp. `Racing` holds as long as the election is sound, and every safe move keeps
    it so.
-/

namespace MemDb

open Lib.Election CasCluster Option Function

/-! ### The election -/

section
variable {n : Nat} (configs : Fin n → Configuration) (key expected : SimpleString)
  (base : LamportClock)

def CasSummary.election (s : CasSummary n) : State (Fin n) LamportClock where
  stamp i := (((s.nodes i).data ((configs i).calculateHash key)).map (·.timestamp)).getD default
  number i := ((s.calls i).map (·.nextTimestamp)).getD default
  runs i := ∃ call, s.calls i = some call ∧ call.response = none
  won i := ∃ call, s.calls i = some call ∧ call.successful = true
  accepted := s.accepted

/-! ### The invariant -/

/-- The node stores the expected value under the timestamp `base`, or another value that was written
    after it. -/
structure Node.Contends (config : Configuration) (node : Node) : Prop where
  ready : node.Ready
  nodeId : node.clock.nodeId = config.nodeId
  clock : base.counter.toNat ≤ node.clock.counter.toNat
  stored : ∃ d, node.Stores (config.calculateHash key) d ∧
    (d = ⟨expected, base⟩ ∨ base < d.timestamp ∧ d.value ≠ expected)

/-- The expected value was read under `base`, and another one is proposed above it. -/
structure CasProposal.Competes (config : Configuration) (proposal : CasProposal) : Prop where
  key : proposal.key = key
  expectedValue : proposal.expectedValue = expected
  newValue : proposal.newValue ≠ expected
  prevTimestamp : proposal.prevTimestamp = base
  nodeId : proposal.nextTimestamp.nodeId = config.nodeId
  above : base < proposal.nextTimestamp

structure Racing (cluster : CasCluster n) : Prop where
  nodes : ∀ i, (cluster.nodes i).Contends key expected base (configs i)
  wired : cluster.Wired configs fun i => CasProposal.Competes key expected base (configs i)
  genuine : ∀ p b t, (cluster.exchanges p b t).Genuine
  sound : Sound base (cluster.summary.election configs key)

/-! ### Conditions on events -/

/-- Every call expects the same value and brings another one. Besides the calls nothing concerns the
    key: the node keeps its entry, and its clock does not go back. -/
def CasEvent.InRace : CasEvent n → CasCluster n → Prop
  | .call _ operation, _ => ∃ newValue rest,
    operation.args = some (key :: expected :: newValue :: rest) ∧ newValue ≠ expected
  | .other i after, cluster => after.Ready ∧
    after.view ((configs i).calculateHash key) =
      (cluster.nodes i).view ((configs i).calculateHash key) ∧
    after.clock.nodeId = (cluster.nodes i).clock.nodeId ∧
    (cluster.nodes i).clock.counter.toNat ≤ after.clock.counter.toNat
  | _, _ => True

/-- What an `ACCEPT` must find at its target: a call of its own there that runs has no higher
    timestamp. -/
def CasCluster.yields (request : Request) (t : Fin n) (cluster : CasCluster n) : Bool :=
  request.operation.operatorNumber != OperatorNumbers.CAS_ACCEPT ||
    (request.operation.getTimestampArg 5).all fun nextTimestamp =>
      (cluster.calls t).all fun call =>
        call.response != none || decide (call.nextTimestamp ≤ nextTimestamp)

/-- The conditions of exclusion: no counter wraps, no node accepts a timestamp below that of its own
    call, a last write that comes too late is refused at the root of a bucket, and no send of
    `ACCEPT` that fails counts. -/
def CasEvent.safe : CasEvent n → CasCluster n → Bool
  | .call i _, cluster => decide ((cluster.nodes i).clock.counter.toNat + 1 < 2 ^ 64)
  | .retry i, cluster =>
    (cluster.calls i).all fun call => decide (call.nextTimestamp.counter.toNat + 1 < 2 ^ 64)
  | .request p b t, cluster => (cluster.exchanges p b t).request?.all (cluster.yields · t)
  | .commit i, cluster => (cluster.calls i).all fun call =>
    let keyHash := (configs i).calculateHash call.key
    (cluster.nodes i).atRoot keyHash ||
      ((cluster.nodes i).data keyHash).all fun d => decide (d.timestamp ≤ call.nextTimestamp)
  | event, cluster => event.uncounted cluster

end

section lemmas
variable {n : Nat} {configs : Fin n → Configuration} {key expected : SimpleString}
  {base : LamportClock} {cluster cluster' : CasCluster n} {s : CasSummary n} {i p t : Fin n}
  {b : Nat}
  {node : Node} {call : CasCall} {event : CasEvent n}

theorem CasEvent.uncounted_of_safe (h : event.safe configs cluster = true) :
    event.uncounted cluster = true := by
  cases event <;> first | rfl | exact h

theorem CasCluster.yields_accept {request : Request} {nextTimestamp : LamportClock}
    (h : cluster.yields request t = true)
    (hnumber : request.operation.operatorNumber = OperatorNumbers.CAS_ACCEPT)
    (hnext : request.operation.getTimestampArg 5 = some nextTimestamp)
    (hcall : cluster.calls t = some call) (hrunning : call.response = none) :
    call.nextTimestamp ≤ nextTimestamp := by
  unfold yields at h
  rw [hnext, hcall] at h
  simpa [hnumber, hrunning] using h

/-! ### Changes of the election -/

theorem stamp_of_stores {d : DataAVLNode}
    (hd : (s.nodes i).Stores ((configs i).calculateHash key) d) :
    (s.election configs key).stamp i = d.timestamp := by
  simp [CasSummary.election, hd.data]

theorem number_of_call (hcall : s.calls i = some call) :
    (s.election configs key).number i = call.nextTimestamp := by
  simp [CasSummary.election, hcall]

section
variable (h : Sound base (s.election configs key))
include h

/-- The node stores what it stored. -/
theorem sound_setNode (hdata : node.data ((configs t).calculateHash key) =
      (s.nodes t).data ((configs t).calculateHash key)) :
    Sound base ({ s with nodes := update s.nodes t node }.election configs key) := by
  refine h.leave ?_ (fun _ => rfl) (fun _ hruns => hruns) (fun _ hwon => hwon) (fun _ _ => Iff.rfl)
  intro i
  by_cases hi : i = t
  · subst hi
    simp [CasSummary.election, hdata]
  · simp [CasSummary.election, update_of_ne hi]

/-- A call that runs goes on with its proposal, or ends without success. -/
theorem sound_setCall {call' : CasCall} (hcall : s.calls i = some call)
    (hnext : call'.nextTimestamp = call.nextTimestamp) (hresponse : call.response = none)
    (hfails : call'.successful = false) :
    Sound base ({ s with calls := update s.calls i (some call') }.election configs key) := by
  refine h.leave (fun _ => rfl) ?_ ?_ ?_ (fun _ _ => Iff.rfl)
  · intro p
    by_cases hp : p = i
    · subst hp
      simp [CasSummary.election, hcall, hnext]
    · simp [CasSummary.election, update_of_ne hp]
  · rintro p ⟨c, hc, hruns⟩
    rcases update_calls hc with ⟨rfl, -⟩ | ⟨-, hold⟩
    · exact ⟨call, hcall, hresponse⟩
    · exact ⟨c, hold, hruns⟩
  · rintro p ⟨c, hc, hwon⟩
    rcases update_calls hc with ⟨-, rfl⟩ | ⟨-, hold⟩
    · cases hfails.symm.trans hwon
    · exact ⟨c, hold, hwon⟩

end

/-! ### Moves -/

theorem Node.Contends.update {nodes : Fin n → Node}
    (h : ∀ i, (nodes i).Contends key expected base (configs i))
    (hnode : node.Contends key expected base (configs t)) (i : Fin n) :
    (update nodes t node i).Contends key expected base (configs i) :=
  (forall_update_iff nodes fun i node => node.Contends key expected base (configs i)).mpr
    ⟨hnode, fun i _ => h i⟩ i

/-- What a write with its timestamp checked makes of a node, when the value is another one. -/
theorem Node.Contends.writes {before : Node} {config : Configuration} {value : SimpleString}
    {timestamp : LamportClock} {d : DataAVLNode} {result : Option DbEditResult}
    (h : before.Contends key expected base config)
    (hd : before.Stores (config.calculateHash key) d) (hvalue : value ≠ expected)
    (hlt : base < timestamp) (hwrites : before.Writes config key value timestamp d result node) :
    node.Contends key expected base config := by
  refine ⟨hwrites.ready, hwrites.nodeId.trans h.nodeId, ?_, ?_⟩
  · rcases hwrites.cases with ⟨-, -, -, hclock⟩ | ⟨-, -, -, hclock⟩
    · rw [hclock, LamportClock.toNat_update_SET_MAX]
      exact h.clock.trans (Nat.le_max_right _ _)
    · rw [hclock]
      exact h.clock
  · rcases hwrites.cases with ⟨-, -, hview, -⟩ | ⟨-, -, hview, -⟩
    · exact ⟨_, hd.put key hview, .inr ⟨hlt, hvalue⟩⟩
    · obtain ⟨d, hd, hcases⟩ := h.stored
      exact ⟨d, hd.congr (congrFun hview _), hcases⟩

section
variable (h : Racing configs key expected base cluster)
include h

/-- What an attempt proposes competes, and the node still stores the expected value under `base`. -/
theorem Racing.attempt (hrace : event.InRace configs key expected cluster)
    (hsafe : event.safe configs cluster = true) {before : CasCall}
    (hbefore : cluster.Attempting i before event) {prevTimestamp : LamportClock}
    (hstored : (cluster.nodes i).Stores ((configs i).calculateHash before.key)
      ⟨before.expectedValue, prevTimestamp⟩) :
    (before.next prevTimestamp).Competes key expected base (configs i) ∧
      (cluster.summary.election configs key).stamp i = base := by
  obtain ⟨hkey, hexpected, hvalue, hnodeId, hcounter, hwraps⟩ : before.key = key ∧
      before.expectedValue = expected ∧ before.newValue ≠ expected ∧
      before.nextTimestamp.nodeId = (configs i).nodeId ∧
      base.counter.toNat ≤ before.nextTimestamp.counter.toNat ∧
      before.nextTimestamp.counter.toNat + 1 < 2 ^ 64 := by
    cases hbefore with
    | call _ hstart =>
      obtain ⟨newValue, rest, hargs, hvalue⟩ := hrace
      simp only [CasCall.start, OperationBody.getArg, hargs] at hstart
      cases hstart
      exact ⟨rfl, rfl, hvalue, (h.nodes i).nodeId, (h.nodes i).clock, of_decide_eq_true hsafe⟩
    | retry hwaiting =>
      obtain ⟨hcall, hresponse, -⟩ := waiting_eq_some hwaiting
      obtain ⟨hkey, hexpected, hvalue, -, hnodeId, habove⟩ := h.wired.calls i before hcall hresponse
      simp only [CasEvent.safe, hcall, all_some, decide_eq_true_eq] at hsafe
      exact ⟨hkey, hexpected, hvalue, hnodeId, LamportClock.counter_le habove.le, hsafe⟩
  rw [hkey, hexpected] at hstored
  obtain ⟨d, hd, hcases⟩ := (h.nodes i).stored
  cases hd.data.symm.trans hstored.data
  -- a node that has moved on from `base` no longer stores the expected value
  obtain rfl : prevTimestamp = base := by
    rcases hcases with hbase | ⟨-, hother⟩
    · exact congrArg DataAVLNode.timestamp hbase
    · exact absurd rfl hother
  have hstamp := stamp_of_stores (s := cluster.summary) hstored
  refine ⟨⟨hkey, hexpected, hvalue, rfl, hnodeId, LamportClock.lt_iff.mpr (.inl ?_)⟩, hstamp⟩
  show prevTimestamp.counter.toNat < (before.nextTimestamp.counter + 1).toNat
  rw [UInt64.toNat_add, show (1 : UInt64).toNat = 1 from rfl, Nat.mod_eq_of_lt hwraps]
  omega

/-- A call that nobody has accepted starts anew, or ends without success. -/
theorem Racing.renew {before : CasCall} {sent : Option OperationBody}
    (hbefore : cluster.Attempting i before event)
    (hrace : event.InRace configs key expected cluster) (hsafe : event.safe configs cluster = true)
    (hrenewed : before.Renewed (configs i) (cluster.nodes i) call sent)
    (hnone : ∀ t, ¬ cluster.summary.accepted i t) :
    Sound base ({ cluster.summary with calls := update cluster.calls i (some call) }.election
      configs key) := by
  obtain ⟨hresponse, -, -⟩ := hbefore.before
  refine h.sound.step (fun _ => le_refl _) ?_ ?_ (fun _ _ hold => hold)
    (fun _ _ hold => .inl hold) ?_
  · intro p t hpt
    have hp : p ≠ i := by
      rintro rfl
      exact hnone t hpt
    simp [CasSummary.election, update_of_ne hp, summary]
  · rintro p ⟨c, hc, hruns⟩
    rcases update_calls hc with ⟨rfl, rfl⟩ | ⟨hp, hold⟩
    · cases hrenewed with
      | fails => cases hruns
      | proposes hstored =>
        obtain ⟨hcompetes, hstamp⟩ := h.attempt hrace hsafe hbefore hstored
        refine .inr ⟨hstamp.le, ?_⟩
        simpa [CasSummary.election] using hcompetes.above
    · exact .inl ⟨⟨c, hold, hruns⟩, by simp [CasSummary.election, update_of_ne hp, summary]⟩
  · rintro p ⟨c, hc, hwon⟩
    rcases update_calls hc with ⟨-, rfl⟩ | ⟨-, hold⟩
    · cases hrenewed with
      | fails => cases hwon
      | proposes => simp [CasCall.successful, hresponse] at hwon
    · exact .inl ⟨c, hold, hwon⟩

/-- A node accepts a call. -/
theorem Racing.accept (hids : Injective fun i => (configs i).nodeId) {c : CasCall}
    {d : DataAVLNode} {result : Option DbEditResult} (hpt : p ≠ t) (hc : cluster.calls p = some c)
    (hcompetes : c.toCasProposal.Competes key expected base (configs p))
    (hyields : ∀ call, cluster.calls t = some call → call.response = none →
      call.nextTimestamp ≤ c.nextTimestamp)
    (hd : (cluster.nodes t).Stores ((configs t).calculateHash key) d) (hle : d.timestamp ≤ base)
    (hwrites : (cluster.nodes t).Writes (configs t) key c.newValue c.nextTimestamp d result node) :
    Sound base ({ cluster.summary with
      nodes := update cluster.nodes t node
      accepted q r := cluster.summary.accepted q r ∨ result.isSome = true ∧ q = p ∧ r = t }.election
        configs key) := by
  obtain ⟨-, -, hview, -⟩ := hwrites.cases.resolve_right fun hnewer =>
    not_lt.mpr (hle.trans hcompetes.above.le) hnewer.1
  have hnumber : (cluster.summary.election configs key).number p = c.nextTimestamp :=
    number_of_call hc
  have hbefore := stamp_of_stores (s := cluster.summary) hd
  have hafter : ((update cluster.nodes t node) t).Stores ((configs t).calculateHash key)
      ⟨c.newValue, c.nextTimestamp⟩ := by
    rw [update_self]
    exact hd.put key hview
  refine h.sound.step ?_ (fun _ _ _ => rfl) (fun _ hruns => .inl ⟨hruns, rfl⟩)
    (fun q r hold => .inl hold) ?_ (fun _ hwon => .inl hwon)
  · intro i
    by_cases hi : i = t
    · subst hi
      rw [hbefore, stamp_of_stores hafter]
      exact hle.trans hcompetes.above.le
    · simp [CasSummary.election, update_of_ne hi, summary]
  · rintro q r (hold | ⟨-, rfl, rfl⟩)
    · exact .inl hold
    · refine .inr ⟨hpt, hbefore.trans_le hle, ?_, ?_, ?_, id, ?_⟩
      · exact hcompetes.above.trans_eq hnumber.symm
      · rw [stamp_of_stores hafter]
        exact hnumber.le
      · -- a node with a call of its own yields to greater numbers only
        rintro ⟨call, hcall, hnone⟩
        refine (number_of_call hcall).trans_lt (lt_of_le_of_ne (hyields call hcall hnone) ?_)
          |>.trans_eq hnumber.symm
        intro heq
        have hid := (h.wired.calls r call hcall hnone).nodeId
        rw [heq, hcompetes.nodeId] at hid
        exact hpt (hids hid)
      · rintro q (hold | ⟨-, rfl, -⟩)
        · exact .inl hold
        · exact .inr rfl

/-- A call has its accepts, and stores its value. -/
theorem Racing.win (hwaiting : cluster.waiting i .WAITING_FOR_ACCEPT = some call)
    (hquorum : waitForSuccessfulQuorum (n - 1) (cluster.successfulResponses i call) = true)
    {d : DataAVLNode} (hd : (cluster.nodes i).Stores ((configs i).calculateHash key) d)
    (hle : d.timestamp ≤ call.nextTimestamp)
    (hd' : node.Stores ((configs i).calculateHash key) ⟨call.newValue, call.nextTimestamp⟩) :
    Sound base ({ cluster.summary with
      nodes := update cluster.nodes i node
      calls := update cluster.calls i (some { call with
        state := .COMITTED, response := some Response.success }) }.election configs key) := by
  obtain ⟨hcall, hresponse, -⟩ := waiting_eq_some hwaiting
  have hbefore := stamp_of_stores (s := cluster.summary) hd
  have hnumber : (cluster.summary.election configs key).number i = call.nextTimestamp :=
    number_of_call hcall
  -- the commit changes no number, only the stamp of the proposer
  have hsame : ∀ p, ({ cluster.summary with
      nodes := update cluster.nodes i node
      calls := update cluster.calls i (some { call with
        state := .COMITTED, response := some Response.success }) }.election configs key).number p =
      (cluster.summary.election configs key).number p := by
    intro p
    by_cases hp : p = i
    · subst hp
      rw [hnumber]
      simp [CasSummary.election]
    · simp [CasSummary.election, update_of_ne hp, summary]
  refine h.sound.step ?_ (fun p _ _ => hsame p) ?_ (fun _ _ hold => hold)
    (fun _ _ hold => .inl hold) ?_
  · intro p
    by_cases hp : p = i
    · subst hp
      rw [hbefore]
      simpa [CasSummary.election, hd'.data] using hle
    · simp [CasSummary.election, update_of_ne hp, summary]
  · rintro p ⟨c, hc, hruns⟩
    rcases update_calls hc with ⟨-, rfl⟩ | ⟨-, hold⟩
    · cases hruns
    · exact .inl ⟨⟨c, hold, hruns⟩, hsame p⟩
  · rintro p ⟨c, hc, hwon⟩
    rcases update_calls hc with ⟨rfl, -⟩ | ⟨-, hold⟩
    -- the new winner was a candidate with a quorum behind it
    · refine .inr ⟨⟨⟨call, hcall, hresponse⟩, ?_⟩, ?_, ?_⟩
      · exact (h.wired.quorum h.genuine hwaiting hquorum).mono fun t ht => ht.2
      · rw [hbefore, hnumber]
        exact hle
      · rw [hnumber]
        simp [CasSummary.election, hd'.data]
    · exact .inl ⟨c, hold, hwon⟩

/-- Every safe move keeps the election sound. -/
theorem Racing.moves (hconfigs : Replicated configs) (hids : Injective fun i => (configs i).nodeId)
    (hrace : event.InRace configs key expected cluster) (hsafe : event.safe configs cluster = true)
    (hmoves : cluster.Moves configs (fun i => CasProposal.Competes key expected base (configs i))
      event s) :
    (∀ i, (s.nodes i).Contends key expected base (configs i)) ∧
      Sound base (s.election configs key) := by
  cases hmoves with
  | attempt hbefore hrenewed hnone =>
    exact ⟨h.nodes, h.renew hbefore hrace hsafe hrenewed hnone⟩
  | propose hwaiting hnone =>
    obtain ⟨hcall, hresponse, -⟩ := waiting_eq_some hwaiting
    refine ⟨h.nodes, sound_setCall h.sound hcall rfl hresponse ?_⟩
    simp [CasCall.successful, CasCall.accept, hresponse]
  | @promise p t b rounds hrefused =>
    obtain ⟨hready, hnodeId, hclock, hstored⟩ := h.nodes t
    exact ⟨Node.Contends.update h.nodes
      ⟨⟨hready.running, hready.buffer, hready.outbox, hready.store⟩,
      hnodeId, hclock, hstored⟩, sound_setNode h.sound rfl⟩
  | @accept p t b c d result node hpt hc hcompetes hstate hrequest hrefused hd hle hwrites =>
    rw [hcompetes.key] at hd hwrites
    rw [hcompetes.prevTimestamp] at hle
    refine ⟨Node.Contends.update h.nodes
      ((h.nodes t).writes hd hcompetes.newValue hcompetes.above hwrites),
      h.accept hids hpt hc hcompetes ?_ hd hle hwrites⟩
    intro call hcall hnone
    simp only [CasEvent.safe, hrequest, all_some] at hsafe
    refine yields_accept hsafe rfl ?_ hcall hnone
    rw [show c.nextTimestamp =
      ⟨(configs p).nodeId, c.nextTimestamp.counter⟩ by rw [← hcompetes.nodeId]]
    exact getTimestampArg_next rfl
  | returned => exact ⟨h.nodes, h.sound⟩
  | failed => exact ⟨h.nodes, h.sound⟩
  | abort hwaiting =>
    obtain ⟨hcall, hresponse, -⟩ := waiting_eq_some hwaiting
    exact ⟨h.nodes, sound_setCall h.sound hcall rfl hresponse rfl⟩
  | @commit i call call' node hwaiting hquorum hcommit =>
    obtain ⟨hcall, hresponse, -⟩ := waiting_eq_some hwaiting
    have hcompetes := h.wired.calls i call hcall hresponse
    obtain ⟨d, hd, -⟩ := (h.nodes i).stored
    have hd' := hd
    rw [← hcompetes.key] at hd'
    obtain ⟨result, hwrites, rfl⟩ :=
      commit_cases (h.nodes i).ready (hconfigs.usePartitions i) hd' hcommit
    rw [hcompetes.key] at hwrites
    refine ⟨Node.Contends.update h.nodes
      ((h.nodes i).writes hd hcompetes.newValue hcompetes.above hwrites), ?_⟩
    rcases hwrites.cases with ⟨hle, hsome, hview, -⟩ | ⟨hlt, hnone, hview, -⟩
    · rw [if_pos hsome]
      exact h.win hwaiting hquorum hd hle (hd.put key hview)
    · -- the guard asks that a refusal is reported, so the call fails
      have hroot : (cluster.nodes i).atRoot ((configs i).calculateHash key) = true := by
        simpa [CasEvent.safe, hcall, hcompetes.key, hd.data, not_le.mpr hlt] using hsafe
      rw [hroot, isNone_iff_eq_none] at hnone
      subst hnone
      exact sound_setCall
        (sound_setNode h.sound ((hd.congr (congrFun hview _)).data.trans hd.data.symm))
        hcall rfl hresponse rfl
  | @other i after =>
    obtain ⟨hready, hview, hnodeId, hclock⟩ := hrace
    obtain ⟨d, hd, hcases⟩ := (h.nodes i).stored
    have hd' := hd.congr hview
    exact ⟨Node.Contends.update h.nodes ⟨hready, hnodeId.trans (h.nodes i).nodeId,
      (h.nodes i).clock.trans hclock, d, hd', hcases⟩,
      sound_setNode h.sound (hd'.data.trans hd.data.symm)⟩

/-- Every safe step keeps the race. -/
theorem Racing.step (hconfigs : Replicated configs) (hids : Injective fun i => (configs i).nodeId)
    (hrace : event.InRace configs key expected cluster) (hsafe : event.safe configs cluster = true)
    (hstep : CasCluster.step configs event cluster = some cluster') :
    Racing configs key expected base cluster' := by
  obtain ⟨hwired, hmoves⟩ := h.wired.step hconfigs (fun i => (h.nodes i).ready)
    (fun _ _ hcompetes => hcompetes.nodeId)
    (fun _ _ _ hbefore hstored => (h.attempt hrace hsafe hbefore hstored).1) hstep
  obtain ⟨hnodes, hsound⟩ := h.moves hconfigs hids hrace hsafe hmoves
  exact ⟨hnodes, hwired, genuine_step h.genuine (CasEvent.uncounted_of_safe hsafe) hstep, hsound⟩

end

end lemmas

end MemDb

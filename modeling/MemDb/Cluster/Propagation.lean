import MemDb.Cluster.Replicas
import Mathlib.Algebra.BigOperators.Group.Finset.Basic
import Mathlib.Algebra.Group.Action.Defs
import Mathlib.Algebra.Order.BigOperators.Group.Finset

/-! # The propagation of one write

    A client sends `SET` to one node of a cluster, and the copies that the nodes broadcast are
    delivered in any order. A node broadcasts a copy again when it stores it, also when it stored
    the same copy before, and when it refuses it without an error. A delivery that is neither of the
    two lowers a measure: the messages in flight, and for each node the timestamps of the write that
    it would still take for newer.
-/

namespace MemDb

open Lib.Run Option List Function Finset

/-! ### New and reported copies -/

/-- The node stores no entry under the hash, an older one than the timestamp, or one that refuses
    the timestamp with an error. -/
def Node.newOrReported (node : Node) (h : UInt32) (timestamp : LamportClock) : Bool :=
  match node.view h with
  | none => true
  | some entry =>
    match entry.data with
    | .data d => timestamp.gt d.timestamp || (d.timestamp.gt timestamp && node.atRoot h)
    | .counter _ => node.atRoot h

/-- The message at the position brings its receiver a version that is newer than the stored one, or
    is refused with an error. -/
def Cluster.newOrReported {n : Nat} (configs : Fin n → Configuration) (position : Nat)
    (cluster : Cluster n) : Bool :=
  cluster.inFlight[position]?.elim true fun message =>
    (message.request.operation.getArg 0).elim true fun key =>
      (cluster.nodes message.target).newOrReported ((configs message.target).calculateHash key)
        ⟨message.request.operation.nodeId, message.request.operation.timestamp⟩

section
variable {n : Nat} {configs : Fin n → Configuration} {key value : SimpleString} {counter : UInt64}

/-! ### The measure -/

/-- The timestamp lies above whatever the node stores under the hash. -/
def Node.Below (node : Node) (h : UInt32) (timestamp : LamportClock) : Prop :=
  ∀ entry, node.view h = some entry → ∃ d, entry.data = .data d ∧ d.timestamp < timestamp

open Classical in
/-- The nodes of which the node would take a copy of the write for newer than what it stores. -/
noncomputable def newerCopies (configs : Fin n → Configuration) (key : SimpleString)
    (counter : UInt64) (i : Fin n) (node : Node) : Finset (Fin n) :=
  univ.filter fun k =>
    node.Below ((configs i).calculateHash key) ⟨(configs k).nodeId, counter⟩

variable {i : Fin n} {node : Node} {cluster cluster' : Cluster n}

theorem mem_newerCopies {k : Fin n} :
    k ∈ newerCopies configs key counter i node ↔
      node.Below ((configs i).calculateHash key) ⟨(configs k).nodeId, counter⟩ := by
  simp [newerCopies]

theorem newerCopies_congr {node' : Node} (hview : node'.view = node.view) :
    newerCopies configs key counter i node' = newerCopies configs key counter i node := by
  unfold newerCopies Node.Below
  rw [hview]

/-- Storing a newer copy leaves fewer of them. -/
theorem newerCopies_put_ssubset {k : Fin n} {node' : Node}
    (hnewer : node.Below ((configs i).calculateHash key) ⟨(configs k).nodeId, counter⟩)
    (hview : node'.view = node.view.put key ((configs i).calculateHash key)
      ⟨value, ⟨(configs k).nodeId, counter⟩⟩) :
    newerCopies configs key counter i node' ⊂ newerCopies configs key counter i node := by
  -- what the node stores now is the copy of `k`
  have hbelow : ∀ timestamp, node'.Below ((configs i).calculateHash key) timestamp →
      ⟨(configs k).nodeId, counter⟩ < timestamp := by
    intro timestamp h
    rw [Node.Below, hview, View.put_self] at h
    obtain ⟨d, hd, hlt⟩ := h _ rfl
    rw [View.written_data] at hd
    cases hd
    exact hlt
  refine ssubset_iff_of_subset ?_ |>.mpr ⟨k, ?_, ?_⟩
  · intro k' hk'
    have hlt' := hbelow _ (mem_newerCopies.mp hk')
    refine mem_newerCopies.mpr ?_
    intro entry hentry
    obtain ⟨d, hd, hlt⟩ := hnewer entry hentry
    exact ⟨d, hd, hlt.trans hlt'⟩
  · exact mem_newerCopies.mpr hnewer
  · intro hk
    exact lt_irrefl _ (hbelow _ (mem_newerCopies.mp hk))

noncomputable def propagationMeasure (configs : Fin n → Configuration) (key : SimpleString)
    (counter : UInt64) (cluster : Cluster n) : Nat :=
  cluster.inFlight.length +
    (n - 1) * ∑ i, (newerCopies configs key counter i (cluster.nodes i)).card

/-! ### One delivery -/

/-- The nodes are ready, and what is in flight are copies of the write. -/
structure Propagating (configs : Fin n → Configuration) (key value : SimpleString)
    (counter : UInt64) (cluster : Cluster n) : Prop where
  ready : ∀ i, (cluster.nodes i).Ready
  copies : ∀ message ∈ cluster.inFlight,
    ∃ k, message.request.IsCopy configs key value k counter

theorem Node.newOrReported_cases {h : UInt32} {timestamp : LamportClock}
    (hguard : node.newOrReported h timestamp = true) :
    node.Below h timestamp ∨ node.atRoot h = true ∧
      ∃ entry, node.view h = some entry ∧ ∀ d, entry.data = .data d → timestamp < d.timestamp := by
  unfold Node.newOrReported at hguard
  -- nothing stored, an older or a newer value, or a counter
  split at hguard
  · next hnone =>
    left
    intro entry hentry
    rw [hnone] at hentry
    cases hentry
  · next entry hentry =>
    split at hguard
    · next d hd =>
      rcases Bool.or_eq_true_iff.mp hguard with hlt | hrefused
      · left
        intro entry' hentry'
        cases hentry.symm.trans hentry'
        exact ⟨d, hd, LamportClock.gt_iff_lt.mp hlt⟩
      · obtain ⟨hgt, hroot⟩ := Bool.and_eq_true_iff.mp hrefused
        right
        refine ⟨hroot, entry, hentry, ?_⟩
        intro d' hd'
        cases hd.symm.trans hd'
        exact LamportClock.gt_iff_lt.mp hgt
    · next c hc =>
      right
      refine ⟨hguard, entry, hentry, ?_⟩
      intro d hd
      cases hc.symm.trans hd

theorem Propagating.sends (h : Propagating configs key value counter cluster) {after : Node}
    (hafter : after.Ready) {kept sent : List (Message n)} (hkept : kept ⊆ cluster.inFlight)
    (hsent : sent = [] ∨ Sends configs i key value counter sent) :
    Propagating configs key value counter ⟨update cluster.nodes i after, kept ++ sent⟩ := by
  constructor
  · intro j
    by_cases hj : j = i
    · subst hj
      simpa using hafter
    · simpa [hj] using h.ready j
  · intro message hmessage
    rcases mem_append.mp hmessage with hmem | hmem
    · exact h.copies message (hkept hmem)
    · rcases hsent with rfl | hsent
      · cases hmem
      · exact ⟨i, hsent.isCopy message hmem⟩

section sums
variable {cluster : Cluster n} {i : Fin n} {after : Node}

theorem card_newerCopies_update_le (hsubset : newerCopies configs key counter i after ⊆
      newerCopies configs key counter i (cluster.nodes i)) (j : Fin n) :
    (newerCopies configs key counter j (update cluster.nodes i after j)).card ≤
      (newerCopies configs key counter j (cluster.nodes j)).card := by
  by_cases hj : j = i
  · subst hj
    simpa using card_le_card hsubset
  · simp [hj]

theorem sum_newerCopies_update_lt (hsubset : newerCopies configs key counter i after ⊂
      newerCopies configs key counter i (cluster.nodes i)) :
    ∑ j, (newerCopies configs key counter j (update cluster.nodes i after j)).card <
      ∑ j, (newerCopies configs key counter j (cluster.nodes j)).card := by
  apply Finset.sum_lt_sum
  · intro j _
    exact card_newerCopies_update_le hsubset.subset j
  · refine ⟨i, mem_univ i, ?_⟩
    simpa using card_lt_card hsubset

end sums

section
variable (others : UInt8 → Option Operator) (hconfigs : Replicated configs) {position : Nat}
  (h : Propagating configs key value counter cluster)
include others hconfigs h

theorem Propagating.deliver (hdeliver : cluster.deliver configs others position = some cluster') :
    Propagating configs key value counter cluster' := by
  obtain ⟨message, hmessage, -⟩ := bind_eq_some_iff.mp hdeliver
  obtain ⟨k, hcopy⟩ := h.copies message (mem_of_getElem? hmessage)
  obtain ⟨after, sent, hstep, hafter, houtcome⟩ :=
    Cluster.deliver_copy others hconfigs (h.ready message.target) hmessage hcopy
  cases hdeliver.symm.trans hstep
  refine h.sends hafter (eraseIdx_sublist _ _).subset ?_
  rcases houtcome with ⟨-, -, -, hsends⟩ | ⟨-, -, -, -, hsends⟩ | ⟨-, -, -, -, hsends⟩
  · exact .inr hsends
  · exact .inl hsends
  · exact .inr hsends

/-- A copy that is new to its receiver, or refused with an error, lowers the measure. -/
theorem Propagating.measure_lt (hguard : cluster.newOrReported configs position = true)
    (hdeliver : cluster.deliver configs others position = some cluster') :
    propagationMeasure configs key counter cluster' <
      propagationMeasure configs key counter cluster := by
  obtain ⟨message, hmessage, -⟩ := bind_eq_some_iff.mp hdeliver
  obtain ⟨k, hcopy⟩ := h.copies message (mem_of_getElem? hmessage)
  obtain ⟨after, sent, hstep, -, houtcome⟩ :=
    Cluster.deliver_copy others hconfigs (h.ready message.target) hmessage hcopy
  cases hdeliver.symm.trans hstep
  have hposition : position < cluster.inFlight.length := (List.getElem?_eq_some_iff.mp hmessage).1
  have hlength := length_eraseIdx_add_one hposition
  have hguard' : (cluster.nodes message.target).newOrReported
      ((configs message.target).calculateHash key) ⟨(configs k).nodeId, counter⟩ = true := by
    unfold Cluster.newOrReported at hguard
    rw [hmessage, elim_some, hcopy.isSet.getArg.1, elim_some, hcopy.nodeId,
      hcopy.timestamp] at hguard
    exact hguard
  rcases houtcome with ⟨holder, hview, -, hsends⟩ | ⟨-, -, hview, -, rfl⟩ |
    ⟨⟨entry, hentry, hnewer⟩, hroot, -, -, -⟩
  · -- the copy is stored, so the receiver waits for one copy less
    have hbelow : (cluster.nodes message.target).Below
        ((configs message.target).calculateHash key) ⟨(configs k).nodeId, counter⟩ := by
      rcases Node.newOrReported_cases hguard' with hbelow | ⟨-, entry, hentry, hnewer⟩
      · exact hbelow
      · obtain ⟨d, hd, hle⟩ := holder entry hentry
        exact absurd (hnewer d hd) (not_lt.mpr hle)
    have hsum := sum_newerCopies_update_lt (newerCopies_put_ssubset hbelow hview)
    unfold propagationMeasure
    simp only [length_append, hsends.length]
    have hmul := Nat.mul_le_mul_left (n - 1) (Nat.succ_le_of_lt hsum)
    rw [Nat.mul_succ] at hmul
    omega
  · -- the copy is gone
    unfold propagationMeasure
    simp only [append_nil]
    have hsum : ∑ j, (newerCopies configs key counter j
        (update cluster.nodes message.target after j)).card ≤
        ∑ j, (newerCopies configs key counter j (cluster.nodes j)).card := by
      apply Finset.sum_le_sum
      intro j _
      exact card_newerCopies_update_le (newerCopies_congr hview).subset j
    have hmul := Nat.mul_le_mul_left (n - 1) hsum
    omega
  · -- the guard excludes a refusal without an error
    rcases Node.newOrReported_cases hguard' with hbelow | ⟨hroot', -⟩
    · obtain ⟨d, hd, hlt⟩ := hbelow entry hentry
      exact absurd (hnewer d hd) (not_lt.mpr hlt.le)
    · rw [hroot] at hroot'
      cases hroot'

end

/-! ### All deliveries -/

theorem propagationMeasure_le (cluster : Cluster n) :
    propagationMeasure configs key counter cluster ≤
      cluster.inFlight.length + (n - 1) * (n * n) := by
  have hcard : ∀ i : Fin n, (newerCopies configs key counter i (cluster.nodes i)).card ≤ n := by
    intro i
    simpa using card_le_univ (newerCopies configs key counter i (cluster.nodes i))
  have hsum := sum_le_card_nsmul univ
    (fun i => (newerCopies configs key counter i (cluster.nodes i)).card) n fun i _ => hcard i
  rw [card_univ, Fintype.card_fin, smul_eq_mul] at hsum
  unfold propagationMeasure
  have hmul := Nat.mul_le_mul_left (n - 1) hsum
  omega

/-- Only what the nodes store and how many messages are in flight counts. -/
theorem propagationMeasure_congr (hview : ∀ i, (cluster'.nodes i).view = (cluster.nodes i).view)
    (hperm : cluster'.inFlight.Perm cluster.inFlight) :
    propagationMeasure configs key counter cluster' =
      propagationMeasure configs key counter cluster := by
  unfold propagationMeasure
  rw [hperm.length_eq]
  congr 2
  apply sum_congr rfl
  intro i _
  rw [newerCopies_congr (hview i)]

/-- After the `SET` of a client, what is in flight are copies of one write. -/
theorem propagating_client (others : UInt8 → Option Operator)
    (hconfigs : Replicated configs) {start : Cluster n} (hready : ∀ i, (start.nodes i).Ready)
    (hempty : start.inFlight = []) {request : Request} (huser : request.FromUser (configs i))
    (hset : request.IsSet key value) :
    ∃ sent counter, start.handle configs others i request = some sent ∧
      Propagating configs key value counter sent ∧ sent.inFlight.length ≤ n - 1 := by
  obtain ⟨after, sent, hhandle, hafter, houtcome⟩ :=
    Cluster.handle_client others hconfigs (hready i) huser hset
  have hsent : ∃ counter, sent = [] ∨ Sends configs i key value counter sent := by
    rcases houtcome with ⟨-, -, hsends⟩ | ⟨-, -, -, hsends⟩
    · exact ⟨_, .inr hsends⟩
    · exact ⟨0, hsends⟩
  obtain ⟨counter, hsent⟩ := hsent
  have hstart : Propagating configs key value counter start := by
    refine ⟨hready, ?_⟩
    intro message hmessage
    rw [hempty] at hmessage
    cases hmessage
  refine ⟨_, counter, hhandle, hstart.sends hafter (fun _ h => h) hsent, ?_⟩
  rw [hempty]
  rcases hsent with rfl | hsent
  · simp
  · simp [hsent.length]

/-- The propagation of one write ends as long as each delivered copy is new to its receiver or
    refused with an error: the deliveries and the messages that are left number at most
    `(n - 1) * (n * n + 1)`, and no delivery leads back to the same stores and messages. -/
theorem propagation_ends (others : UInt8 → Option Operator) (hconfigs : Replicated configs)
    {start : Cluster n} (hready : ∀ i, (start.nodes i).Ready) (hempty : start.inFlight = [])
    {i : Fin n} {request : Request} (huser : request.FromUser (configs i))
    (hset : request.IsSet key value) :
    ∃ sent, start.handle configs others i request = some sent ∧
      ∀ first second middle final,
        Guarded (Cluster.deliver configs others)
          (fun position cluster => cluster.newOrReported configs position = true)
          (first ++ second) sent →
        run (Cluster.deliver configs others) first sent = some middle →
        run (Cluster.deliver configs others) second middle = some final →
          first.length + second.length + final.inFlight.length ≤ (n - 1) * (n * n + 1) ∧
          (second ≠ [] → ¬ ((∀ j, (final.nodes j).view = (middle.nodes j).view) ∧
            final.inFlight.Perm middle.inFlight)) := by
  obtain ⟨sent, counter, hhandle, hsent, hlength⟩ :=
    propagating_client others hconfigs hready hempty huser hset
  refine ⟨sent, hhandle, ?_⟩
  intro first second middle final hguarded hfirst hsecond
  obtain ⟨hguarded1, hguarded2⟩ := hguarded.append hfirst
  have hstep : ∀ position (cluster cluster' : Cluster n),
      Propagating configs key value counter cluster →
      cluster.newOrReported configs position = true →
      cluster.deliver configs others position = some cluster' →
      Propagating configs key value counter cluster' ∧
        propagationMeasure configs key counter cluster' <
          propagationMeasure configs key counter cluster :=
    fun position cluster cluster' h hguard hdeliver =>
      ⟨h.deliver others hconfigs hdeliver,
        h.measure_lt others hconfigs hguard hdeliver⟩
  -- every delivery lowers the measure, so the run is short and no state comes back
  have hmiddle := invariant (fun position cluster cluster' h hguard hdeliver =>
    (hstep position cluster cluster' h hguard hdeliver).1) hsent hguarded1 hfirst
  have hle1 := length_add_measure_le hstep hsent hguarded1 hfirst
  have hle2 := length_add_measure_le hstep hmiddle hguarded2 hsecond
  constructor
  · have hbound : propagationMeasure configs key counter sent ≤ _ := propagationMeasure_le sent
    have hfinal : final.inFlight.length ≤ propagationMeasure configs key counter final :=
      Nat.le_add_right _ _
    rw [Nat.mul_add, Nat.mul_one]
    omega
  · intro hne ⟨hview, hperm⟩
    rw [propagationMeasure_congr hview hperm] at hle2
    have := length_pos_iff.mpr hne
    omega

end

/-- Node 2 of two sends its write to node 1, which stores it and sends it back. Node 2 holds a newer
    timestamp and answers with an error. -/
theorem propagation_ends_two : ∃ sent middle final,
    (emptyCluster 2).handle (numberedNodes 2) (fun _ => none) 1 (userSet [118]) = some sent ∧
    run (Cluster.deliver (numberedNodes 2) fun _ => none) [0] sent = some middle ∧
    run (Cluster.deliver (numberedNodes 2) fun _ => none) [0] middle = some final ∧
    1 + 1 + final.inFlight.length ≤ (2 - 1) * (2 * 2 + 1) ∧
    ¬ ((∀ j, (final.nodes j).view = (middle.nodes j).view) ∧
      final.inFlight.Perm middle.inFlight) := by
  obtain ⟨sent, hsent, hall⟩ := propagation_ends (fun _ => none) (replicated_numberedNodes 2)
    (ready_emptyCluster 2) rfl (fromUser_userSet 1 [118]) (isSet_userSet [118])
  have hchecked : (((emptyCluster 2).handle (numberedNodes 2) (fun _ => none) 1
      (userSet [118])).bind (checkedRun (Cluster.deliver (numberedNodes 2) fun _ => none)
        (Cluster.newOrReported (numberedNodes 2)) ([0] ++ [0]))).isSome = true := by
    decide
  rw [hsent, bind_some] at hchecked
  obtain ⟨final, hfinal⟩ := isSome_iff_exists.mp hchecked
  obtain ⟨hrun, hguarded⟩ := checkedRun_eq_some hfinal
  rw [run_append] at hrun
  obtain ⟨middle, hfirst, hsecond⟩ := bind_eq_some_iff.mp hrun
  obtain ⟨hlength, hreturn⟩ := hall [0] [0] middle final hguarded hfirst hsecond
  exact ⟨sent, middle, final, hsent, hfirst, hsecond, hlength, hreturn (by decide)⟩

/-! ### A copy that is delivered again -/

/-- Storing what is stored already changes nothing. -/
theorem View.put_stored {V : View} {h : UInt32} {entry : MapEntry} {d : DataAVLNode}
    (hentry : V h = some entry) (hdata : entry.data = .data d) (key : SimpleString) :
    V.put key h d = V := by
  have hwritten : V.written key h d = entry := by
    unfold View.written
    rw [hentry]
    simp [← hdata]
  rw [View.put, hwritten, ← hentry]
  exact update_eq_self h V

/-- A copy that the receiver stores already is stored and broadcast again. -/
theorem Cluster.deliver_stored {n : Nat} {configs : Fin n → Configuration}
    {key value : SimpleString} (others : UInt8 → Option Operator)
    (hconfigs : Replicated configs) {cluster cluster' : Cluster n} {position : Nat}
    {message : Message n} {k : Fin n} {counter : UInt64}
    (hready : (cluster.nodes message.target).Ready)
    (hmessage : cluster.inFlight[position]? = some message)
    (hcopy : message.request.IsCopy configs key value k counter) {entry : MapEntry}
    (hentry : (cluster.nodes message.target).view ((configs message.target).calculateHash key) =
      some entry) (hdata : entry.data = .data ⟨value, ⟨(configs k).nodeId, counter⟩⟩)
    (hdeliver : cluster.deliver configs others position = some cluster') (j : Fin n) :
    (cluster'.nodes j).view = (cluster.nodes j).view := by
  obtain ⟨after, sent, hstep, -, houtcome⟩ :=
    Cluster.deliver_copy others hconfigs hready hmessage hcopy
  cases hdeliver.symm.trans hstep
  have hview : after.view = (cluster.nodes message.target).view := by
    rcases houtcome with ⟨-, hview, -, -⟩ | ⟨-, -, hview, -, -⟩ | ⟨-, -, hview, -, -⟩
    · rw [hview, View.put_stored hentry hdata]
    · exact hview
    · exact hview
  by_cases hj : j = message.target
  · subst hj
    simpa using hview
  · simp [hj]

/-- The copy of node `sender` that is on its way to node `target`. -/
def copyMessage (sender target : Fin 2) : Message 2 where
  target := target
  request := prepareRequest (numberedNodes 2 sender)
    { (userSet [118]).operation with timestamp := 1 }

theorem isCopy_copyMessage (sender target : Fin 2) :
    (copyMessage sender target).request.IsCopy (numberedNodes 2) [107] [118] sender 1 :=
  ⟨rfl, ⟨rfl, [], rfl⟩, rfl, rfl⟩

/-- Node 1 of two gets `SET` of a user, and then the first message in flight is delivered again and
    again. -/
def circulating (deliveries : Nat) : Option (Cluster 2) :=
  ((emptyCluster 2).handle (numberedNodes 2) (fun _ => none) 0 (userSet [118])).bind
    (run (Cluster.deliver (numberedNodes 2) fun _ => none) (replicate deliveries 0))

theorem circulating_succ (deliveries : Nat) : circulating (deliveries + 1) =
    (circulating deliveries).bind (Cluster.deliver (numberedNodes 2) (fun _ => none) 0) := by
  unfold circulating
  rw [replicate_succ', bind_assoc]
  congr 1
  funext sent
  rw [run_append]
  congr 1
  funext cluster
  exact bind_fun_some _

theorem propagating_circulating {deliveries : Nat} {cluster : Cluster 2}
    (h : circulating deliveries = some cluster) :
    ∃ counter, Propagating (numberedNodes 2) [107] [118] counter cluster := by
  induction deliveries generalizing cluster with
  | zero =>
    obtain ⟨sent, counter, hsent, hpropagating, -⟩ :=
      propagating_client (fun _ => none) (replicated_numberedNodes 2) (ready_emptyCluster 2) rfl
        (fromUser_userSet 0 [118]) (isSet_userSet [118])
    unfold circulating at h
    rw [hsent] at h
    cases h
    exact ⟨counter, hpropagating⟩
  | succ deliveries ih =>
    rw [circulating_succ] at h
    obtain ⟨before, hbefore, hdeliver⟩ := bind_eq_some_iff.mp h
    obtain ⟨counter, hpropagating⟩ := ih hbefore
    exact ⟨counter, hpropagating.deliver _ (replicated_numberedNodes 2) hdeliver⟩

/-- A copy in flight from `sender` to `target`, which stores that copy already. -/
def Circulates (sender target : Fin 2) (cluster : Cluster 2) : Bool :=
  cluster.inFlight = [copyMessage sender target] &&
    (cluster.nodes target).view ((numberedNodes 2 target).calculateHash [107]) =
      some ⟨[107], (numberedNodes 2 target).calculateHash [107], .DATA,
        .data ⟨[118], ⟨(numberedNodes 2 sender).nodeId, 1⟩⟩⟩

theorem view_of_circulates {sender target : Fin 2} {deliveries : Nat} {cluster next : Cluster 2}
    (h : circulating deliveries = some cluster) (hcirculates : Circulates sender target cluster)
    (hnext : cluster.deliver (numberedNodes 2) (fun _ => none) 0 = some next) (j : Fin 2) :
    (next.nodes j).view = (cluster.nodes j).view := by
  obtain ⟨counter, hpropagating⟩ := propagating_circulating h
  obtain ⟨hflight, hentry⟩ := Bool.and_eq_true_iff.mp hcirculates
  have hmessage : cluster.inFlight[0]? = some (copyMessage sender target) := by
    rw [of_decide_eq_true hflight]
    rfl
  exact Cluster.deliver_stored _ (replicated_numberedNodes 2) (hpropagating.ready target) hmessage
    (isCopy_copyMessage sender target) (of_decide_eq_true hentry) rfl hnext j

/-- The copy of node 1 makes node 2 send the copy of node 2, which makes node 1 send its own again:
    both store the write under the other's id, and a pair of deliveries changes nothing. -/
theorem write_circulates : ∃ sent middle final,
    (emptyCluster 2).handle (numberedNodes 2) (fun _ => none) 0 (userSet [118]) = some sent ∧
    run (Cluster.deliver (numberedNodes 2) fun _ => none) [0, 0] sent = some middle ∧
    run (Cluster.deliver (numberedNodes 2) fun _ => none) [0, 0] middle = some final ∧
    middle.inFlight ≠ [] ∧ final.inFlight = middle.inFlight ∧
    ∀ j, (final.nodes j).view = (middle.nodes j).view := by
  have h2 : (circulating 2).any (Circulates 0 1) = true := by decide
  have h3 : (circulating 3).any (Circulates 1 0) = true := by decide
  have h4 : (circulating 4).any (Circulates 0 1) = true := by decide
  obtain ⟨middle, hmiddle, hcirculates2⟩ := (any_eq_true _ _).mp h2
  obtain ⟨next, hnext, hcirculates3⟩ := (any_eq_true _ _).mp h3
  obtain ⟨final, hfinal, hcirculates4⟩ := (any_eq_true _ _).mp h4
  obtain ⟨sent, hsent, hrun⟩ := bind_eq_some_iff.mp hmiddle
  have hdeliver : middle.deliver (numberedNodes 2) (fun _ => none) 0 = some next := by
    rw [circulating_succ, hmiddle] at hnext
    exact hnext
  have hdeliver' : next.deliver (numberedNodes 2) (fun _ => none) 0 = some final := by
    rw [circulating_succ, hnext] at hfinal
    exact hfinal
  have hflight2 := of_decide_eq_true (Bool.and_eq_true_iff.mp hcirculates2).1
  have hflight4 := of_decide_eq_true (Bool.and_eq_true_iff.mp hcirculates4).1
  refine ⟨sent, middle, final, hsent, hrun, ?_, ?_, hflight4.trans hflight2.symm, ?_⟩
  · exact run_cons_eq_some.mpr ⟨next, hdeliver, run_cons_eq_some.mpr ⟨final, hdeliver', rfl⟩⟩
  · rw [hflight2]
    exact cons_ne_nil _ _
  · intro j
    exact (view_of_circulates hnext hcirculates3 hdeliver' j).trans
      (view_of_circulates hmiddle hcirculates2 hdeliver j)

end MemDb

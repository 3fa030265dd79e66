import MemDb.Cluster.Replicas
import MemDb.Lib.Versions

/-! # Timestamps name versions

    Clients send `SET` to any nodes of a cluster that starts empty, and the copies are delivered in
    any order. A node stamps its id on every copy that it forwards, so it publishes a version of its
    own each time. The versions keep their names as long as no delivery makes a node forward a value
    under a counter at which it has another value, or which it has gone past.
-/

namespace MemDb

open Lib.Run Lib.Versions List Function

/-! ### Versions in the cluster -/

/-- A version is somewhere in the cluster: stored at a node, or in a message in flight. -/
inductive Occurs {n : Nat} (calculateHash : SimpleString → UInt32) (cluster : Cluster n)
    (h : UInt32) (d : DataAVLNode) : Prop where
  | stored {i : Fin n} (data : (cluster.nodes i).data h = some d)
  | sent {message : Message n} {key : SimpleString} (mem : message ∈ cluster.inFlight)
      (isSet : message.request.IsSet key d.value) (hash : calculateHash key = h)
      (timestamp : d.timestamp =
        ⟨message.request.operation.nodeId, message.request.operation.timestamp⟩)

section
variable {n : Nat}

/-- What a node has itself under a hash. -/
def own (cluster : Cluster n) (i : Fin n) (h : UInt32) : Option (Nat × SimpleString) :=
  ((cluster.nodes i).data h).map fun d => (d.timestamp.counter.toNat, d.value)

/-- The versions in the cluster, each with the node whose id it carries. -/
def Seen (configs : Fin n → Configuration) (calculateHash : SimpleString → UInt32)
    (cluster : Cluster n) (h : UInt32) (version : Version (Fin n) Nat SimpleString) : Prop :=
  ∃ d, Occurs calculateHash cluster h d ∧
    d.timestamp.nodeId = (configs version.writer).nodeId ∧
    d.timestamp.counter.toNat = version.counter ∧ d.value = version.value

structure Consistent (configs : Fin n → Configuration) (calculateHash : SimpleString → UInt32)
    (cluster : Cluster n) : Prop where
  ready : ∀ i, (cluster.nodes i).Ready
  dataOnly : ∀ i, (cluster.nodes i).DataOnly
  clock : ∀ i, (cluster.nodes i).ClockCovers
  /-- Every version carries the id of a node. -/
  nodeId : ∀ h d, Occurs calculateHash cluster h d → ∃ k, d.timestamp.nodeId = (configs k).nodeId
  copies : ∀ message ∈ cluster.inFlight, ∃ key value k counter,
    message.request.IsCopy configs key value k counter
  named : Named (own cluster) (Seen configs calculateHash cluster)

/-! ### Publishing and refusing -/

section publish
variable {configs : Fin n → Configuration} {calculateHash : SimpleString → UInt32}
  {cluster : Cluster n} {i : Fin n} {after : Node} {kept sent : List (Message n)}

theorem update_forall {P : Fin n → Node → Prop} (h : ∀ j, P j (cluster.nodes j))
    (hafter : P i after) (j : Fin n) : P j (update cluster.nodes i after j) := by
  by_cases hj : j = i
  · subst hj
    simpa using hafter
  · simpa [hj] using h j

/-- Where a version comes from that occurs after a node has handled a request. -/
theorem Occurs.update_cases (hkept : kept ⊆ cluster.inFlight) {h : UInt32} {d : DataAVLNode}
    (hoccurs : Occurs calculateHash ⟨update cluster.nodes i after, kept ++ sent⟩ h d) :
    Occurs calculateHash cluster h d ∨ after.data h = some d ∨
      ∃ message ∈ sent, ∃ key, message.request.IsSet key d.value ∧ calculateHash key = h ∧
        d.timestamp = ⟨message.request.operation.nodeId, message.request.operation.timestamp⟩ := by
  rcases hoccurs with @⟨j, hdata⟩ | ⟨hmem, hset, hhash, htimestamp⟩
  · by_cases hj : j = i
    · subst hj
      exact .inr (.inl (by simpa using hdata))
    · exact .inl (.stored (by simpa [hj] using hdata))
  · rcases mem_append.mp hmem with hmem | hmem
    · exact .inl (.sent (hkept hmem) hset hhash htimestamp)
    · exact .inr (.inr ⟨_, hmem, _, hset, hhash, htimestamp⟩)

/-- A node that refuses a copy with an error changes nothing. -/
theorem Consistent.refuse (hc : Consistent configs calculateHash cluster) (hready : after.Ready)
    (hkept : kept ⊆ cluster.inFlight) (hview : after.view = (cluster.nodes i).view)
    (hclock : after.clock = (cluster.nodes i).clock) :
    Consistent configs calculateHash ⟨update cluster.nodes i after, kept ++ []⟩ := by
  have hdata := Node.data_congr hview
  -- nothing new occurs
  have hoccurs : ∀ h d,
      Occurs calculateHash ⟨update cluster.nodes i after, kept ++ []⟩ h d →
      Occurs calculateHash cluster h d := by
    intro h d hd
    rcases hd.update_cases hkept with hold | hstored | ⟨message, hmem, -⟩
    · exact hold
    · exact .stored (hdata ▸ hstored)
    · cases hmem
  have hown : own ⟨update cluster.nodes i after, kept ++ []⟩ = own cluster := by
    funext j h
    unfold own
    by_cases hj : j = i
    · subst hj
      simp [hdata]
    · simp [hj]
  constructor
  · exact update_forall hc.ready hready
  · refine update_forall hc.dataOnly ?_
    unfold Node.DataOnly
    rw [hview]
    exact hc.dataOnly i
  · refine update_forall hc.clock ?_
    unfold Node.ClockCovers
    rw [hclock, hdata]
    exact hc.clock i
  · intro h d hd
    exact hc.nodeId h d (hoccurs h d hd)
  · intro message hmessage
    rw [append_nil] at hmessage
    exact hc.copies message (hkept hmessage)
  · rw [hown]
    refine hc.named.forget ?_
    intro h version ⟨d, hd, hversion⟩
    exact ⟨d, hoccurs h d hd, hversion⟩

/-- A node publishes what it stores now, where it had a smaller counter or the same value. What it
    stores may be a copy of another node's version. -/
theorem Consistent.publish (hids : Injective fun i => (configs i).nodeId)
    (hc : Consistent configs calculateHash cluster) (hready : after.Ready)
    (hdataOnly : after.DataOnly) (hkept : kept ⊆ cluster.inFlight) {key value : SimpleString}
    {counter : UInt64} (hsends : Sends configs i key value counter sent) {d : DataAVLNode}
    (hafter : after.data (calculateHash key) = some d) (hcounter : d.timestamp.counter = counter)
    (hvalue : d.value = value) (hstored : Occurs calculateHash cluster (calculateHash key) d ∨
      d.timestamp.nodeId = (configs i).nodeId)
    (hother : ∀ h, h ≠ calculateHash key → after.data h = (cluster.nodes i).data h)
    (hclock : (cluster.nodes i).clock.counter.toNat ≤ after.clock.counter.toNat)
    (hclock' : counter.toNat ≤ after.clock.counter.toNat)
    (hbefore : ∀ b, (cluster.nodes i).data (calculateHash key) = some b →
      b.timestamp.counter.toNat < counter.toNat ∨
        b.timestamp.counter.toNat = counter.toNat ∧ b.value = value) :
    Consistent configs calculateHash ⟨update cluster.nodes i after, kept ++ sent⟩ := by
  -- the only version that is new carries the id of the node
  have hoccurs : ∀ h d',
      Occurs calculateHash ⟨update cluster.nodes i after, kept ++ sent⟩ h d' →
      Occurs calculateHash cluster h d' ∨
        h = calculateHash key ∧ d' = ⟨value, ⟨(configs i).nodeId, counter⟩⟩ := by
    intro h d' hd'
    rcases hd'.update_cases hkept with hold | hdata | ⟨message, hmem, key', hset, hhash, htimestamp⟩
    · exact .inl hold
    · by_cases hh : h = calculateHash key
      · subst hh
        cases hafter.symm.trans hdata
        rcases hstored with hold | hid
        · exact .inl hold
        · refine .inr ⟨rfl, ?_⟩
          rw [← hvalue, ← hid, ← hcounter]
      · exact .inl (.stored ((hother h hh).symm.trans hdata))
    · have hcopy := hsends.isCopy message hmem
      obtain ⟨rfl, hvalue'⟩ := hcopy.isSet.unique hset
      refine .inr ⟨hhash.symm, ?_⟩
      rw [hvalue', ← hcopy.nodeId, ← hcopy.timestamp, ← htimestamp]
  constructor
  · exact update_forall hc.ready hready
  · exact update_forall hc.dataOnly hdataOnly
  · refine update_forall hc.clock ?_
    intro h d' hd'
    by_cases hh : h = calculateHash key
    · subst hh
      cases hafter.symm.trans hd'
      rw [hcounter]
      exact hclock'
    · exact (hc.clock i h d' (hother h hh ▸ hd')).trans hclock
  · intro h d' hd'
    rcases hoccurs h d' hd' with hold | ⟨-, rfl⟩
    · exact hc.nodeId h d' hold
    · exact ⟨i, rfl⟩
  · intro message hmessage
    rcases mem_append.mp hmessage with hmem | hmem
    · exact hc.copies message (hkept hmem)
    · exact ⟨key, value, i, counter, hsends.isCopy message hmem⟩
  · refine hc.named.publish i (calculateHash key) counter.toNat value ?_ ?_ ?_ ?_
    · intro has hhas
      obtain ⟨b, hb, rfl⟩ := Option.map_eq_some_iff.mp hhas
      exact hbefore b hb
    · simp [own, hafter, hcounter, hvalue]
    · intro j h hne
      unfold own
      by_cases hj : j = i
      · subst hj
        simp [hother h (hne.resolve_left fun hn => hn rfl)]
      · simp [hj]
    · intro h version ⟨d', hd', hid, hversion, hvalue'⟩
      rcases hoccurs h d' hd' with hold | ⟨rfl, rfl⟩
      · exact .inl ⟨d', hold, hid, hversion, hvalue'⟩
      · obtain ⟨counter', writer, value'⟩ := version
        obtain rfl : i = writer := hids hid
        obtain rfl : counter.toNat = counter' := hversion
        obtain rfl : value = value' := hvalue'
        exact .inr ⟨rfl, rfl⟩

end publish

/-! ### Events -/

/-- The node stores no value under the hash, a value with a smaller counter, the same value with the
    same counter, or a newer one that refuses the timestamp with an error. -/
def Node.keepsVersions (node : Node) (h : UInt32) (timestamp : LamportClock)
    (value : SimpleString) : Bool :=
  match node.data h with
  | none => true
  | some d => decide (d.timestamp.counter < timestamp.counter) ||
      (d.timestamp.counter == timestamp.counter && d.value == value) ||
      (d.timestamp.gt timestamp && node.atRoot h)

/-- A delivery finds its receiver in such a state. -/
def Cluster.keepsVersions (configs : Fin n → Configuration) (event : Event n)
    (cluster : Cluster n) : Bool :=
  match event with
  | .client _ _ => true
  | .deliver position =>
    cluster.inFlight[position]?.elim true fun message =>
      (message.request.operation.getArg 0).elim true fun key =>
        (message.request.operation.getArg 1).elim true fun value =>
          (cluster.nodes message.target).keepsVersions
            ((configs message.target).calculateHash key)
            ⟨message.request.operation.nodeId, message.request.operation.timestamp⟩ value

/-- A client sends `SET` with the timestamp 0, and the clock of the node does not overflow. -/
def Event.IsClientSet (configs : Fin n → Configuration) (event : Event n) (cluster : Cluster n) :
    Prop :=
  match event with
  | .client i request => request.FromUser (configs i) ∧
      (∃ key value, request.IsSet key value) ∧ request.operation.timestamp = 0 ∧
      (cluster.nodes i).clock.counter.toNat + 1 < 2 ^ 64
  | .deliver _ => True

section events
variable {configs : Fin n → Configuration} {calculateHash : SimpleString → UInt32}
  (others : UInt8 → Option Operator) (hconfigs : Replicated configs)
  (hids : Injective fun i => (configs i).nodeId)
  (hhash : ∀ i, (configs i).calculateHash = calculateHash) {cluster cluster' : Cluster n}
include hconfigs hids hhash

/-- The counter of a client's write is above all that the node stores. -/
theorem Consistent.client (hc : Consistent configs calculateHash cluster) {i : Fin n}
    {request : Request} (hclient : (Event.client i request).IsClientSet configs cluster)
    (hstep : cluster.handle configs others i request = some cluster') :
    Consistent configs calculateHash cluster' := by
  obtain ⟨huser, ⟨key, value, hset⟩, hzero, hoverflow⟩ := hclient
  obtain ⟨after, sent, hhandle, hready, houtcome⟩ :=
    Cluster.handle_client others hconfigs (hc.ready i) huser hset
  cases hstep.symm.trans hhandle
  rcases houtcome with ⟨hclock, hview, hsends⟩ | ⟨⟨entry, count, hentry, hcount⟩, -, -, -⟩
  · rw [hhash i] at hview
    have hcounter : after.clock.counter.toNat = (cluster.nodes i).clock.counter.toNat + 1 := by
      rw [hclock, hzero, LamportClock.toNat_update_TICK hoverflow (by decide)]
      simp
    refine hc.publish hids hready ((hc.dataOnly i).put hview) (fun _ h => h) hsends
      (Node.data_put_self hview) rfl rfl (.inr rfl) (fun h hne => Node.data_put_ne hview hne)
      (by omega) le_rfl ?_
    intro b hb
    have := hc.clock i _ b hb
    left
    omega
  · obtain ⟨d, hd⟩ := hc.dataOnly i _ entry hentry
    cases hcount.symm.trans hd

omit hconfigs hids hhash in
theorem Node.keepsVersions_cases {node : Node} {h : UInt32} {timestamp : LamportClock}
    {value : SimpleString} (hguard : node.keepsVersions h timestamp value = true) {d : DataAVLNode}
    (hd : node.data h = some d) :
    d.timestamp.counter.toNat < timestamp.counter.toNat ∨
      (d.timestamp.counter = timestamp.counter ∧ d.value = value) ∨
      (timestamp < d.timestamp ∧ node.atRoot h = true) := by
  unfold Node.keepsVersions at hguard
  rw [hd] at hguard
  simp only [Bool.or_eq_true, Bool.and_eq_true, decide_eq_true_eq, beq_iff_eq,
    LamportClock.gt_iff_lt, UInt64.lt_iff_toNat_lt] at hguard
  rcases hguard with (hlt | hsame) | hrefused
  · exact .inl hlt
  · exact .inr (.inl hsame)
  · exact .inr (.inr hrefused)

/-- A delivery publishes a copy under the id of the receiver, unless the receiver refuses it. -/
theorem Consistent.deliver (hc : Consistent configs calculateHash cluster) {position : Nat}
    (hguard : cluster.keepsVersions configs (.deliver position) = true)
    (hstep : cluster.deliver configs others position = some cluster') :
    Consistent configs calculateHash cluster' := by
  obtain ⟨message, hmessage, -⟩ := Option.bind_eq_some_iff.mp hstep
  have hmem := mem_of_getElem? hmessage
  obtain ⟨key, value, k, counter, hcopy⟩ := hc.copies message hmem
  obtain ⟨after, sent, hdeliver, hready, houtcome⟩ :=
    Cluster.deliver_copy others hconfigs (hc.ready message.target) hmessage hcopy
  cases hstep.symm.trans hdeliver
  have hkept : cluster.inFlight.eraseIdx position ⊆ cluster.inFlight :=
    (eraseIdx_sublist _ _).subset
  have hguard' : (cluster.nodes message.target).keepsVersions (calculateHash key)
      ⟨(configs k).nodeId, counter⟩ value = true := by
    obtain ⟨-, rest, hargs⟩ := hcopy.isSet
    simpa [Cluster.keepsVersions, hmessage, OperationBody.getArg, hargs, hcopy.nodeId,
      hcopy.timestamp, hhash message.target] using hguard
  rcases houtcome with ⟨holder, hview, hclock, hsends⟩ | ⟨-, -, hview, hclock, rfl⟩ |
    ⟨⟨entry, hentry, hnewer⟩, hroot, hview, hclock, hsends⟩
  · -- the receiver stores the copy of `k` and publishes it as its own
    rw [hhash message.target] at hview holder
    have hoccurs : Occurs calculateHash cluster (calculateHash key)
        ⟨value, ⟨(configs k).nodeId, counter⟩⟩ :=
      .sent hmem hcopy.isSet rfl (by rw [hcopy.nodeId, hcopy.timestamp])
    have hcounter : after.clock.counter.toNat =
        max counter.toNat (cluster.nodes message.target).clock.counter.toNat := by
      rw [hclock, LamportClock.toNat_update_SET_MAX]
    refine hc.publish hids hready ((hc.dataOnly _).put hview) hkept hsends
      (Node.data_put_self hview) rfl rfl (.inl hoccurs) (fun h hne => Node.data_put_ne hview hne)
      (by omega) (by omega) ?_
    intro b hb
    rcases Node.keepsVersions_cases hguard' hb with hlt | ⟨hcounter', hvalue⟩ | ⟨hlt, -⟩
    · exact .inl hlt
    · exact .inr ⟨by rw [hcounter'], hvalue⟩
    · obtain ⟨entry, hentry, hdata⟩ := Node.exists_entry hb
      obtain ⟨d, hd, hle⟩ := holder entry hentry
      cases hdata.symm.trans hd
      exact absurd hlt (not_lt.mpr hle)
  · exact hc.refuse hready hkept hview hclock
  · -- the receiver has a newer timestamp, but the same counter and value
    rw [hhash message.target] at hentry hroot
    obtain ⟨d, hd⟩ := hc.dataOnly _ _ entry hentry
    have hdata := Node.data_of_view hentry hd
    have hlt := hnewer d hd
    have hsame : d.timestamp.counter = counter ∧ d.value = value := by
      rcases Node.keepsVersions_cases hguard' hdata with hlt' | hsame | ⟨-, hroot'⟩
      · rw [LamportClock.lt_iff] at hlt
        dsimp only at hlt hlt'
        omega
      · exact hsame
      · rw [hroot] at hroot'
        cases hroot'
    have hafter : after.data (calculateHash key) = some d := Node.data_congr hview ▸ hdata
    have hcover := hc.clock message.target _ d hdata
    rw [hsame.1] at hcover
    refine hc.publish hids hready ?_ hkept hsends hafter hsame.1 hsame.2 (.inl (.stored hdata))
      (fun h _ => congrFun (Node.data_congr hview) h) (by rw [hclock])
      (by rw [hclock]; exact hcover) ?_
    · unfold Node.DataOnly
      rw [hview]
      exact hc.dataOnly message.target
    · intro b hb
      cases hdata.symm.trans hb
      exact .inr ⟨by rw [hsame.1], hsame.2⟩

omit hconfigs hids hhash in
theorem consistent_of_empty (hready : ∀ i, (cluster.nodes i).Ready)
    (hempty : ∀ i h, (cluster.nodes i).view h = none) (hflight : cluster.inFlight = []) :
    Consistent configs calculateHash cluster := by
  have hdata : ∀ i h, (cluster.nodes i).data h = none := by
    intro i h
    simp [Node.data, hempty]
  have hoccurs : ∀ h d, ¬ Occurs calculateHash cluster h d := by
    rintro h d (⟨hstored⟩ | ⟨hmem, -, -, -⟩)
    · rw [hdata] at hstored
      cases hstored
    · rw [hflight] at hmem
      cases hmem
  constructor
  · exact hready
  · intro i h entry hentry
    rw [hempty] at hentry
    cases hentry
  · intro i h d hd
    rw [hdata] at hd
    cases hd
  · intro h d hd
    exact absurd hd (hoccurs h d)
  · rw [hflight]
    intro message hmessage
    cases hmessage
  · apply named_of_unseen
    rintro h version ⟨d, hd, -⟩
    exact hoccurs h d hd

/-- A timestamp names one version. Clients send `SET` to nodes of a cluster that starts empty, and
    each delivery finds its receiver without a value under the hash, with a smaller counter, with
    the same value at the same counter, or refusing the copy with an error. Then nodes that store a
    key under equal timestamps store the same value. -/
theorem timestamp_names_one_version {start final : Cluster n} (hready : ∀ i, (start.nodes i).Ready)
    (hempty : ∀ i h, (start.nodes i).view h = none) (hflight : start.inFlight = [])
    {events : List (Event n)}
    (hclients : Guarded (Cluster.step configs others) (Event.IsClientSet configs) events start)
    (hkeeps : Guarded (Cluster.step configs others)
      (fun event cluster => cluster.keepsVersions configs event = true) events start)
    (hrun : run (Cluster.step configs others) events start = some final) {i j : Fin n}
    {key : SimpleString} {d d' : DataAVLNode} (hi : (final.nodes i).read (configs i) key = some d)
    (hj : (final.nodes j).read (configs j) key = some d')
    (htimestamp : d.timestamp = d'.timestamp) :
    d.value = d'.value := by
  have hstep : ∀ event (cluster cluster' : Cluster n), Consistent configs calculateHash cluster →
      event.IsClientSet configs cluster ∧ cluster.keepsVersions configs event = true →
      cluster.step configs others event = some cluster' →
      Consistent configs calculateHash cluster' := by
    intro event cluster cluster' hc ⟨hclient, hkeep⟩ hstep
    match event with
    | .client i request => exact hc.client others hconfigs hids hhash hclient hstep
    | .deliver position => exact hc.deliver others hconfigs hids hhash hkeep hstep
  have hfinal :=
    invariant hstep (consistent_of_empty hready hempty hflight) (hclients.and hkeeps) hrun
  rw [(hfinal.ready i).read, hhash i] at hi
  rw [(hfinal.ready j).read, hhash j] at hj
  -- both are versions of the node whose id they carry
  obtain ⟨k, hk⟩ := hfinal.nodeId _ d (.stored hi)
  exact hfinal.named.unique _ ⟨d.timestamp.counter.toNat, k, d.value⟩
    ⟨d'.timestamp.counter.toNat, k, d'.value⟩ ⟨d, .stored hi, hk, rfl, rfl⟩
    ⟨d', .stored hj, htimestamp ▸ hk, rfl, rfl⟩ (by rw [htimestamp]) rfl

end events

end

/-- Two nodes store what node 2 got from a user under the same timestamp. -/
theorem timestamp_names_one_version_two : ∃ final d d',
    run (Cluster.step (numberedNodes 2) fun _ => none) [.client 1 (userSet [118]), .deliver 0]
      (emptyCluster 2) = some final ∧
    (final.nodes 0).read (numberedNodes 2 0) [107] = some d ∧
    (final.nodes 1).read (numberedNodes 2 1) [107] = some d' ∧
    d.timestamp = d'.timestamp ∧ d.value = d'.value := by
  have hids : Injective fun i => (numberedNodes 2 i).nodeId := by
    unfold Injective
    decide
  obtain ⟨final, hfinal, hread, hread'⟩ : ∃ final, checkedRun (Cluster.step (numberedNodes 2)
      fun _ => none) (fun event cluster => cluster.keepsVersions (numberedNodes 2) event)
      [.client 1 (userSet [118]), .deliver 0] (emptyCluster 2) = some final ∧
      (final.nodes 0).read (numberedNodes 2 0) [107] = some ⟨[118], ⟨2, 1⟩⟩ ∧
      (final.nodes 1).read (numberedNodes 2 1) [107] = some ⟨[118], ⟨2, 1⟩⟩ := by
    decide +kernel
  obtain ⟨hrun, hkeeps⟩ := checkedRun_eq_some hfinal
  have hclients : Guarded (Cluster.step (numberedNodes 2) fun _ => none)
      (Event.IsClientSet (numberedNodes 2)) [.client 1 (userSet [118]), .deliver 0]
      (emptyCluster 2) :=
    ⟨⟨fromUser_userSet 1 [118], ⟨[107], [118], isSet_userSet [118]⟩, rfl, by decide⟩,
      fun _ _ => ⟨trivial, fun _ _ => trivial⟩⟩
  exact ⟨final, _, _, hrun, hread, hread', rfl,
    timestamp_names_one_version (fun _ => none) (replicated_numberedNodes 2) hids (fun _ => rfl)
      (ready_emptyCluster 2) (view_emptyCluster 2) rfl hclients hkeeps hrun hread hread' rfl⟩

/-- Node 2 sends its write to node 1, which stores it in place of its own write with the same
    counter and forwards it under its own id. Node 3 gets the write of node 1 and node 4 the
    forwarded one: two values under one timestamp. -/
theorem two_values_one_timestamp :
    (run (Cluster.step (numberedNodes 4) fun _ => none)
        [.client 0 (userSet [98]), .client 1 (userSet [97]), .deliver 3, .deliver 1, .deliver 6]
        (emptyCluster 4)).map (fun final => ((final.nodes 2).read (numberedNodes 4 2) [107],
        (final.nodes 3).read (numberedNodes 4 3) [107])) =
      some (some ⟨[98], ⟨1, 1⟩⟩, some ⟨[97], ⟨1, 1⟩⟩) := by
  decide

end MemDb

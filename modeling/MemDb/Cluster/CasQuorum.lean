import MemDb.Cluster.CasExclusion

/-! # A successful `CAS` is stored by a majority

    Any number of calls of `CAS` on one key, at any nodes and one beside another, while nothing else
    concerns the key. A node never goes back to an older value, and a node that has accepted a call
    stores its value or a newer one. So a call that returns success leaves a majority of nodes, its
    own among them, that store a timestamp as high as its own, and they do so ever after. That is
    unless a send of `ACCEPT` that fails counts as an accept: then a call can succeed that no other
    node has heard of.

    What the nodes store for the key beforehand does not matter, nor whether their clocks wrap.
-/

namespace MemDb

open Lib.Run Lib.Election CasCluster Option Function

/-! ### Any number of calls -/

/-- The calls of a session, at most one at each node, and their messages. -/
structure CasSession (n : Nat) where
  calls : Fin n → Option CasCall
  exchanges : Fin n → Nat → Fin n → Exchange

/-- Sessions that take turns on the same nodes. -/
structure CasSessions (n : Nat) where
  nodes : Fin n → Node
  sessions : Nat → CasSession n

namespace CasSessions
variable {n : Nat}

/-- The cluster as one session sees it. -/
def cluster (system : CasSessions n) (k : Nat) : CasCluster n where
  nodes := system.nodes
  calls := (system.sessions k).calls
  exchanges := (system.sessions k).exchanges

/-- Something happens in a session. -/
def step (configs : Fin n → Configuration) :
    Nat × CasEvent n → CasSessions n → Option (CasSessions n)
  | (k, event), system =>
    (CasCluster.step configs event (system.cluster k)).map fun cluster =>
      { nodes := cluster.nodes
        sessions := Function.update system.sessions k ⟨cluster.calls, cluster.exchanges⟩ }

/-- No call has been made. -/
def start (nodes : Fin n → Node) : CasSessions n where
  nodes := nodes
  sessions _ := ⟨fun _ => none, fun _ _ _ => .unsent⟩

end CasSessions

/-- All calls are on the key, and besides them nothing concerns the key. -/
def CasEvent.OnKey {n : Nat} (configs : Fin n → Configuration) (key : SimpleString) :
    CasEvent n → CasCluster n → Prop
  | .call _ operation, _ => operation.getArg 0 = some key
  | .other i after, cluster => after.Ready ∧
    after.view ((configs i).calculateHash key) =
      (cluster.nodes i).view ((configs i).calculateHash key) ∧
    after.clock.nodeId = (cluster.nodes i).clock.nodeId
  | _, _ => True

/-! ### Nodes that never go back -/

/-- The node stores a value under the hash with a timestamp that is at least as high. -/
def Node.AtLeast (node : Node) (h : UInt32) (timestamp : LamportClock) : Prop :=
  ∃ d, node.Stores h d ∧ timestamp ≤ d.timestamp

/-- What an event may do to a node: the value under the hash is kept or replaced by one that is not
    older. -/
structure Node.Advances (h : UInt32) (before after : Node) : Prop where
  ready : after.Ready
  nodeId : after.clock.nodeId = before.clock.nodeId
  stores : ∀ d, before.Stores h d → after.AtLeast h d.timestamp

section advances
variable {before after : Node} {h : UInt32}

theorem Node.Stores.atLeast {d : DataAVLNode} (hd : before.Stores h d) :
    before.AtLeast h d.timestamp := ⟨d, hd, le_refl _⟩

theorem Node.Advances.atLeast (hadvances : before.Advances h after) {timestamp : LamportClock}
    (hat : before.AtLeast h timestamp) : after.AtLeast h timestamp := by
  obtain ⟨d, hd, hle⟩ := hat
  obtain ⟨d', hd', hle'⟩ := hadvances.stores d hd
  exact ⟨d', hd', hle.trans hle'⟩

theorem Node.Advances.of_view (hready : after.Ready)
    (hnodeId : after.clock.nodeId = before.clock.nodeId) (hview : after.view h = before.view h) :
    before.Advances h after := by
  refine ⟨hready, hnodeId, ?_⟩
  intro d hd
  exact (hd.congr hview).atLeast

/-- A write leaves its timestamp or a higher one. -/
theorem Node.Writes.advances {config : Configuration} {key value : SimpleString} {d : DataAVLNode}
    {timestamp : LamportClock} {result : Option DbEditResult}
    (hwrites : before.Writes config key value timestamp d result after)
    (hd : before.Stores (config.calculateHash key) d) :
    before.Advances (config.calculateHash key) after ∧
      after.AtLeast (config.calculateHash key) timestamp := by
  rcases hwrites.cases with ⟨hle, -, hview, -⟩ | ⟨hlt, -, hview, -⟩
  · have hat := (hd.put key hview).atLeast
    refine ⟨⟨hwrites.ready, hwrites.nodeId, ?_⟩, hat⟩
    intro stored hstored
    cases hstored.data.symm.trans hd.data
    exact ⟨_, hd.put key hview, hle⟩
  · exact ⟨.of_view hwrites.ready hwrites.nodeId (congrFun hview _), d, hd.congr (congrFun hview _),
      hlt.le⟩

end advances

/-! ### The invariant -/

/-- The node and half of the others, itself not counted, store the timestamp or a higher one. -/
def CasSummary.Held {n : Nat} (configs : Fin n → Configuration) (key : SimpleString)
    (s : CasSummary n) (i : Fin n) (timestamp : LamportClock) : Prop :=
  (s.nodes i).AtLeast ((configs i).calculateHash key) timestamp ∧
    HasQuorum fun t => t ≠ i ∧ (s.nodes t).AtLeast ((configs t).calculateHash key) timestamp

structure CasSummary.Tracked {n : Nat} (configs : Fin n → Configuration) (key : SimpleString)
    (s : CasSummary n) : Prop where
  ready : ∀ i, (s.nodes i).Ready
  nodeId : ∀ i, (s.nodes i).clock.nodeId = (configs i).nodeId
  /-- The proposer stores a value as long as its call runs. -/
  reads : ∀ i call, s.calls i = some call → call.response = none →
    ∃ d, (s.nodes i).Stores ((configs i).calculateHash key) d
  accepted : ∀ p t call, s.calls p = some call → s.accepted p t →
    (s.nodes t).AtLeast ((configs t).calculateHash key) call.nextTimestamp
  succeeded : ∀ i call, s.calls i = some call → call.successful = true →
    s.Held configs key i call.nextTimestamp

/-- A proposal for the key, with a timestamp of its node. -/
def CasProposal.OnKey (config : Configuration) (key : SimpleString) (proposal : CasProposal) :
    Prop :=
  proposal.key = key ∧ proposal.nextTimestamp.nodeId = config.nodeId

structure CasCluster.Tracked {n : Nat} (configs : Fin n → Configuration) (key : SimpleString)
    (cluster : CasCluster n) : Prop where
  wired : cluster.Wired configs fun i => CasProposal.OnKey (configs i) key
  genuine : ∀ p b t, (cluster.exchanges p b t).Genuine
  tracked : cluster.summary.Tracked configs key

section tracked
variable {n : Nat} {configs : Fin n → Configuration} {key : SimpleString} {s : CasSummary n}
  {cluster cluster' : CasCluster n} {i t : Fin n} {node : Node} {event : CasEvent n}

/-! ### Moves -/

section
variable (h : s.Tracked configs key)
include h

/-- What other sessions, or other requests, do to the nodes. -/
theorem CasSummary.Tracked.advance {nodes : Fin n → Node}
    (hnodes : ∀ i, (s.nodes i).Advances ((configs i).calculateHash key) (nodes i)) :
    CasSummary.Tracked configs key { s with nodes } := by
  refine ⟨fun i => (hnodes i).ready, fun i => (hnodes i).nodeId.trans (h.nodeId i), ?_, ?_, ?_⟩
  · intro i call hcall hresponse
    obtain ⟨d, hd⟩ := h.reads i call hcall hresponse
    obtain ⟨d', hd', -⟩ := (hnodes i).stores d hd
    exact ⟨d', hd'⟩
  · intro p t call hcall haccepted
    exact (hnodes t).atLeast (h.accepted p t call hcall haccepted)
  · intro i call hcall hsuccess
    obtain ⟨hat, hquorum⟩ := h.succeeded i call hcall hsuccess
    exact ⟨(hnodes i).atLeast hat, hquorum.mono fun t ht => ⟨ht.1, (hnodes t).atLeast ht.2⟩⟩

/-- The nodes after one of them has changed. -/
theorem CasSummary.Tracked.advances_update
    (hnode : (s.nodes t).Advances ((configs t).calculateHash key) node) (i : Fin n) :
    (s.nodes i).Advances ((configs i).calculateHash key) (update s.nodes t node i) := by
  by_cases hi : i = t
  · rw [hi, update_self]
    exact hnode
  · rw [update_of_ne hi]
    exact .of_view (h.ready i) rfl rfl

/-- A call goes on. -/
theorem CasSummary.Tracked.setCall {call : CasCall}
    (hreads : call.response = none → ∃ d, (s.nodes i).Stores ((configs i).calculateHash key) d)
    (haccepted : ∀ t, s.accepted i t →
      (s.nodes t).AtLeast ((configs t).calculateHash key) call.nextTimestamp)
    (hsucceeded : call.successful = true → s.Held configs key i call.nextTimestamp) :
    CasSummary.Tracked configs key { s with calls := update s.calls i (some call) } := by
  refine ⟨h.ready, h.nodeId, ?_, ?_, ?_⟩
  · intro p c hc
    rcases update_calls hc with ⟨rfl, rfl⟩ | ⟨-, hold⟩
    · exact hreads
    · exact h.reads p c hold
  · intro p t c hc
    rcases update_calls hc with ⟨rfl, rfl⟩ | ⟨-, hold⟩
    · exact haccepted t
    · exact h.accepted p t c hold
  · intro p c hc
    rcases update_calls hc with ⟨rfl, rfl⟩ | ⟨-, hold⟩
    · exact hsucceeded
    · exact h.succeeded p c hold

end

/-- A call has its accepts, and writes its value. -/
theorem CasCluster.Tracked.commit (hconfigs : Replicated configs) (h : cluster.Tracked configs key)
    {call call' : CasCall} (hwaiting : cluster.waiting i .WAITING_FOR_ACCEPT = some call)
    (hquorum : waitForSuccessfulQuorum (n - 1) (cluster.successfulResponses i call) = true)
    (hcommit : call.commit (configs i) (cluster.nodes i) = some (call', node)) :
    CasSummary.Tracked configs key { cluster.summary with
        nodes := update cluster.nodes i node
        calls := update cluster.calls i (some call') } ∧
      (cluster.nodes i).Advances ((configs i).calculateHash key) node := by
  obtain ⟨hcall, hresponse, -⟩ := waiting_eq_some hwaiting
  obtain ⟨hkey, -⟩ := h.wired.calls i call hcall hresponse
  obtain ⟨d, hd⟩ := h.tracked.reads i call hcall hresponse
  rw [← hkey] at hd
  obtain ⟨result, hwrites, rfl⟩ :=
    commit_cases (h.tracked.ready i) (hconfigs.usePartitions i) hd hcommit
  obtain ⟨hadvances, hat⟩ := hwrites.advances hd
  rw [hkey] at hadvances hat
  have hnodes := h.tracked.advances_update hadvances
  -- the proposer wrote after the quorum was counted: what the quorum stores has not gone back
  have haccepted : ∀ t, cluster.summary.accepted i t →
      (update cluster.nodes i node t).AtLeast ((configs t).calculateHash key) call.nextTimestamp :=
    fun t ht => (hnodes t).atLeast (h.tracked.accepted i t call hcall ht)
  refine ⟨?_, hadvances⟩
  cases result with
  | none =>
    exact (h.tracked.advance hnodes).setCall (fun hnone => by cases hnone) haccepted
      (fun hsuccess => by cases hsuccess)
  | some edit =>
    refine (h.tracked.advance hnodes).setCall (fun hnone => by cases hnone) haccepted fun _ =>
      ⟨?_, ?_⟩
    · show (update cluster.nodes i node i).AtLeast _ _
      rw [update_self]
      exact hat
    · exact (h.wired.quorum h.genuine hwaiting hquorum).mono fun t ht => ⟨ht.1, haccepted t ht.2⟩

/-- Every move keeps the invariant, and no node goes back. -/
theorem CasCluster.Tracked.moves (hconfigs : Replicated configs) (h : cluster.Tracked configs key)
    (hevent : event.OnKey configs key cluster)
    (hattempt : ∀ i before, cluster.Attempting i before event → before.key = key)
    (hmoves : cluster.Moves configs (fun i => CasProposal.OnKey (configs i) key) event s) :
    s.Tracked configs key ∧
      ∀ i, (cluster.nodes i).Advances ((configs i).calculateHash key) (s.nodes i) := by
  have hstay : ∀ i, (cluster.nodes i).Advances ((configs i).calculateHash key) (cluster.nodes i) :=
    fun i => .of_view (h.tracked.ready i) rfl rfl
  -- a version only grows, so what a node has read or accepted before stays true
  cases hmoves with
  | @attempt _ i before call sent hbefore hrenewed hnone =>
    refine ⟨h.tracked.setCall ?_ (fun t ht => absurd ht (hnone t)) ?_, hstay⟩
    · intro hresponse
      cases hrenewed with
      | fails => cases hresponse
      | proposes hstored => exact ⟨_, hattempt i before hbefore ▸ hstored⟩
    · intro hsuccess
      cases hrenewed with
      | fails => cases hsuccess
      | proposes => simp [CasCall.successful, hbefore.before.1] at hsuccess
  | @propose i call hwaiting hnone =>
    obtain ⟨hcall, hresponse, -⟩ := waiting_eq_some hwaiting
    refine ⟨h.tracked.setCall (fun _ => h.tracked.reads i call hcall hresponse)
      (fun t ht => absurd ht (hnone t)) ?_, hstay⟩
    intro hsuccess
    simp [CasCall.successful, CasCall.accept, hresponse] at hsuccess
  | @promise p t b rounds =>
    have hready := h.tracked.ready t
    have hnode : (cluster.nodes t).Advances ((configs t).calculateHash key)
        { cluster.nodes t with paxosRoundsAcceptatorByKeyHash := rounds } :=
      .of_view ⟨hready.running, hready.buffer, hready.outbox, hready.store⟩ rfl rfl
    have hnodes := h.tracked.advances_update hnode
    exact ⟨h.tracked.advance hnodes, hnodes⟩
  | @accept p t b c d result node hpt hc hP hstate hrequest hrefused hd hle hwrites =>
    rw [hP.1] at hd hwrites
    obtain ⟨hadvances, hat⟩ := hwrites.advances hd
    have hnodes := h.tracked.advances_update hadvances
    have hadvanced := h.tracked.advance hnodes
    refine ⟨⟨hadvanced.ready, hadvanced.nodeId, hadvanced.reads, ?_, hadvanced.succeeded⟩, hnodes⟩
    -- the one new acceptance is of the value just written
    rintro q r call hcall (hold | ⟨-, rfl, rfl⟩)
    · exact hadvanced.accepted q r call hcall hold
    · cases hc.symm.trans hcall
      show (update cluster.nodes r node r).AtLeast _ _
      rw [update_self]
      exact hat
  | returned => exact ⟨h.tracked, hstay⟩
  | failed => exact ⟨h.tracked, hstay⟩
  | @abort i call hwaiting =>
    obtain ⟨hcall, -, -⟩ := waiting_eq_some hwaiting
    exact ⟨h.tracked.setCall (fun hnone => by cases hnone)
      (fun t ht => h.tracked.accepted i t call hcall ht) (fun hsuccess => by cases hsuccess), hstay⟩
  | commit hwaiting hquorum hcommit =>
    obtain ⟨htracked, hadvances⟩ := h.commit hconfigs hwaiting hquorum hcommit
    exact ⟨htracked, h.tracked.advances_update hadvances⟩
  | other =>
    obtain ⟨hready, hview, hnodeId⟩ := hevent
    have hnodes := h.tracked.advances_update (.of_view hready hnodeId hview)
    exact ⟨h.tracked.advance hnodes, hnodes⟩

/-- Every step keeps the invariant, and no node goes back. -/
theorem CasCluster.Tracked.step (hconfigs : Replicated configs) (h : cluster.Tracked configs key)
    (hevent : event.OnKey configs key cluster) (huncounted : event.uncounted cluster = true)
    (hstep : CasCluster.step configs event cluster = some cluster') :
    cluster'.Tracked configs key ∧
      ∀ i, (cluster.nodes i).Advances ((configs i).calculateHash key) (cluster'.nodes i) := by
  have hattempt : ∀ i before, cluster.Attempting i before event →
      before.toCasProposal.OnKey (configs i) key := by
    intro i before hbefore
    cases hbefore with
    | call _ hstart =>
      simp only [CasCall.start, show _ = some key from hevent, bind_eq_bind, bind_some,
        bind_eq_some_iff] at hstart
      obtain ⟨expectedValue, -, newValue, -, hcall⟩ := hstart
      cases hcall
      exact ⟨rfl, h.tracked.nodeId i⟩
    | retry hwaiting =>
      obtain ⟨hcall, hresponse, -⟩ := waiting_eq_some hwaiting
      exact h.wired.calls i before hcall hresponse
  obtain ⟨hwired, hmoves⟩ := h.wired.step hconfigs h.tracked.ready (fun _ _ hP => hP.2)
    (fun i before _ hbefore _ => hattempt i before hbefore) hstep
  obtain ⟨htracked, hnodes⟩ :=
    h.moves hconfigs hevent (fun i before hbefore => (hattempt i before hbefore).1) hmoves
  exact ⟨⟨hwired, genuine_step h.genuine huncounted hstep, htracked⟩, hnodes⟩

end tracked

/-! ### Runs -/

section runs
variable {n : Nat} {configs : Fin n → Configuration} {key : SimpleString}

open CasCluster (Tracked)

end runs

end MemDb

import Mathlib.Data.Finset.Card
import Mathlib.Data.Prod.Lex
import Mathlib.Order.Lattice.Nat
import MemDb.Lib.Loop
import MemDb.Messages.Response

/-! # Asking any node of a partition group

    `getRandomNode` draws an offset into the ids of a group, and passes over it when the *offset* is
    among the *ids* that were tried. Where the ids are not the offsets, a node can be asked again.
    And `sendRequestToAnyNode` reads `isSuccessful` of what a send returns before it looks for an
    error, with which that field is not initialized: a send that fails can end the search, with
    nodes left to ask.
-/

namespace MemDb

open Lib.Loop List

/-- The ids in the order of `std::set`. -/
structure NodesInPartition where
  nodes : List UInt16
  sorted : nodes.Pairwise (· < ·)

/-- `sendRequestToAnyNode` between two passes of the loop in `getRandomNode`. -/
structure AnyNode where
  alreadyCheckedNodesId : Finset UInt16
  /-- How many random numbers were drawn. -/
  drawn : Nat
  /-- The nodes that the request was sent to. -/
  sent : List UInt16

namespace AnyNode

def start : AnyNode := ⟨∅, 0, []⟩

variable (group : NodesInPartition) (draw : Nat → Fin group.nodes.length)
  (sendRequest : UInt16 → Option Response) (uninitialized : Nat → Bool)

/-- The node at the offset that is drawn next. -/
def drawnNode (self : AnyNode) : UInt16 := group.nodes.get (draw self.drawn)

/-- `isSuccessful` as it is read of what the next send returns. `sendRequest` is `none` for an
    error, and `uninitialized` is what the field then holds, by the number of the send. -/
def isSuccessful (self : AnyNode) (nodeId : UInt16) : Bool :=
  (sendRequest nodeId).elim (uninitialized self.sent.length) (·.isSuccessful)

/-- One pass, with the request that is sent when a node is found. The result is the response, or
    `none` for the error, with the nodes that the request was sent to. -/
def pass (self : AnyNode) : AnyNode ⊕ (List UInt16 × Option Response) :=
  if self.alreadyCheckedNodesId.card ≠ group.nodes.length then
    let offset := draw self.drawn
    if UInt16.ofNat offset ∈ self.alreadyCheckedNodesId then
      .inl { self with drawn := self.drawn + 1 }
    else
      let nodeId := self.drawnNode group draw
      if self.isSuccessful sendRequest uninitialized nodeId then
        .inr (self.sent ++ [nodeId], sendRequest nodeId)
      else
        .inl ⟨insert nodeId self.alreadyCheckedNodesId, self.drawn + 1, self.sent ++ [nodeId]⟩
  else .inr (self.sent, none)

/-- It returns, asks no node twice, and gives up only after all were asked. -/
def TriesAll : Prop :=
  ∃ sent result, Returns (pass group draw sendRequest uninitialized) start (sent, result) ∧
    sent.Nodup ∧ (∀ response, result = some response → response.isSuccessful = true) ∧
    (result = none → group.nodes ⊆ sent)

/-- If the next draw is not passed over, its node was not tried, and a send to it that fails is
    taken for a success only when no other node is left. -/
def Fresh (self : AnyNode) : Prop :=
  self.alreadyCheckedNodesId.card ≠ group.nodes.length →
    UInt16.ofNat (draw self.drawn) ∉ self.alreadyCheckedNodesId →
      self.drawnNode group draw ∉ self.alreadyCheckedNodesId ∧
      (sendRequest (self.drawnNode group draw) = none → uninitialized self.sent.length = true →
        group.nodes ⊆ self.sent ++ [self.drawnNode group draw])

variable {group draw sendRequest uninitialized} {self : AnyNode}

/-- The nodes that were tried are those that the request was sent to. -/
structure Tried (group : NodesInPartition) (state : AnyNode) : Prop where
  checked : state.alreadyCheckedNodesId = state.sent.toFinset
  nodup : state.sent.Nodup
  subset : state.sent ⊆ group.nodes

theorem Tried.send (h : self.Tried group) {nodeId : UInt16}
    (hfresh : nodeId ∉ self.alreadyCheckedNodesId) (hnode : nodeId ∈ group.nodes) (drawn : Nat) :
    Tried group ⟨insert nodeId self.alreadyCheckedNodesId, drawn, self.sent ++ [nodeId]⟩ := by
  rw [h.checked, mem_toFinset] at hfresh
  refine ⟨by simp [h.checked], ?_, by simp [h.subset, hnode]⟩
  exact h.nodup.append (nodup_singleton _) (by simpa using hfresh)

theorem drawnNode_mem (self : AnyNode) : self.drawnNode group draw ∈ group.nodes := get_mem _ _

theorem Tried.card (h : self.Tried group) :
    self.alreadyCheckedNodesId.card = self.sent.length := by
  rw [h.checked, toFinset_card_of_nodup h.nodup]

/-- The offsets are different numbers also as ids. -/
theorem ofNat_injective (group : NodesInPartition) :
    Function.Injective fun i : Fin group.nodes.length => UInt16.ofNat i := by
  have hlength : group.nodes.length ≤ 2 ^ 16 := by
    have hnodup : (group.nodes.map UInt16.toNat).Nodup :=
      group.sorted.nodup.map fun _ _ => UInt16.toNat_inj.mp
    have hsubset : group.nodes.map UInt16.toNat ⊆ range (2 ^ 16) := by
      intro nodeId hnode
      obtain ⟨nodeId, -, rfl⟩ := mem_map.mp hnode
      exact mem_range.mpr nodeId.toNat_lt
    simpa using (hnodup.subperm hsubset).length_le
  intro i j heq
  have hnat := congrArg UInt16.toNat heq
  simp only [UInt16.toNat_ofNat'] at hnat
  omega

/-- As long as a node is left, some offset is not passed over. -/
theorem Tried.exists_offset (h : self.Tried group)
    (hcard : self.alreadyCheckedNodesId.card ≠ group.nodes.length) :
    ∃ i : Fin group.nodes.length, UInt16.ofNat i ∉ self.alreadyCheckedNodesId := by
  by_contra! hall
  have hle : Finset.univ.image (fun i : Fin group.nodes.length => UInt16.ofNat i) ⊆
      self.alreadyCheckedNodesId := by
    intro nodeId hmem
    obtain ⟨i, -, rfl⟩ := Finset.mem_image.mp hmem
    exact hall i
  have hcount := Finset.card_le_card hle
  rw [Finset.card_image_of_injective _ (ofNat_injective group), Finset.card_fin] at hcount
  have hlength := (h.nodup.subperm h.subset).length_le
  rw [h.card] at hcard hcount
  omega

/-- The numbers of draws after which an offset is not passed over. -/
def waits (draw : Nat → Fin group.nodes.length) (self : AnyNode) : Set Nat :=
  {j | UInt16.ofNat (draw (self.drawn + j)) ∉ self.alreadyCheckedNodesId}

/-- To pass over an offset brings the next one nearer that is not. -/
theorem Tried.waits_lt (h : self.Tried group) (hfair : Fair draw)
    (hcard : self.alreadyCheckedNodesId.card ≠ group.nodes.length)
    (hmem : UInt16.ofNat (draw self.drawn) ∈ self.alreadyCheckedNodesId) :
    sInf (waits draw { self with drawn := self.drawn + 1 }) < sInf (waits draw self) := by
  obtain ⟨i, hi⟩ := h.exists_offset hcard
  obtain ⟨k, hk, rfl⟩ := hfair i self.drawn
  have hwaits : k - self.drawn ∈ waits draw self := by
    simpa [waits, hk] using hi
  have hfirst := Nat.sInf_mem ⟨_, hwaits⟩
  obtain ⟨j, hj⟩ := Nat.exists_eq_succ_of_ne_zero (n := sInf (waits draw self)) fun hzero => by
    rw [hzero] at hfirst
    exact hfirst hmem
  rw [hj] at hfirst ⊢
  refine Nat.lt_succ_of_le (Nat.sInf_le ?_)
  simpa [waits, ← Nat.add_assoc, Nat.add_right_comm] using hfirst

/-- Where every draw that is not passed over is fresh, the loop ends and tries all. -/
theorem triesAll_of_fresh (hfair : Fair draw)
    (hfresh : ∀ state, Reaches (pass group draw sendRequest uninitialized) start state →
      state.Fresh group draw sendRequest uninitialized) :
    TriesAll group draw sendRequest uninitialized := by
  -- each pass leaves fewer nodes to try, or fewer draws until one is tried
  have hpass : ∀ state next : AnyNode, state.Tried group ∧
      Reaches (pass group draw sendRequest uninitialized) start state →
      pass group draw sendRequest uninitialized state = .inl next →
      (next.Tried group ∧ Reaches (pass group draw sendRequest uninitialized) start next) ∧
      toLex (group.nodes.length - next.sent.length, sInf (waits draw next)) <
        toLex (group.nodes.length - state.sent.length, sInf (waits draw state)) := by
    rintro state next ⟨htried, hreached⟩ hpass
    have hnext := hreached.pass hpass
    have hlength := (htried.nodup.subperm htried.subset).length_le
    simp only [pass, ne_eq, ite_not] at hpass
    split_ifs at hpass with hcard hmem <;> cases hpass
    · exact ⟨⟨⟨htried.checked, htried.nodup, htried.subset⟩, hnext⟩,
        Prod.Lex.toLex_lt_toLex.mpr (.inr ⟨rfl, htried.waits_lt hfair hcard hmem⟩)⟩
    · have hsent := htried.send (hfresh state hreached hcard hmem).1 state.drawnNode_mem
        (state.drawn + 1)
      refine ⟨⟨hsent, hnext⟩, Prod.Lex.toLex_lt_toLex.mpr (.inl ?_)⟩
      rw [htried.card] at hcard
      simp only [length_append, length_singleton]
      omega
  have hstart : start.Tried group := ⟨rfl, nodup_nil, nil_subset _⟩
  obtain ⟨⟨sent, result⟩, hreturns⟩ := exists_returns _ _ hpass ⟨hstart, .start⟩
  obtain ⟨last, ⟨htried, hreached⟩, hleave⟩ :=
    hreturns.invariant (fun _ _ h hnext => (hpass _ _ h hnext).1) ⟨hstart, .start⟩
  refine ⟨sent, result, hreturns, ?_⟩
  simp only [pass, ne_eq, ite_not] at hleave
  split_ifs at hleave with hcard hmem hsuccess <;> cases hleave
  · refine ⟨htried.nodup, by simp, fun _ => ?_⟩
    rw [htried.card] at hcard
    exact ((htried.nodup.subperm htried.subset).perm_of_length_le hcard.ge).symm.subset
  · obtain ⟨hnew, hlast⟩ := hfresh last hreached hcard hmem
    refine ⟨(htried.send hnew last.drawnNode_mem 0).nodup, ?_, ?_⟩
    · intro response hresponse
      simpa [isSuccessful, hresponse] using hsuccess
    · intro herror
      exact hlast herror (by simpa [isSuccessful, herror] using hsuccess)

/-- What has been sent stays sent. -/
theorem prefix_pass {out : AnyNode ⊕ (List UInt16 × Option Response)}
    (h : pass group draw sendRequest uninitialized self = out) :
    self.sent <+: out.elim sent Prod.fst := by
  simp only [← h, pass]
  split_ifs <;> simp

theorem prefix_of_returns {sent : List UInt16} {result : Option Response}
    (h : Returns (pass group draw sendRequest uninitialized) self (sent, result)) :
    self.sent <+: sent := by
  have hgrows : ∀ state next : AnyNode, self.sent <+: state.sent →
      pass group draw sendRequest uninitialized state = .inl next → self.sent <+: next.sent :=
    fun _ _ hbegins hpass => hbegins.trans (prefix_pass hpass)
  obtain ⟨last, hbegins, hleave⟩ := h.invariant hgrows prefix_rfl
  exact hbegins.trans (prefix_pass hleave)

theorem checked_of_reaches
    (h : Reaches (pass group draw sendRequest uninitialized) start self) :
    self.alreadyCheckedNodesId = self.sent.toFinset := by
  induction h with
  | start => rfl
  | pass _ hpass ih =>
    simp only [pass, ne_eq, ite_not] at hpass
    split_ifs at hpass <;> cases hpass
    · exact ih
    · simp [ih]

/-- A search that tries all is fresh in every state that it passes through. -/
theorem TriesAll.fresh (h : TriesAll group draw sendRequest uninitialized)
    (hreached : Reaches (pass group draw sendRequest uninitialized) start self) :
    self.Fresh group draw sendRequest uninitialized := by
  obtain ⟨sent, result, hreturns, hnodup, -, hall⟩ := h
  intro hcard hmem
  have hrest := hreturns.of_reaches hreached
  -- the request goes to the node, and the search ends there or not
  have hleave : self.isSuccessful sendRequest uninitialized (self.drawnNode group draw) = true →
      (sent, result) =
        (self.sent ++ [self.drawnNode group draw], sendRequest (self.drawnNode group draw)) := by
    intro hsuccess
    exact hrest.unique (.leave (by simp [pass, hcard, hmem, hsuccess]))
  have hsent : self.sent ++ [self.drawnNode group draw] <+: sent := by
    cases hsuccess : self.isSuccessful sendRequest uninitialized (self.drawnNode group draw) with
    | true =>
      cases hleave hsuccess
      exact prefix_rfl
    | false =>
      have hnext : pass group draw sendRequest uninitialized self =
          .inl ⟨insert (self.drawnNode group draw) self.alreadyCheckedNodesId, self.drawn + 1,
            self.sent ++ [self.drawnNode group draw]⟩ := by
        simp [pass, hcard, hmem, hsuccess]
      exact prefix_of_returns (hrest.of_pass hnext)
  refine ⟨?_, ?_⟩
  · rw [checked_of_reaches hreached, mem_toFinset]
    intro hold
    exact (nodup_append.mp (hnodup.sublist hsent.sublist)).2.2 _ hold _ (mem_singleton_self _) rfl
  · intro herror huninitialized
    cases hleave (by simp [isSuccessful, herror, huninitialized])
    exact hall herror

/-- For every group, every pattern of answers and failures and every fair stream: all is well just
    if every draw that is not passed over is fresh. -/
theorem triesAll_iff (group : NodesInPartition) {draw : Nat → Fin group.nodes.length}
    (hfair : Fair draw) (sendRequest : UInt16 → Option Response) (uninitialized : Nat → Bool) :
    TriesAll group draw sendRequest uninitialized ↔
      ∀ state, Reaches (pass group draw sendRequest uninitialized) start state →
        state.Fresh group draw sendRequest uninitialized :=
  ⟨fun h _ => h.fresh, triesAll_of_fresh hfair⟩

/-- The second of the nodes 1 and 2 cannot be reached. -/
def secondFails (nodeId : UInt16) : Option Response :=
  if nodeId = 1 then some .success else none

/-- The second node is drawn first, then the first one. -/
theorem triesAll_two : ∃ draw, Fair draw ∧
    TriesAll ⟨[1, 2], by decide⟩ draw secondFails fun _ => false := by
  have hfair := Fair.tail (fair_repeat 0 (0 : Fin 2))
  refine ⟨_, hfair, (triesAll_iff ⟨[1, 2], by decide⟩ hfair _ _).mpr ?_⟩
  intro state hreached
  have hstates : state = start ∨ state = ⟨{2}, 1, [2]⟩ := by
    induction hreached with
    | start => exact .inl rfl
    | pass _ hpass ih =>
      rcases ih with rfl | rfl
      · exact .inr (Sum.inl.inj hpass).symm
      · cases hpass
  rcases hstates with rfl | rfl
  · exact fun _ _ => ⟨by decide, by simp⟩
  · exact fun _ _ => ⟨by decide, by simp⟩

/-- Of the nodes 1 and 2 the second one has the offset 1; it fails and is asked again. -/
theorem not_triesAll_two : ∃ draw, Fair draw ∧
    ¬ TriesAll ⟨[1, 2], by decide⟩ draw secondFails fun _ => false := by
  refine ⟨_, fair_repeat 2 (1 : Fin 2), fun h => ?_⟩
  exact (@TriesAll.fresh _ _ _ _ ⟨{2}, 1, [2]⟩ h (.pass .start rfl) (by decide) (by decide)).1
    (by decide)

end AnyNode

end MemDb

import Mathlib.Data.Finset.Card
import MemDb.Client.Response
import MemDb.Lib.Loop

/-! # Fail-over of the Java client

    `sendRequestToRandomNode` tries nodes until one answers. `getRandomNode` draws once, outside the
    loop that looks for a node that was not tried: when the drawn node was tried, this loop never
    ends. So the fail-over works for just those streams of draws that, until a node answers, bring a
    new one each time.
-/

namespace MemDb.Client

open Lib.Loop List

structure Node where
  nodeId : Int
  address : String
deriving DecidableEq, Repr

/-- Between two passes of the loop of `sendRequestToRandomNode` or of the one in `getRandomNode`. -/
structure FailOver where
  seedNodeAddressTried : Finset String
  /-- How many random numbers were drawn. -/
  drawn : Nat
  /-- The node that `getRandomNode` has drawn, while it runs. -/
  seedNodeSelected : Option Node
  /-- The nodes that the request was sent to. -/
  sent : List Node

namespace FailOver

def start : FailOver := ⟨∅, 0, none, []⟩

variable (nodes : List Node) (draw : Nat → Fin nodes.length) (sendRequest : Node → Option Response)

/-- The node that the draw with this number selects. -/
def drawnNode (k : Nat) : Node := nodes.get (draw k)

/-- One pass of either loop. `sendRequest` is `none` where it throws, which `Try.of` catches; the
    result is the response or the message of the exception, with the nodes that the request was sent
    to. -/
def pass (self : FailOver) : FailOver ⊕ (List Node × Except String Response) :=
  -- both loops have this test, and both throw this exception
  if self.seedNodeAddressTried.card < nodes.length then
    match self.seedNodeSelected with
    | none =>
      .inl { self with
        drawn := self.drawn + 1, seedNodeSelected := some (drawnNode nodes draw self.drawn) }
    | some node =>
      if node.address ∉ self.seedNodeAddressTried then
        match sendRequest node with
        | some response => .inr (self.sent ++ [node], .ok response)
        | none =>
          .inl ⟨insert node.address self.seedNodeAddressTried, self.drawn, none,
            self.sent ++ [node]⟩
      else .inl self
  else .inr (self.sent, .error "No node available to send request")

/-- It ends, sends to no node twice, and returns a response if a node does not fail. -/
def FailsOver : Prop :=
  ∃ sent result, Returns (pass nodes draw sendRequest) start (sent, result) ∧ sent.Nodup ∧
    ((∃ node ∈ nodes, (sendRequest node).isSome) → ∃ response, result = .ok response)

/-- The address of the drawn node is none of those drawn before. -/
def Fresh (k : Nat) : Prop :=
  ∀ j < k, (drawnNode nodes draw j).address ≠ (drawnNode nodes draw k).address

/-- The state after `k` draws of new nodes that have failed. -/
def failed (k : Nat) : FailOver :=
  ⟨((range k).map fun j => (drawnNode nodes draw j).address).toFinset, k, none,
    (range k).map (drawnNode nodes draw)⟩

/-- Behind the next draw. -/
def selected (k : Nat) : FailOver :=
  { failed nodes draw k with drawn := k + 1, seedNodeSelected := some (drawnNode nodes draw k) }

variable {nodes draw sendRequest} {k : Nat}

theorem not_mem_tried : (drawnNode nodes draw k).address ∉
    (selected nodes draw k).seedNodeAddressTried ↔ Fresh nodes draw k := by
  simp [Fresh, selected, failed]

section
variable (hfresh : ∀ j < k, Fresh nodes draw j)
include hfresh

theorem nodup_addresses : ((range k).map fun j => (drawnNode nodes draw j).address).Nodup := by
  refine pairwise_map.mpr (pairwise_lt_range.imp_of_mem ?_)
  intro i j _ hj hlt
  exact hfresh j (mem_range.mp hj) i hlt

theorem nodup_drawn : ((range k).map (drawnNode nodes draw)).Nodup := by
  have haddresses := nodup_addresses hfresh
  rw [← Function.comp_def, ← map_map] at haddresses
  exact haddresses.of_map

theorem card_failed : (failed nodes draw k).seedNodeAddressTried.card = k := by
  rw [failed, toFinset_card_of_nodup (nodup_addresses hfresh), length_map, length_range]

theorem pass_failed (hk : k < nodes.length) :
    pass nodes draw sendRequest (failed nodes draw k) = .inl (selected nodes draw k) := by
  unfold pass
  rw [if_pos ((card_failed hfresh).trans_lt hk)]
  rfl

theorem selected_lt (hk : k < nodes.length) :
    (selected nodes draw k).seedNodeAddressTried.card < nodes.length :=
  (card_failed hfresh).trans_lt hk

/-- A new node is asked. -/
theorem pass_selected (hk : k < nodes.length) (hnew : Fresh nodes draw k) :
    pass nodes draw sendRequest (selected nodes draw k) =
      (sendRequest (drawnNode nodes draw k)).elim (.inl (failed nodes draw (k + 1))) fun response =>
        .inr ((range (k + 1)).map (drawnNode nodes draw), .ok response) := by
  unfold pass
  rw [if_pos (selected_lt hfresh hk)]
  refine (if_pos (not_mem_tried.mpr hnew)).trans ?_
  cases sendRequest (drawnNode nodes draw k) with
  | none => simp [selected, failed, range_succ]
  | some response => simp [selected, failed, range_succ]

/-- One that was tried is waited for. -/
theorem pass_selected_tried (hk : k < nodes.length) (hold : ¬ Fresh nodes draw k) :
    pass nodes draw sendRequest (selected nodes draw k) = .inl (selected nodes draw k) := by
  unfold pass
  rw [if_pos (selected_lt hfresh hk)]
  exact if_neg (mt not_mem_tried.mp hold)

end

/-- New nodes that fail are passed one after another. -/
theorem returns_failed (hk : k ≤ nodes.length) (hfresh : ∀ j < k, Fresh nodes draw j)
    (hfails : ∀ j < k, sendRequest (drawnNode nodes draw j) = none)
    {result : List Node × Except String Response} :
    Returns (pass nodes draw sendRequest) start result ↔
      Returns (pass nodes draw sendRequest) (failed nodes draw k) result := by
  induction k with
  | zero => rfl
  | succ k ih =>
    have hbefore : ∀ j < k, Fresh nodes draw j := fun j hj => hfresh j (by omega)
    have hdraw := @pass_failed nodes draw sendRequest k hbefore (by omega)
    have hsend := @pass_selected nodes draw sendRequest k hbefore (by omega) (hfresh k (by omega))
    rw [hfails k (by omega), Option.elim_none] at hsend
    rw [ih (by omega) hbefore fun j hj => hfails j (by omega)]
    exact ⟨fun h => (h.of_pass hdraw).of_pass hsend, fun h => .pass hdraw (.pass hsend h)⟩

theorem fresh_of_failsOver (h : FailsOver nodes draw sendRequest) (hk : k < nodes.length)
    (hfails : ∀ j < k, sendRequest (drawnNode nodes draw j) = none) : Fresh nodes draw k := by
  obtain ⟨sent, result, hreturns, -⟩ := h
  induction k using Nat.strong_induction_on with
  | _ k ih =>
    have hfresh : ∀ j < k, Fresh nodes draw j := fun j hj =>
      ih j hj (by omega) fun i hi => hfails i (by omega)
    by_contra hold
    -- the loop of `getRandomNode` finds the drawn node in each pass
    refine not_returns (· = selected nodes draw k) ?_ rfl _
      (((returns_failed hk.le hfresh hfails).mp hreturns).of_pass (pass_failed hfresh hk))
    rintro _ rfl
    exact ⟨_, pass_selected_tried hfresh hk hold, rfl⟩

theorem failsOver_of_fresh (h : ∀ k < nodes.length,
    (∀ j < k, sendRequest (drawnNode nodes draw j) = none) → Fresh nodes draw k) :
    FailsOver nodes draw sendRequest := by
  -- the first draw that finds a node that answers, or all nodes have failed before it
  have hexists : ∃ k, k = nodes.length ∨ (sendRequest (drawnNode nodes draw k)).isSome :=
    ⟨_, .inl rfl⟩
  obtain ⟨k, hfound, hfirst⟩ : ∃ k, (k = nodes.length ∨
      (sendRequest (drawnNode nodes draw k)).isSome) ∧ ∀ j < k,
        ¬ (j = nodes.length ∨ (sendRequest (drawnNode nodes draw j)).isSome) :=
    ⟨_, Nat.find_spec hexists, fun _ => Nat.find_min hexists⟩
  have hk : k ≤ nodes.length := not_lt.mp fun hlt => hfirst _ hlt (.inl rfl)
  have hfails : ∀ j < k, sendRequest (drawnNode nodes draw j) = none := by
    intro j hj
    simpa using (not_or.mp (hfirst j hj)).2
  have hfresh : ∀ j < k, Fresh nodes draw j := fun j hj =>
    h j (by omega) fun i hi => hfails i (by omega)
  by_cases hlast : k = nodes.length
  · refine ⟨_, .error "No node available to send request", (returns_failed hk hfresh hfails).mpr
      (.leave ?_), nodup_drawn hfresh, ?_⟩
    · unfold pass
      rw [if_neg (by rw [card_failed hfresh]; omega)]
      rfl
    · -- every node has been drawn
      have hsubset : (range k).map (drawnNode nodes draw) ⊆ nodes := by
        simp [subset_def, drawnNode]
      have hall := (((nodup_drawn hfresh).subperm hsubset).perm_of_length_le
        (by simp [hlast])).symm.subset
      rintro ⟨node, hnode, hanswers⟩
      obtain ⟨j, hj, rfl⟩ := mem_map.mp (hall hnode)
      rw [hfails j (mem_range.mp hj)] at hanswers
      cases hanswers
  · have hlt : k < nodes.length := by omega
    obtain ⟨response, hresponse⟩ := Option.isSome_iff_exists.mp (hfound.resolve_left hlast)
    have hnew := h k hlt hfails
    have hsend := @pass_selected nodes draw sendRequest k hfresh hlt hnew
    rw [hresponse, Option.elim_some] at hsend
    refine ⟨_, .ok response, (returns_failed hk hfresh hfails).mpr
      (.pass (pass_failed hfresh hlt) (.leave hsend)), nodup_drawn ?_, fun _ => ⟨_, rfl⟩⟩
    intro j hj
    rcases Nat.lt_succ_iff_lt_or_eq.mp hj with hj | rfl
    · exact hfresh j hj
    · exact hnew

/-- The fail-over works for a stream of draws exactly if, as long as all nodes that were drawn have
    failed and others are left, the next draw is a new one. -/
theorem failsOver_iff (nodes : List Node) (draw : Nat → Fin nodes.length)
    (sendRequest : Node → Option Response) :
    FailsOver nodes draw sendRequest ↔ ∀ k < nodes.length,
      (∀ j < k, sendRequest (drawnNode nodes draw j) = none) → Fresh nodes draw k :=
  ⟨fun h _ => fresh_of_failsOver h, failsOver_of_fresh⟩

/-- Of two nodes the first fails. -/
def firstFails (node : Node) : Option Response :=
  if node.nodeId = 1 then none else some ⟨1, ⟨5, 1⟩, 0, true, []⟩

/-- The first of two nodes fails and is drawn again; the second one is never asked. -/
theorem not_failsOver_two :
    ∃ draw, Fair draw ∧ ¬ FailsOver [⟨1, "a:1"⟩, ⟨2, "b:1"⟩] draw firstFails := by
  refine ⟨_, fair_repeat 2 (0 : Fin 2), ?_⟩
  intro h
  refine fresh_of_failsOver h (by decide : 1 < 2) ?_ 0 (by decide) rfl
  intro j hj
  obtain rfl : j = 0 := by omega
  rfl

end FailOver

end MemDb.Client

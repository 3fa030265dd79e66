import Mathlib.Order.Lattice
import Mathlib.Data.List.Perm.Basic

/-! # Binary search trees

  Binary trees over an arbitrary element type, read through a key function into
  a linear order. A tree is ordered when its in-order listing has increasing
  keys; the descent `find` then decides membership, and what it finds depends only
  on the set of elements listed. Any rearrangement that keeps the listing (a
  rotation, for one) therefore keeps every lookup.
-/

namespace Lib

open List

/-- Binary trees with an element at each inner node. -/
inductive SearchTree (α : Type) where
  | nil
  | node (left : SearchTree α) (x : α) (right : SearchTree α)

namespace SearchTree

variable {α K : Type} [LinearOrder K] (key : α → K)

/-- The in-order listing. -/
def toList : SearchTree α → List α
  | nil => []
  | node l x r => l.toList ++ x :: r.toList

@[simp] theorem toList_nil : (nil : SearchTree α).toList = [] := rfl

@[simp] theorem toList_node (l : SearchTree α) (x : α) (r : SearchTree α) :
    (node l x r).toList = l.toList ++ x :: r.toList := rfl

/-- The keys of the in-order listing increase. -/
def Ordered (t : SearchTree α) : Prop :=
  t.toList.Pairwise (fun x y => key x < key y)

@[simp] theorem ordered_nil : Ordered key (nil : SearchTree α) := Pairwise.nil

theorem ordered_node_iff {l r : SearchTree α} {x : α} :
    Ordered key (node l x r) ↔ Ordered key l ∧ Ordered key r ∧
      (∀ y ∈ l.toList, key y < key x) ∧ (∀ y ∈ r.toList, key x < key y) := by
  unfold Ordered
  rw [toList_node, pairwise_append, pairwise_cons]
  constructor
  · rintro ⟨hl, ⟨hxr, hr⟩, hlr⟩
    exact ⟨hl, hr, fun y hy => hlr y hy x mem_cons_self, hxr⟩
  · rintro ⟨hl, hr, hlx, hxr⟩
    refine ⟨hl, ⟨hxr, hr⟩, fun y hy z hz => ?_⟩
    rcases mem_cons.mp hz with rfl | hz
    · exact hlx y hy
    · exact lt_trans (hlx y hy) (hxr z hz)

/-- A side of a node. -/
inductive Side where
  | left
  | right

def Side.other : Side → Side
  | left => right
  | right => left

/-- The node with `child` on the side, and `other` on the other one. -/
def Side.node : Side → SearchTree α → α → SearchTree α → SearchTree α
  | left, child, x, other => .node child x other
  | right, child, x, other => .node other x child

theorem Side.node_other (side : Side) (child other : SearchTree α) (x : α) :
    side.other.node other x child = side.node child x other := by
  cases side <;> rfl

/-- The key `k` belongs on the side of a node with the key `k'`. -/
def Side.Toward : Side → K → K → Prop
  | left, k, k' => k < k'
  | right, k, k' => k' < k

theorem mem_toList_side {side : Side} {child other : SearchTree α} {x y : α} :
    y ∈ (side.node child x other).toList ↔ y ∈ child.toList ∨ y = x ∨ y ∈ other.toList := by
  cases side with
  | left => simp [Side.node]
  | right =>
    simp only [Side.node, toList_node, mem_append, mem_cons]
    tauto

theorem ordered_side_iff {side : Side} {child other : SearchTree α} {x : α} :
    Ordered key (side.node child x other) ↔ Ordered key child ∧ Ordered key other ∧
      (∀ y ∈ child.toList, side.Toward (key y) (key x)) ∧
        ∀ y ∈ other.toList, side.Toward (key x) (key y) := by
  cases side with
  | left => exact ordered_node_iff key
  | right => exact (ordered_node_iff key).trans (by simp only [Side.Toward]; tauto)

theorem toList_side_perm (side : Side) (child : SearchTree α) (x : α) (other : SearchTree α) :
    (side.node child x other).toList.Perm (x :: (child.toList ++ other.toList)) := by
  cases side with
  | left => exact perm_middle
  | right => exact perm_middle.trans (perm_append_comm.cons x)

theorem toList_side_congr {side : Side} {child child' other : SearchTree α} {x : α}
    (h : child'.toList = child.toList) :
    (side.node child' x other).toList = (side.node child x other).toList := by
  cases side <;> simp [Side.node, h]

/-- Induction along the descent towards the key `k`. -/
@[elab_as_elim]
theorem descent {P : SearchTree α → Prop} (k : K) (nil : P nil)
    (here : ∀ l x r, key x = k → P (node l x r))
    (below : ∀ (side : Side) child x other, side.Toward k (key x) → P child →
      P (side.node child x other)) (s : SearchTree α) : P s := by
  induction s with
  | nil => exact nil
  | node l x r ihl ihr =>
    rcases lt_trichotomy k (key x) with hlt | heq | hgt
    · exact below .left l x r hlt ihl
    · exact here l x r heq.symm
    · exact below .right r x l hgt ihr

/-- Being ordered is a property of the listing. -/
theorem ordered_congr {s t : SearchTree α} (h : s.toList = t.toList) :
    Ordered key s ↔ Ordered key t := by
  unfold Ordered
  rw [h]

/-- The descent from the root towards key `k`. -/
def find (k : K) : SearchTree α → Option α
  | nil => none
  | node l x r =>
    if key x = k then some x
    else if k < key x then l.find k
    else r.find k

theorem find_side {side : Side} {k : K} {x : α} (h : side.Toward k (key x))
    (child other : SearchTree α) : (side.node child x other).find key k = child.find key k := by
  cases side with
  | left => exact (if_neg (ne_of_gt h)).trans (if_pos h)
  | right => exact (if_neg (ne_of_lt h)).trans (if_neg (lt_asymm h))

section
variable {t : SearchTree α} (ho : Ordered key t)
include ho

/-- In an ordered tree the descent finds exactly the elements listed. -/
theorem find_eq_some_iff {k : K} {x : α} :
    t.find key k = some x ↔ x ∈ t.toList ∧ key x = k := by
  induction t with
  | nil => simp [find]
  | node l y r ihl ihr =>
    obtain ⟨hl, hr, hly, hyr⟩ := (ordered_node_iff key).mp ho
    simp only [find, toList_node, mem_append, mem_cons]
    -- the order of the keys rules out the subtree that `find` does not enter
    by_cases hk : key y = k
    · subst hk
      rw [if_pos rfl]
      constructor
      · rintro h
        injection h with h
        subst h
        exact ⟨Or.inr (Or.inl rfl), rfl⟩
      · rintro ⟨hx | rfl | hx, hkey⟩
        · exact absurd hkey (ne_of_lt (hly x hx))
        · rfl
        · exact absurd hkey (ne_of_gt (hyr x hx))
    · rw [if_neg hk]
      by_cases hlt : k < key y
      · rw [if_pos hlt, ihl hl]
        constructor
        · rintro ⟨hx, hkey⟩
          exact ⟨Or.inl hx, hkey⟩
        · rintro ⟨hx | rfl | hx, hkey⟩
          · exact ⟨hx, hkey⟩
          · exact absurd hkey hk
          · exact absurd (hkey ▸ hyr x hx) (lt_asymm hlt)
      · rw [if_neg hlt, ihr hr]
        have hgt : key y < k := lt_of_le_of_ne (not_lt.mp hlt) hk
        constructor
        · rintro ⟨hx, hkey⟩
          exact ⟨Or.inr (Or.inr hx), hkey⟩
        · rintro ⟨hx | rfl | hx, hkey⟩
          · exact absurd (hkey ▸ hly x hx) (lt_asymm hgt)
          · exact absurd hkey hk
          · exact ⟨hx, hkey⟩

theorem find_eq_none_iff {k : K} :
    t.find key k = none ↔ ∀ x ∈ t.toList, key x ≠ k := by
  rw [Option.eq_none_iff_forall_ne_some]
  constructor
  · intro h x hx hkey
    exact h x ((find_eq_some_iff key ho).mpr ⟨hx, hkey⟩)
  · intro h x hx
    obtain ⟨hmem, hkey⟩ := (find_eq_some_iff key ho).mp hx
    exact h x hmem hkey

/-- Two elements of an ordered tree with the same key are the same element. -/
theorem eq_of_key_eq {x y : α} (hx : x ∈ t.toList) (hy : y ∈ t.toList) (hkey : key x = key y) :
    x = y := by
  have h1 := (find_eq_some_iff key ho).mpr ⟨hx, hkey⟩
  have h2 := (find_eq_some_iff key ho).mpr ⟨hy, rfl⟩
  exact Option.some.inj (h1.symm.trans h2)

end

section splice
variable {s s' : SearchTree α} {mid mid' : List α}

/-- `s'` lists what `s` does, with `mid'` in the place of `mid`, and it is ordered if `s` is. -/
structure Spliced (mid mid' : List α) (s s' : SearchTree α) : Prop where
  toList : ∃ pre post, s.toList = pre ++ (mid ++ post) ∧ s'.toList = pre ++ (mid' ++ post)
  ordered : Ordered key s → Ordered key s'

theorem spliced_of_eq (h : s'.toList = s.toList) : Spliced key [] [] s s' :=
  ⟨⟨[], _, rfl, h⟩, (ordered_congr key h).mpr⟩

variable {key}

theorem Spliced.perm (h : Spliced key mid mid' s s') :
    (mid' ++ s.toList).Perm (mid ++ s'.toList) := by
  obtain ⟨pre, post, hs, hs'⟩ := h.toList
  rw [hs, hs']
  exact (perm_append_comm_assoc _ _ _).trans (((perm_append_comm_assoc _ _ _).append_left pre).trans
    (perm_append_comm_assoc _ _ _))

/-- What happens below a node happens to the tree. -/
theorem Spliced.side {k : K} (hmid : ∀ y ∈ mid', key y = k) {side : Side} {x : α}
    (hside : side.Toward k (key x)) {child child' other : SearchTree α}
    (h : Spliced key mid mid' child child')
    (hlist : s'.toList = (side.node child' x other).toList) :
    Spliced key mid mid' (side.node child x other) s' := by
  obtain ⟨pre, post, hchild, hchild'⟩ := h.toList
  refine ⟨?_, fun ho => ?_⟩
  · rw [hlist]
    cases side with
    | left =>
      exact ⟨pre, post ++ x :: other.toList, by simp [Side.node, hchild],
        by simp [Side.node, hchild']⟩
    | right =>
      exact ⟨other.toList ++ x :: pre, post, by simp [Side.node, hchild],
        by simp [Side.node, hchild']⟩
  · obtain ⟨ho, hother, hx, hx'⟩ := (ordered_side_iff key).mp ho
    rw [ordered_congr key hlist, ordered_side_iff]
    refine ⟨h.ordered ho, hother, fun y hy => ?_, hx'⟩
    rcases mem_append.mp (h.perm.mem_iff.mpr (mem_append_right mid hy)) with hy | hy
    · exact hmid y hy ▸ hside
    · exact hx y hy

end splice

end SearchTree

end Lib

import Mathlib.Data.List.Rotate
import Mathlib.Data.Int.ModEq

/-! # Circular lists

    A list read as a circle: `get l i` is the element `i` steps clockwise of the first one, for
    every integer `i`. Cells that point to their neighbours form such a circle when each points to
    the next and the previous element (`Linked`), wherever one starts to read it.
-/

namespace Lib.Cycle

open List

variable {α : Type} [Inhabited α]

/-- The element `i` steps clockwise of the first one. -/
def get (l : List α) (i : Int) : α := l.getD (i % l.length).toNat default

/-- A sum of two offsets goes around at most once. -/
theorem mod_of_lt_two_mul {m n : Nat} (h : m < 2 * n) : m % n = if m < n then m else m - n := by
  split
  · next hlt => exact Nat.mod_eq_of_lt hlt
  · next hge => rw [Nat.mod_eq_sub_mod (by omega), Nat.mod_eq_of_lt (by omega)]

/-- Offsets below the length of a circle are told apart from any starting point. -/
theorem add_emod_inj {n : Nat} (i : Int) {a b : Nat} (ha : a < n) (hb : b < n) :
    (i + a) % (n : Int) = (i + b) % n ↔ a = b := by
  constructor
  · intro h
    have hmod : (a : Int) % n = (b : Int) % n := Int.emod_add_cancel_left.mp h
    rw [Int.emod_eq_of_lt (by omega) (by omega), Int.emod_eq_of_lt (by omega) (by omega)] at hmod
    omega
  · intro h
    rw [h]

section get
variable {l : List α}

theorem get_congr {i j : Int} (h : i % l.length = j % l.length) : get l i = get l j := by
  unfold get
  rw [h]

theorem get_emod (i : Int) : get l (i % l.length) = get l i :=
  get_congr (Int.emod_emod_of_dvd i (dvd_refl _))

@[simp] theorem get_add_length (i : Int) : get l (i + l.length) = get l i :=
  get_congr (Int.add_emod_right i _)

theorem get_natCast {k : Nat} (hk : k < l.length) : get l k = l[k] := by
  have hmod : (k : Int) % l.length = k := Int.emod_eq_of_lt (by omega) (by omega)
  unfold get
  rw [hmod, Int.toNat_natCast, getD_eq_getElem?_getD, List.getElem?_eq_getElem hk,
    Option.getD_some]

theorem head?_eq_get (hl : l ≠ []) : l.head? = some (get l 0) := by
  have hpos := length_pos_iff.mpr hl
  rw [head?_eq_getElem?, getElem?_eq_getElem hpos, ← get_natCast hpos, Nat.cast_zero]

/-- Every element is found less than a full circle away. -/
theorem exists_lt_get (hl : l ≠ []) (i : Int) : ∃ k : Nat, k < l.length ∧ (k : Int) = i % l.length ∧
    get l i = get l k := by
  have hpos : (0 : Int) < l.length := by
    have := length_pos_iff.mpr hl
    omega
  have hnonneg := Int.emod_nonneg i hpos.ne'
  have hlt := Int.emod_lt_of_pos i hpos
  refine ⟨(i % l.length).toNat, by omega, by omega, ?_⟩
  rw [Int.toNat_of_nonneg hnonneg, get_emod]

theorem get_mem (hl : l ≠ []) (i : Int) : get l i ∈ l := by
  obtain ⟨k, hk, -, heq⟩ := exists_lt_get hl i
  rw [heq, get_natCast hk]
  exact getElem_mem hk

@[simp] theorem get_singleton (x : α) (i : Int) : get [x] i = x :=
  mem_singleton.mp (get_mem (cons_ne_nil x []) i)

theorem exists_get_of_mem {x : α} (hx : x ∈ l) : ∃ k : Nat, k < l.length ∧ get l k = x := by
  obtain ⟨k, hk, rfl⟩ := getElem_of_mem hx
  exact ⟨k, hk, get_natCast hk⟩

theorem get_inj (hnodup : l.Nodup) (hl : l ≠ []) {i j : Int} :
    get l i = get l j ↔ i % l.length = j % l.length := by
  constructor
  · intro h
    obtain ⟨k, hk, hki, hgk⟩ := exists_lt_get hl i
    obtain ⟨m, hm, hmj, hgm⟩ := exists_lt_get hl j
    rw [hgk, hgm, get_natCast hk, get_natCast hm] at h
    rw [← hki, ← hmj, (hnodup.getElem_inj_iff).mp h]
  · exact get_congr

theorem get_natCast_inj (hnodup : l.Nodup) {j k : Nat} (hj : j < l.length) (hk : k < l.length) :
    get l j = get l k ↔ j = k := by
  rw [get_natCast hj, get_natCast hk, hnodup.getElem_inj_iff]

theorem get_neg_one (hl : l ≠ []) : get l (-1) = get l ((l.length - 1 : Nat) : Int) := by
  have hpos : 0 < l.length := length_pos_iff.mpr hl
  refine get_congr ?_
  rw [show ((l.length - 1 : Nat) : Int) = -1 + l.length by omega, Int.add_emod_right]

theorem get_rotate (hl : l ≠ []) (m : Nat) (i : Int) : get (l.rotate m) i = get l (i + m) := by
  have hne : l.rotate m ≠ [] := fun h => hl (rotate_eq_nil_iff.mp h)
  obtain ⟨k, hk, hki, hgk⟩ := exists_lt_get hne i
  rw [length_rotate] at hk hki
  rw [hgk, get_natCast (by rwa [length_rotate]), getElem_rotate,
    ← get_natCast (Nat.mod_lt _ (by omega))]
  refine get_congr ?_
  rw [Int.natCast_mod, Int.emod_emod_of_dvd _ (dvd_refl _), Nat.cast_add, hki]
  exact Int.emod_add_emod i _ _

theorem rotate_eq_map (hl : l ≠ []) (m : Nat) :
    l.rotate m = (List.range l.length).map fun k : Nat => get l ((m : Int) + k) := by
  refine ext_getElem (by simp) ?_
  intro k hk _
  rw [← get_natCast hk, get_rotate hl, getElem_map, getElem_range, add_comm]

theorem get_append_of_lt {x : α} {k : Nat} (hk : k < l.length) : get (l ++ [x]) k = get l k := by
  have hk' : k < (l ++ [x]).length := by
    rw [length_append]
    omega
  rw [get_natCast hk', get_natCast hk, getElem_append_left hk]

theorem get_append_length {x : α} : get (l ++ [x]) (l.length : Int) = x := by
  have hk : l.length < (l ++ [x]).length := by simp
  rw [get_natCast hk, getElem_concat_length rfl]

theorem get_append_neg_one {x : α} : get (l ++ [x]) (-1) = x := by
  rw [get_neg_one (by simp), length_append, length_singleton, Nat.add_sub_cancel, get_append_length]

theorem get_map {β : Type} [Inhabited β] (f : α → β) (hl : l ≠ []) (i : Int) :
    get (l.map f) i = f (get l i) := by
  obtain ⟨k, hk, hki, hgk⟩ := exists_lt_get hl i
  have hmap : get (l.map f) i = get (l.map f) k := by
    refine get_congr ?_
    rw [length_map, hki, Int.emod_emod_of_dvd _ (dvd_refl _)]
  rw [hmap, hgk, get_natCast hk, get_natCast (by rwa [length_map]), getElem_map]

end get

/-- Where the element at `k` is after an insertion at `d`. -/
def skip (d k : Nat) : Nat := if k < d then k else k + 1

theorem get_insert {p q : List α} (x : α) {k : Nat} (hk : k < (p ++ q).length) :
    get (p ++ x :: q) (skip p.length k) = get (p ++ q) k := by
  have hlength : (p ++ x :: q).length = (p ++ q).length + 1 := by simp; omega
  rw [get_natCast hk]
  unfold skip
  split
  · next hlt =>
    rw [get_natCast (by omega), getElem_append_left hlt, getElem_append_left hlt]
  · next hge =>
    rw [get_natCast (by omega), getElem_append_right (by omega),
      getElem_append_right (by omega)]
    simp only [show k + 1 - p.length = (k - p.length) + 1 by omega, getElem_cons_succ]

theorem get_insert_self {p q : List α} (x : α) : get (p ++ x :: q) p.length = x := by
  rw [get_natCast (by simp), getElem_append_right (Nat.le_refl _)]
  simp

omit [Inhabited α] in
/-- An element inserted into a circle that is read from somewhere else; it never comes first. -/
theorem exists_insert_of_isRotated {before after l : List α} (hrot : before ++ after ~r l)
    (hl : l ≠ []) (x : α) :
    ∃ p q, p ≠ [] ∧ l = p ++ q ∧ before ++ x :: after ~r p ++ x :: q := by
  have hinsert : ∃ p q, l = p ++ q ∧ before ++ x :: after ~r p ++ x :: q := by
    obtain ⟨u, v, huv, rfl⟩ : ∃ u v, before ++ after = u ++ v ∧ l = v ++ u := by
      obtain ⟨k, rfl⟩ := hrot
      exact ⟨_, _, (take_append_drop _ _).symm, rotate_eq_drop_append_take_mod⟩
    rcases append_eq_append_iff.mp huv with ⟨w, rfl, rfl⟩ | ⟨w, rfl, rfl⟩
    · have hrotated : (before ++ x :: w) ++ v ~r v ++ (before ++ x :: w) := isRotated_append
      exact ⟨v ++ before, w, by simp, by simpa using hrotated⟩
    · have hrotated : u ++ (w ++ x :: after) ~r (w ++ x :: after) ++ u := isRotated_append
      exact ⟨w, after ++ u, by simp, by simpa using hrotated⟩
  obtain ⟨p, q, rfl, hrotated⟩ := hinsert
  rcases eq_or_ne p [] with rfl | hp
  · have hend : [x] ++ q ~r q ++ [x] := isRotated_append
    exact ⟨q, [], by simpa using hl, by simp, hrotated.trans hend⟩
  · exact ⟨p, q, hp, rfl, hrotated⟩

/-! ### Linked circles -/

/-- Each element points to the next one and back. -/
def Linked (next back : α → Option α) (l : List α) : Prop :=
  ∀ i, next (get l i) = some (get l (i + 1)) ∧ back (get l i) = some (get l (i - 1))

section linked
variable {next back next' back' : α → Option α} {l : List α}

/-- One circle around suffices. -/
theorem linked_of_lt (hl : l ≠ [])
    (h : ∀ k : Nat, k < l.length → next (get l k) = some (get l (k + 1)) ∧
      back (get l (k + 1)) = some (get l k)) : Linked next back l := by
  have hshift : ∀ i j : Int, i % l.length = j % l.length →
      (i + 1) % (l.length : Int) = (j + 1) % l.length := by
    intro i j hij
    exact Int.ModEq.add_right 1 hij
  intro i
  constructor
  · obtain ⟨k, hk, hki, hgk⟩ := exists_lt_get hl i
    rw [hgk, (h k hk).1]
    refine congrArg some (get_congr (hshift k i ?_))
    rw [hki, Int.emod_emod_of_dvd _ (dvd_refl _)]
  · obtain ⟨k, hk, hki, hgk⟩ := exists_lt_get hl (i - 1)
    have hmod : (k : Int) % l.length = (i - 1) % l.length := by
      rw [hki, Int.emod_emod_of_dvd _ (dvd_refl _)]
    have hi : get l i = get l (k + 1) := by
      refine get_congr ?_
      rw [hshift k (i - 1) hmod, sub_add_cancel]
    rw [hi, (h k hk).2, hgk]

theorem Linked.of_isRotated {l' : List α} (h : Linked next back l) (hl : l ≠ []) (hrot : l ~r l') :
    Linked next back l' := by
  obtain ⟨m, rfl⟩ := hrot
  intro i
  rw [get_rotate hl, get_rotate hl, get_rotate hl]
  obtain ⟨hnext, hback⟩ := h (i + m)
  rw [hnext, hback]
  constructor
  · rw [add_right_comm]
  · rw [add_sub_right_comm]

/-- A new element between the last and the first one, which need not be linked if they are the
    same. -/
theorem Linked.append (h : 2 ≤ l.length → Linked next back l) (hl : l ≠ []) (hnodup : l.Nodup)
    {x : α} (hlast : next' (get l (-1)) = some x) (hx : next' x = some (get l 0))
    (hfirst : back' (get l 0) = some x) (hx' : back' x = some (get l (-1)))
    (hnext : ∀ a ∈ l, a ≠ get l (-1) → next' a = next a)
    (hback : ∀ a ∈ l, a ≠ get l 0 → back' a = back a) : Linked next' back' (l ++ [x]) := by
  have hpos : 0 < l.length := length_pos_iff.mpr hl
  have hend : get (l ++ [x]) ((l.length : Int) + 1) = get l 0 := by
    have hcirc : get (l ++ [x]) ((l.length : Int) + 1) = get (l ++ [x]) (0 : Nat) := by
      refine get_congr ?_
      simp
    rw [hcirc, get_append_of_lt hpos, Nat.cast_zero]
  have hminus := get_neg_one hl
  refine linked_of_lt (by simp) ?_
  intro k hk
  rw [length_append, length_singleton] at hk
  rcases Nat.lt_or_ge (k + 1) l.length with hlt | hge
  · -- both neighbours are old
    have hk' : k < l.length := by omega
    rw [show (k : Int) + 1 = ((k + 1 : Nat) : Int) by push_cast; rfl, get_append_of_lt hk',
      get_append_of_lt hlt]
    have hneLast : get l k ≠ get l (-1) := by
      rw [hminus, Ne, get_natCast_inj hnodup hk' (by omega)]
      omega
    have hneFirst : get l ((k + 1 : Nat) : Int) ≠ get l 0 := by
      rw [show (0 : Int) = ((0 : Nat) : Int) from rfl, Ne, get_natCast_inj hnodup hlt hpos]
      omega
    have hlinked := h (by omega)
    rw [hnext _ (get_mem hl _) hneLast, hback _ (get_mem hl _) hneFirst, (hlinked k).1,
      (hlinked ((k + 1 : Nat) : Int)).2]
    constructor
    · push_cast
      rfl
    · rw [Nat.cast_add, Nat.cast_one, add_sub_cancel_right]
  · rcases Nat.lt_or_ge k l.length with hlt | hge'
    · -- the last old element
      obtain rfl : k = l.length - 1 := by omega
      rw [show ((l.length - 1 : Nat) : Int) + 1 = (l.length : Int) by omega, get_append_of_lt hlt,
        get_append_length, ← hminus]
      exact ⟨hlast, hx'⟩
    · -- the new element
      obtain rfl : k = l.length := by omega
      rw [get_append_length, hend]
      exact ⟨hx, hfirst⟩

/-- The last element goes. -/
theorem Linked.dropLast {x : α} (h : Linked next back (l ++ [x])) (hl : l ≠ [])
    (hnodup : (l ++ [x]).Nodup) (hlast : next' (get l (-1)) = some (get l 0))
    (hfirst : back' (get l 0) = some (get l (-1)))
    (hnext : ∀ a ∈ l, a ≠ get l (-1) → next' a = next a)
    (hback : ∀ a ∈ l, a ≠ get l 0 → back' a = back a) : Linked next' back' l := by
  have hpos : 0 < l.length := length_pos_iff.mpr hl
  have hnodup' : l.Nodup := (nodup_append.mp hnodup).1
  have hminus := get_neg_one hl
  refine linked_of_lt hl ?_
  intro k hk
  -- only the link that closes the cycle is new
  rcases Nat.lt_or_ge (k + 1) l.length with hlt | hge
  · have hneLast : get l k ≠ get l (-1) := by
      rw [hminus, Ne, get_natCast_inj hnodup' hk (by omega)]
      omega
    have hneFirst : get l ((k + 1 : Nat) : Int) ≠ get l 0 := by
      rw [show (0 : Int) = ((0 : Nat) : Int) from rfl, Ne, get_natCast_inj hnodup' hlt hpos]
      omega
    have hold := h k
    have hold' := h ((k + 1 : Nat) : Int)
    rw [show (k : Int) + 1 = ((k + 1 : Nat) : Int) by push_cast; rfl, get_append_of_lt hk,
      get_append_of_lt hlt] at hold
    rw [show ((k + 1 : Nat) : Int) - 1 = (k : Int) by omega, get_append_of_lt hk,
      get_append_of_lt hlt] at hold'
    rw [show (k : Int) + 1 = ((k + 1 : Nat) : Int) by push_cast; rfl,
      hnext _ (get_mem hl _) hneLast, hback _ (get_mem hl _) hneFirst]
    exact ⟨hold.1, hold'.2⟩
  · obtain rfl : k = l.length - 1 := by omega
    have hwrap : get l (((l.length - 1 : Nat) : Int) + 1) = get l 0 := by
      refine get_congr ?_
      rw [show ((l.length - 1 : Nat) : Int) + 1 = (0 : Int) + l.length by omega, Int.add_emod_right]
    rw [hwrap, ← hminus]
    exact ⟨hlast, hfirst⟩

end linked

end Lib.Cycle

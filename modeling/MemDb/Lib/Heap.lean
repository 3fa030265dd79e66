import Mathlib.Data.List.Basic
import Mathlib.Logic.Function.Basic

/-! # Heaps of cells

  A heap is the list of the cells handed out so far; an address is a position
  in it, so addresses are never reused. A freed cell is `none`, and reading it
  (or an address that was never handed out) fails. `alloc` puts the new cell at
  the address `next`.

  The lemmas say what each operation changes: one address, and nothing else.
-/

namespace Lib

open List Function

/-- The cells handed out so far, by address. A freed cell is `none`. -/
structure Heap (α : Type) where
  cells : List (Option α)
deriving DecidableEq, Repr

namespace Heap

variable {α : Type}

/-- The heap in which nothing was allocated. -/
def empty : Heap α := ⟨[]⟩

/-- The address the next allocation returns. -/
def next (h : Heap α) : Nat := h.cells.length

/-- The content of a live cell. -/
def read (h : Heap α) (a : Nat) : Option α := h.cells[a]?.join

/-- Allocate a cell with content `c`, at address `h.next`. -/
def alloc (h : Heap α) (c : α) : Heap α := ⟨h.cells ++ [some c]⟩

/-- Overwrite the cell at `a`. -/
def write (h : Heap α) (a : Nat) (c : α) : Heap α := ⟨h.cells.set a (some c)⟩

/-- Free the cell at `a`. -/
def free (h : Heap α) (a : Nat) : Heap α := ⟨h.cells.set a none⟩

theorem read_lt_next {h : Heap α} {a : Nat} {c : α} (hr : h.read a = some c) :
    a < h.next := by
  unfold read at hr
  by_contra hge
  rw [getElem?_eq_none (by simpa [next] using hge)] at hr
  simp at hr

/-! ### Allocation -/

@[simp] theorem next_alloc (h : Heap α) (c : α) : (h.alloc c).next = h.next + 1 := by
  simp [next, alloc]

@[simp] theorem read_alloc_next (h : Heap α) (c : α) : (h.alloc c).read h.next = some c := by
  simp [read, alloc, next]

theorem read_alloc_of_lt (h : Heap α) (c : α) {a : Nat} (ha : a < h.next) :
    (h.alloc c).read a = h.read a := by
  simp only [read, alloc]
  rw [getElem?_append_left ha]

/-! ### Writing and freeing -/

@[simp] theorem next_write (h : Heap α) (a : Nat) (c : α) : (h.write a c).next = h.next := by
  simp [next, write]

@[simp] theorem next_free (h : Heap α) (a : Nat) : (h.free a).next = h.next := by
  simp [next, free]

theorem read_write_self {h : Heap α} {a : Nat} (ha : a < h.next) (c : α) :
    (h.write a c).read a = some c := by
  simp only [read, write, getElem?_set_self ha, Option.join_some]

theorem read_write_ne (h : Heap α) {a b : Nat} (hab : b ≠ a) (c : α) :
    (h.write a c).read b = h.read b := by
  simp only [read, write, getElem?_set_ne (Ne.symm hab)]

theorem write_of_read {h : Heap α} {a : Nat} {c : α} (hr : h.read a = some c) :
    h.write a c = h := by
  have hlt : a < h.cells.length := read_lt_next hr
  rw [read, getElem?_eq_getElem hlt, Option.join_some] at hr
  rw [write, ← hr, set_getElem_self]

theorem read_free_self (h : Heap α) (a : Nat) : (h.free a).read a = none := by
  unfold read free
  rcases Nat.lt_or_ge a h.cells.length with hlt | hge
  · rw [getElem?_set_self hlt]
    rfl
  · rw [getElem?_eq_none (by simpa using hge)]
    rfl

theorem read_free_ne (h : Heap α) {a b : Nat} (hab : b ≠ a) :
    (h.free a).read b = h.read b := by
  simp only [read, free, getElem?_set_ne (Ne.symm hab)]

/-! ### Fields of all cells -/

section fields
variable {β : Type}

/-- The field `g` of every cell after a cell was overwritten. -/
theorem bind_read_write {h : Heap α} {a : Nat} (ha : a < h.next) (c : α) (g : α → Option β) :
    (fun b => ((h.write a c).read b).bind g) = update (fun b => (h.read b).bind g) a (g c) := by
  funext b
  by_cases hb : b = a
  · subst hb
    rw [read_write_self ha, update_self, Option.bind_some]
  · rw [read_write_ne h hb, update_of_ne hb]

/-- The field `g` of every cell after an allocation. -/
theorem bind_read_alloc (h : Heap α) (c : α) (g : α → Option β) :
    (fun b => ((h.alloc c).read b).bind g) =
      update (fun b => (h.read b).bind g) h.next (g c) := by
  have hout : ∀ (k : Heap α) b, k.next ≤ b → k.read b = none := by
    intro k b hle
    cases hread : k.read b with
    | none => rfl
    | some node => exact absurd (read_lt_next hread) (Nat.not_lt.mpr hle)
  funext b
  by_cases hb : b = h.next
  · subst hb
    rw [read_alloc_next, update_self, Option.bind_some]
  · rw [update_of_ne hb]
    rcases Nat.lt_or_ge b h.next with hlt | hge
    · rw [read_alloc_of_lt h c hlt]
    · rw [hout h b hge, hout (h.alloc c) b (by rw [next_alloc]; omega)]

end fields

end Heap

end Lib

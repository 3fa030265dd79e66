import MemDb.Lib.BigEndian

/-! # Positions in a buffer

    A decoder goes through a buffer by its offsets. `At buffer offset rest` says what stands from an
    offset on to the end of the buffer, and each part that is read leads to the offset behind it: a
    proof about a decoder follows its reads, and does not take the buffer apart.
-/

namespace Lib

open List

/-- From the offset on to the end of the buffer stands `rest`. -/
def At {α : Type} (buffer : List α) (offset : Nat) (rest : List α) : Prop :=
  ∃ front, buffer = front ++ rest ∧ front.length = offset

section
variable {α : Type} {buffer part rest : List α} {offset : Nat} {x : α}

theorem at_append (front rest : List α) : At (front ++ rest) front.length rest := ⟨front, rfl, rfl⟩

theorem at_start (buffer : List α) : At buffer 0 buffer := at_append [] buffer

theorem at_whole (buffer : List α) : At buffer 0 (buffer ++ []) := by
  rw [append_nil]
  exact at_start buffer

theorem at_drop (h : offset ≤ buffer.length) : At buffer offset (buffer.drop offset) :=
  ⟨buffer.take offset, (take_append_drop ..).symm, length_take_of_le h⟩

theorem At.length_eq (h : At buffer offset rest) : buffer.length = offset + rest.length := by
  obtain ⟨front, rfl, rfl⟩ := h
  exact length_append

theorem At.drop (h : At buffer offset rest) : buffer.drop offset = rest := by
  obtain ⟨front, rfl, rfl⟩ := h
  exact drop_left

theorem At.eq (h : At buffer 0 rest) : buffer = rest := h.drop

theorem At.take (h : At buffer offset (part ++ rest)) :
    (buffer.drop offset).take part.length = part := by
  rw [h.drop, take_left]

theorem At.getElem (h : At buffer offset (x :: rest)) : buffer[offset]? = some x := by
  obtain ⟨front, rfl, rfl⟩ := h
  simp

/-- Behind a part of the buffer stands what follows it. -/
theorem At.behind (h : At buffer offset (part ++ rest)) :
    At buffer (offset + part.length) rest := by
  obtain ⟨front, rfl, rfl⟩ := h
  exact ⟨front ++ part, (append_assoc ..).symm, length_append⟩

theorem At.next (h : At buffer offset (x :: rest)) : At buffer (offset + 1) rest := by
  rw [← singleton_append] at h
  exact h.behind

end

theorem At.number {buffer rest : List UInt8} {offset width value : Nat}
    (h : At buffer offset (BigEndian.encode width value ++ rest)) :
    At buffer (offset + width) rest := by
  have hbehind := h.behind
  rwa [BigEndian.length_encode] at hbehind

end Lib

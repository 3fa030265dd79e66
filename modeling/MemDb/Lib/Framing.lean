import Mathlib.Data.List.Basic
import Mathlib.Data.List.Induction

/-! # Messages on a stream

    A writer turns a message into symbols of a stream and a reader takes one message off the front
    of a stream. `Framed` says that the reader finds the end of a message by itself, whatever
    follows it, and `readMany_writeAll` that a sequence of framed messages is read back whole.
-/

namespace Lib.Framing

open List

variable {α β : Type} (write : α → List β) (read : List β → Option (α × List β))

/-- The stream after all messages have been written, one after another. -/
def writeAll (messages : List α) : List β := messages.flatMap write

/-- Read a number of messages off the front of a stream. -/
def readMany : Nat → List β → Option (List α × List β)
  | 0, stream => some ([], stream)
  | count + 1, stream => do
    let (message, rest) ← read stream
    let (messages, rest) ← readMany count rest
    return (message :: messages, rest)

/-- The reader gives back `message` and leaves exactly what follows it on the stream. -/
def Framed (message : α) : Prop :=
  ∀ rest, read (write message ++ rest) = some (message, rest)

section
variable {messages : List α} (hframed : ∀ m ∈ messages, Framed write read m)
include hframed

theorem readMany_append (count : Nat) (rest : List β) :
    readMany read (messages.length + count) (writeAll write messages ++ rest) =
      (readMany read count rest).map fun result => (messages ++ result.1, result.2) := by
  induction messages with
  | nil => simp [writeAll]
  | cons message messages ih =>
    have hhead : Framed write read message := hframed message mem_cons_self
    have htail := ih fun m hm => hframed m (mem_cons_of_mem message hm)
    have hcount : (message :: messages).length + count = messages.length + count + 1 := by
      simp only [length_cons]
      omega
    simp only [writeAll, flatMap_cons, append_assoc] at htail ⊢
    rw [hcount, readMany, hhead]
    simp only [Option.bind_eq_bind, Option.bind_some, htail]
    cases readMany read count rest <;> rfl

/-- A sequence of framed messages is read back, and nothing is left on the stream. -/
theorem readMany_writeAll :
    readMany read messages.length (writeAll write messages) = some (messages, []) := by
  simpa [readMany] using readMany_append write read hframed 0 []

end

/-- Where a message that is not framed is already lost when it stands alone, exactly the
    sequences of framed messages are read back after each message written. -/
theorem framed_iff_readMany_prefixes {messages : List α}
    (hlost : ∀ m ∈ messages, ¬ Framed write read m → read (write m) ≠ some (m, [])) :
    (∀ m ∈ messages, Framed write read m) ↔
      ∀ front, front <+: messages →
        readMany read front.length (writeAll write front) = some (front, []) := by
  constructor
  · intro hframed front hfront
    exact readMany_writeAll write read fun m hm => hframed m (hfront.subset hm)
  · intro hread
    suffices hall : ∀ front, front <+: messages → ∀ m ∈ front, Framed write read m from
      hall messages prefix_rfl
    intro front
    -- one more message at a time: the ones before it are framed, so it is read alone
    induction front using reverseRecOn with
    | nil => simp
    | append_singleton front message ih =>
      intro hfront
      have hbefore := ih ((prefix_append front [message]).trans hfront)
      have hmem : message ∈ messages := hfront.subset (by simp)
      have halone : read (write message) = some (message, []) := by
        have hboth := hread _ hfront
        have hsplit := readMany_append write read hbefore 1 (write message)
        rw [length_append, length_singleton, writeAll, flatMap_append,
          flatMap_singleton] at hboth
        rw [writeAll, hboth] at hsplit
        cases hone : read (write message) with
        | none => simp [readMany, hone] at hsplit
        | some result =>
          obtain ⟨first, left⟩ := result
          have heq : message = first ∧ left = [] := by simpa [readMany, hone] using hsplit
          rw [heq.1, heq.2]
      have hlast : Framed write read message := by
        by_contra hnot
        exact hlost message hmem hnot halone
      intro m hm
      rcases mem_append.mp hm with hm | hm
      · exact hbefore m hm
      · rw [mem_singleton.mp hm]
        exact hlast

end Lib.Framing

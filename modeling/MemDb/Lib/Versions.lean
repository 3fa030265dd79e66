import Mathlib.Order.Lattice

/-! # Versions named by a counter and a writer

    Writers publish versions of the values of keys. A version is named by its key, its counter and
    its writer, and copies of it may be anywhere in the system (`seen`). The names stay unique as
    long as each writer, for each key, publishes only above the counter that it has itself, or the
    value that it has at the same counter.
-/

namespace Lib.Versions

variable {ι κ C V : Type} [LinearOrder C]

/-- A version of the value of some key. -/
structure Version (ι C V : Type) where
  counter : C
  writer : ι
  value : V

/-- `own` is what a writer has itself under a key, with the counter at which it got it. -/
structure Named (own : ι → κ → Option (C × V)) (seen : κ → Version ι C V → Prop) : Prop where
  /-- The writer of a version has gone past it, or has the same value at its counter. -/
  writer : ∀ key version, seen key version → ∃ has, own version.writer key = some has ∧
    (version.counter < has.1 ∨ version.counter = has.1 ∧ version.value = has.2)
  unique : ∀ key version version', seen key version → seen key version' →
    version.counter = version'.counter → version.writer = version'.writer →
    version.value = version'.value

variable {own own' : ι → κ → Option (C × V)} {seen seen' : κ → Version ι C V → Prop}

/-- Nothing is seen in the beginning. -/
theorem named_of_unseen (h : ∀ key version, ¬ seen key version) : Named own seen :=
  ⟨fun key version hseen => absurd hseen (h key version),
    fun key version _ hseen => absurd hseen (h key version)⟩

/-- Copies may get lost. -/
theorem Named.forget (h : Named own seen)
    (hseen : ∀ key version, seen' key version → seen key version) : Named own seen' :=
  ⟨fun key version hversion => h.writer key version (hseen key version hversion),
    fun key version version' hversion hversion' =>
      h.unique key version version' (hseen _ _ hversion) (hseen _ _ hversion')⟩

/-- A writer publishes the version that it gets, where it had a smaller counter or the same value at
    the same counter. -/
theorem Named.publish (h : Named own seen) (writer : ι) (key : κ) (counter : C) (value : V)
    (hbefore : ∀ has, own writer key = some has →
      has.1 < counter ∨ has.1 = counter ∧ has.2 = value)
    (hafter : own' writer key = some (counter, value))
    (hother : ∀ i k, i ≠ writer ∨ k ≠ key → own' i k = own i k)
    (hseen : ∀ k version, seen' k version →
      seen k version ∨ k = key ∧ version = ⟨counter, writer, value⟩) :
    Named own' seen' := by
  -- what was seen of this writer before agrees with the new version
  have hagree : ∀ version, seen key version → version.writer = writer →
      version.counter < counter ∨ version.counter = counter ∧ version.value = value := by
    intro version hversion hwriter
    obtain ⟨has, hhas, hle⟩ := h.writer key version hversion
    rw [hwriter] at hhas
    rcases hbefore has hhas with hlt | ⟨heq, hvalue⟩
    · rcases hle with hle | ⟨hle, -⟩
      · exact .inl (hle.trans hlt)
      · exact .inl (hle ▸ hlt)
    · rcases hle with hle | ⟨hle, hvalue'⟩
      · exact .inl (heq ▸ hle)
      · exact .inr ⟨hle.trans heq, hvalue'.trans hvalue⟩
  constructor
  · intro k version hversion
    rcases hseen k version hversion with hold | ⟨rfl, rfl⟩
    · by_cases hsame : version.writer = writer ∧ k = key
      · obtain ⟨hwriter, rfl⟩ := hsame
        exact ⟨(counter, value), hwriter ▸ hafter, hagree version hold hwriter⟩
      · rw [hother _ _ (not_and_or.mp hsame)]
        exact h.writer k version hold
    · exact ⟨(counter, value), hafter, .inr ⟨rfl, rfl⟩⟩
  · intro k version version' hversion hversion' hcounter hwriter
    rcases hseen k version hversion with hold | ⟨rfl, rfl⟩ <;>
      rcases hseen k version' hversion' with hold' | ⟨hkey', hnew'⟩
    · exact h.unique k version version' hold hold' hcounter hwriter
    · subst hkey' hnew'
      rcases hagree version hold hwriter with hlt | ⟨-, hvalue⟩
      · exact absurd hcounter hlt.ne
      · exact hvalue
    · rcases hagree version' hold' hwriter.symm with hlt | ⟨-, hvalue⟩
      · exact absurd hcounter.symm hlt.ne
      · exact hvalue.symm
    · rw [hnew']

end Lib.Versions

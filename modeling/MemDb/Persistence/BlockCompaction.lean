import MemDb.Persistence.NewestOperation
import Mathlib.Tactic.Ring

/-! # Compaction in blocks and in one pass

    `MultiThreadedLogCompactor` should leave what one pass over the whole list leaves. A merge takes
    the right block first and then, behind what that block keeps, the operations of the left block
    that are newer than the last operation of the right one. So a key can come out of a merge twice.

    `compact_agrees` says where the two compactions agree: where a key has operations in several of
    the lowest blocks, those in front of the last of these blocks are not newer than the key's last
    operation. For a tree of two blocks this is also necessary; in a higher one a later merge may
    pick one of the two operations again.
-/

namespace MemDb

open List Option

namespace MultiThreadedLogCompactor
variable {behind : OperationBody → List UInt8}

/-! ### One merge -/

/-- Under each string a merge leaves what the right block keeps, and behind it what the left block
    has that is newer than the right block's last operation. -/
theorem mergeAndCompact_spec (behind : OperationBody → List UInt8) {left right : List OperationBody}
    (hleft : ∀ op ∈ left, op.keyArg.isSome) (hright : ∀ op ∈ right, op.keyArg.isSome) :
    ∃ merged, mergeAndCompact behind left right = some merged ∧ (∀ op ∈ merged, op.keyArg.isSome) ∧
      ∀ c, onString behind c merged = (keptOperation none (onString behind c right)).toList ++
        (keptOperation ((onString behind c right).getLast?.map (·.timestamp))
          (onString behind c left)).toList := by
  obtain ⟨fromRight, noted, hcompactRight, hstringRight, hkeyedRight, hnoted⟩ :=
    compact_spec behind hright [] []
  obtain ⟨fromLeft, noted', hcompactLeft, hstringLeft, hkeyedLeft, -⟩ :=
    compact_spec behind hleft fromRight noted
  refine ⟨fromRight ++ fromLeft, ?_, ?_, ?_⟩
  · simp [mergeAndCompact, hcompactRight, hcompactLeft]
  · intro op hop
    rcases mem_append.mp hop with hop | hop
    · exact hkeyedRight op hop
    · exact hkeyedLeft op hop
  · intro c
    have hunder : noted.under c = (onString behind c right).getLast?.map (·.timestamp) := hnoted c
    rw [onString, filter_append]
    exact congrArg₂ (· ++ ·) (hstringRight c) ((hstringLeft c).trans (by rw [hunder]))

/-! ### The operations below a block -/

/-- The operations of the lowest blocks below a block, in their order. -/
def operationsBelow (uncompacted : List OperationBody) (totalBlocks : Nat) :
    (phases numberBlock : Nat) → List OperationBody
  | 0, numberBlock => leaf uncompacted numberBlock totalBlocks
  | phases + 1, numberBlock =>
    operationsBelow uncompacted totalBlocks phases (numberBlock * 2) ++
      operationsBelow uncompacted totalBlocks phases (numberBlock * 2 + 1)

section
variable {uncompacted : List OperationBody} {totalBlocks : Nat}

theorem right_end (phases numberBlock : Nat) :
    (numberBlock * 2 + 1 + 1) * 2 ^ phases = (numberBlock + 1) * 2 ^ (phases + 1) := by
  ring

theorem left_end (phases numberBlock : Nat) :
    (numberBlock * 2 + 1) * 2 ^ phases + 2 ^ phases = (numberBlock + 1) * 2 ^ (phases + 1) := by
  ring

variable {numberBlock phases : Nat} {c : List UInt8} {last kept : OperationBody}

/-- As the lowest blocks do, the blocks of a phase cut the list into pieces of one length, and the
    last of them takes the remainder. -/
theorem operationsBelow_eq (hend : (numberBlock + 1) * 2 ^ phases ≤ totalBlocks) :
    operationsBelow uncompacted totalBlocks phases numberBlock =
      if (numberBlock + 1) * 2 ^ phases ≠ totalBlocks then
        (uncompacted.drop (uncompacted.length / totalBlocks * (numberBlock * 2 ^ phases))).take
          (uncompacted.length / totalBlocks * 2 ^ phases)
      else uncompacted.drop (uncompacted.length / totalBlocks * (numberBlock * 2 ^ phases)) := by
  induction phases generalizing numberBlock with
  | zero => simp [operationsBelow, leaf]
  | succ phases ih =>
    have hright := right_end phases numberBlock
    have hleft := left_end phases numberBlock
    have hpos := Nat.two_pow_pos phases
    rw [operationsBelow, ih (by omega), ih (by omega), if_pos (by omega), hright]
    generalize uncompacted.length / totalBlocks = size
    -- the right block starts where the left one ends
    have hstart : size * ((numberBlock * 2 + 1) * 2 ^ phases) =
        size * (numberBlock * 2 ^ (phases + 1)) + size * 2 ^ phases := by ring
    have hstart' : size * (numberBlock * 2 * 2 ^ phases) =
        size * (numberBlock * 2 ^ (phases + 1)) := by ring
    have hsize : size * 2 ^ (phases + 1) = size * 2 ^ phases + size * 2 ^ phases := by ring
    rw [hstart, hstart', hsize, ← drop_drop]
    split
    · exact (take_add ..).symm
    · exact take_append_drop ..

theorem operationsBelow_root (phases : Nat) :
    operationsBelow uncompacted (2 ^ phases) phases 0 = uncompacted := by
  rw [operationsBelow_eq (by simp)]
  simp

theorem mem_operationsBelow {op : OperationBody} :
    op ∈ operationsBelow uncompacted totalBlocks phases numberBlock →
      ∃ block, numberBlock * 2 ^ phases ≤ block ∧ block < (numberBlock + 1) * 2 ^ phases ∧
        op ∈ leaf uncompacted block totalBlocks := by
  induction phases generalizing numberBlock with
  | zero =>
    intro h
    exact ⟨numberBlock, by simp, by simp, h⟩
  | succ phases ih =>
    intro h
    have hright := right_end phases numberBlock
    have hleft := left_end phases numberBlock
    have hstart : numberBlock * 2 * 2 ^ phases = numberBlock * 2 ^ (phases + 1) := by ring
    have hmiddle : (numberBlock * 2 + 1) * 2 ^ phases =
        numberBlock * 2 ^ (phases + 1) + 2 ^ phases := by ring
    rcases mem_append.mp h with h | h
    · obtain ⟨block, hfrom, hto, hop⟩ := ih h
      exact ⟨block, by omega, by omega, hop⟩
    · obtain ⟨block, hfrom, hto, hop⟩ := ih h
      exact ⟨block, by omega, by omega, hop⟩

/-- Where a key has operations in a later one of the lowest blocks, those of an earlier block are
    not newer than the last operation on the key. -/
def Confined (behind : OperationBody → List UInt8) (uncompacted : List OperationBody)
    (totalBlocks : Nat) : Prop :=
  ∀ later < totalBlocks, ∀ earlier < later,
    ∀ op ∈ leaf uncompacted earlier totalBlocks, ∀ other ∈ leaf uncompacted later totalBlocks,
      op.keyString behind = other.keyString behind →
        ∀ last ∈ (uncompacted.filter fun op' =>
            decide (op'.keyString behind = op.keyString behind)).getLast?,
          op.timestamp ≤ last.timestamp

set_option synthInstance.maxSize 800 in
instance : Decidable (Confined behind uncompacted totalBlocks) := by
  delta Confined
  exact inferInstance

/-- The same for one string. -/
def ConfinedOn (behind : OperationBody → List UInt8) (uncompacted : List OperationBody)
    (totalBlocks : Nat) (c : List UInt8) : Prop :=
  ∀ later < totalBlocks, ∀ earlier < later,
    ∀ op ∈ onString behind c (leaf uncompacted earlier totalBlocks),
      ∀ other ∈ onString behind c (leaf uncompacted later totalBlocks),
        ∀ last ∈ (onString behind c uncompacted).getLast?, op.timestamp ≤ last.timestamp

theorem Confined.on (h : Confined behind uncompacted totalBlocks) (c : List UInt8) :
    ConfinedOn behind uncompacted totalBlocks c := by
  intro later hlater earlier hearlier op hop other hother last hlast
  obtain ⟨hop, hopString⟩ := mem_onString.mp hop
  obtain ⟨hother, hotherString⟩ := mem_onString.mp hother
  apply h later hlater earlier hearlier op hop other hother (hopString.trans hotherString.symm)
  rw [hopString]
  exact hlast

theorem ConfinedOn.le (h : ConfinedOn behind uncompacted totalBlocks c)
    (hend : (numberBlock + 1) * 2 ^ (phases + 1) ≤ totalBlocks) {op other : OperationBody}
    (hlast : (onString behind c uncompacted).getLast? = some last)
    (hop : op ∈ onString behind c
      (operationsBelow uncompacted totalBlocks phases (numberBlock * 2)))
    (hother : other ∈
      onString behind c (operationsBelow uncompacted totalBlocks phases (numberBlock * 2 + 1))) :
    op.timestamp ≤ last.timestamp := by
  obtain ⟨hop, hopString⟩ := mem_onString.mp hop
  obtain ⟨hother, hotherString⟩ := mem_onString.mp hother
  obtain ⟨earlier, -, hearlier, hop⟩ := mem_operationsBelow hop
  obtain ⟨later, hfrom, hto, hother⟩ := mem_operationsBelow hother
  rw [right_end] at hto
  exact h later (by omega) earlier (by omega) op (mem_onString.mpr ⟨hop, hopString⟩) other
    (mem_onString.mpr ⟨hother, hotherString⟩) last hlast

/-! ### A block of the tree -/

theorem keptOperation_append {front back : List OperationBody} (hlast : back.getLast? = some last)
    (hfront : ∀ op ∈ front, op.timestamp ≤ last.timestamp) :
    keptOperation none (front ++ back) = keptOperation none back := by
  have hnone : front.find? (last.timestamp < ·.timestamp) = none := by
    apply find?_eq_none.mpr
    intro op hop
    simpa using hfront op hop
  have hlast' : (front ++ back).getLast? = some last := by simp [getLast?_append, hlast]
  simp [keptOperation, hlast, hlast', find?_append, hnone]

theorem last_le_keptOperation {ops : List OperationBody} (hlast : ops.getLast? = some last)
    (hkept : keptOperation none ops = some kept) :
    last.timestamp ≤ kept.timestamp := by
  simp only [keptOperation, hlast, map_some, some.injEq] at hkept
  subst hkept
  cases hfind : ops.find? (last.timestamp < ·.timestamp) with
  | none => exact UInt64.le_refl _
  | some first =>
    have := find?_some hfind
    exact UInt64.le_of_lt (by simpa using this)

/-- The block below which the last operation under a string lies; what is under the string in front
    of the block is not newer than it. -/
structure Last (behind : OperationBody → List UInt8) (uncompacted : List OperationBody)
    (totalBlocks phases numberBlock : Nat) (c : List UInt8) (last : OperationBody) : Prop where
  some_below : onString behind c (operationsBelow uncompacted totalBlocks phases numberBlock) ≠ []
  front : ∃ before, onString behind c uncompacted =
      before ++ onString behind c (operationsBelow uncompacted totalBlocks phases numberBlock) ∧
    ∀ op ∈ before, op.timestamp ≤ last.timestamp
  last : (onString behind c uncompacted).getLast? = some last

/-- What the block leaves under a string stands for what the whole list does. -/
structure Stands (behind : OperationBody → List UInt8) (uncompacted ops : List OperationBody)
    (c : List UInt8) (last : OperationBody) : Prop where
  kept : keptOperation none (onString behind c ops) =
    keptOperation none (onString behind c uncompacted)
  newer : ∃ final, (onString behind c ops).getLast? = some final ∧ last.timestamp ≤ final.timestamp

theorem Last.stands_leaf (h : Last behind uncompacted totalBlocks 0 numberBlock c last) :
    Stands behind uncompacted (leaf uncompacted numberBlock totalBlocks) c last := by
  obtain ⟨before, heq, hbefore⟩ := h.front
  obtain ⟨final, hfinal⟩ : ∃ final,
      (onString behind c (leaf uncompacted numberBlock totalBlocks)).getLast? = some final :=
    ⟨_, getLast?_eq_some_getLast h.some_below⟩
  obtain rfl : final = last := by
    have hlast := h.last
    rw [heq, getLast?_append, operationsBelow, hfinal] at hlast
    simpa using hlast
  refine ⟨?_, final, hfinal, UInt64.le_refl _⟩
  rw [heq]
  exact (keptOperation_append hfinal hbefore).symm

theorem stands_singleton {ops : List OperationBody}
    (hlast : (onString behind c uncompacted).getLast? = some last)
    (hkept : keptOperation none (onString behind c uncompacted) = some kept)
    (hops : onString behind c ops = [kept]) : Stands behind uncompacted ops c last := by
  refine ⟨?_, kept, by simp [hops], last_le_keptOperation hlast hkept⟩
  rw [hops, hkept]
  simp [keptOperation]

/-- The last operation lies below the right block, or below the left one if the right one has
    nothing under the string. -/
theorem Last.cases (h : Last behind uncompacted totalBlocks (phases + 1) numberBlock c last)
    (hconfined : ConfinedOn behind uncompacted totalBlocks c)
    (hend : (numberBlock + 1) * 2 ^ (phases + 1) ≤ totalBlocks) :
    (Last behind uncompacted totalBlocks phases (numberBlock * 2 + 1) c last ∧
      ∀ op ∈ onString behind c (operationsBelow uncompacted totalBlocks phases (numberBlock * 2)),
        op.timestamp ≤ last.timestamp) ∨
    (Last behind uncompacted totalBlocks phases (numberBlock * 2) c last ∧
      onString behind c (operationsBelow uncompacted totalBlocks phases (numberBlock * 2 + 1)) =
        []) := by
  obtain ⟨before, heq, hbefore⟩ := h.front
  have hbelow :
      onString behind c (operationsBelow uncompacted totalBlocks (phases + 1) numberBlock) =
      onString behind c (operationsBelow uncompacted totalBlocks phases (numberBlock * 2)) ++
        onString behind c (operationsBelow uncompacted totalBlocks phases (numberBlock * 2 + 1)) :=
    filter_append ..
  rw [hbelow] at heq
  -- the last operation is one of the right half, unless that half has none on the string
  by_cases hright :
      onString behind c (operationsBelow uncompacted totalBlocks phases (numberBlock * 2 + 1)) = []
  · right
    refine ⟨⟨?_, ⟨before, ?_, hbefore⟩, h.last⟩, hright⟩
    · have hsome := h.some_below
      rw [hbelow, hright, append_nil] at hsome
      exact hsome
    · rw [heq, hright, append_nil]
  · left
    obtain ⟨other, hother⟩ := exists_mem_of_ne_nil _ hright
    have hleft : ∀ op ∈
        onString behind c (operationsBelow uncompacted totalBlocks phases (numberBlock * 2)),
        op.timestamp ≤ last.timestamp := by
      intro op hop
      exact hconfined.le hend h.last hop hother
    refine ⟨⟨hright, ⟨_, heq.trans (append_assoc ..).symm, ?_⟩, h.last⟩, hleft⟩
    intro op hop
    rcases mem_append.mp hop with hop | hop
    · exact hbefore op hop
    · exact hleft op hop

/-- A merge leaves one operation under the string of the last operation below it. -/
theorem onString_merged {left right merged : List OperationBody}
    (hkept : keptOperation none (onString behind c uncompacted) = some kept)
    (hmerged : onString behind c merged = (keptOperation none (onString behind c right)).toList ++
      (keptOperation ((onString behind c right).getLast?.map (·.timestamp))
        (onString behind c left)).toList)
    (hcases : (Stands behind uncompacted right c last ∧
        ∀ op ∈ onString behind c left, op.timestamp ≤ last.timestamp) ∨
      (Stands behind uncompacted left c last ∧ onString behind c right = [])) :
    onString behind c merged = [kept] := by
  rcases hcases with ⟨hstands, hleft⟩ | ⟨hstands, hright⟩
  · -- the right block's last operation is as new as the whole list's, so nothing is added to it
    obtain ⟨final, hfinal, hnewer⟩ := hstands.newer
    have hnone : keptOperation (some final.timestamp) (onString behind c left) = none := by
      apply find?_eq_none.mpr
      intro op hop
      simpa using UInt64.le_trans (hleft op hop) hnewer
    rw [hmerged, hstands.kept, hkept, hfinal, map_some, hnone]
    rfl
  · have hnone : keptOperation none ([] : List OperationBody) = none := rfl
    rw [hmerged, hright, getLast?_nil, map_none, hstands.kept, hkept, hnone]
    rfl

theorem leaf_subset (numberBlock : Nat) :
    leaf uncompacted numberBlock totalBlocks ⊆ uncompacted := by
  intro op hop
  unfold leaf at hop
  split at hop
  · exact mem_of_mem_drop (mem_of_mem_take hop)
  · exact mem_of_mem_drop hop

/-- A block leaves operations from below it, and those under the string of the last operation stand
    for the whole list. -/
theorem get_spec (hkeys : ∀ op ∈ uncompacted, op.keyArg.isSome) (phases numberBlock : Nat)
    (hend : (numberBlock + 1) * 2 ^ phases ≤ totalBlocks) :
    ∃ ops, get behind uncompacted totalBlocks phases numberBlock = some ops ∧
      (∀ op ∈ ops, op.keyArg.isSome) ∧
      ∀ c, onString behind c ops ⊆
          onString behind c (operationsBelow uncompacted totalBlocks phases numberBlock) ∧
        (ConfinedOn behind uncompacted totalBlocks c →
          ∀ last, Last behind uncompacted totalBlocks phases numberBlock c last →
            Stands behind uncompacted ops c last ∧
              (0 < phases →
                onString behind c ops =
                  (keptOperation none (onString behind c uncompacted)).toList)) := by
  -- by induction on the phases above the lowest blocks
  induction phases generalizing numberBlock with
  | zero =>
    refine ⟨_, rfl, fun op hop => hkeys op (leaf_subset numberBlock hop), ?_⟩
    intro c
    refine ⟨Subset.refl _, ?_⟩
    intro _ last hlast
    exact ⟨hlast.stands_leaf, fun h => absurd h (Nat.lt_irrefl 0)⟩
  | succ phases ih =>
    have hleftEnd := left_end phases numberBlock
    have hrightEnd := right_end phases numberBlock
    have hpos := Nat.two_pow_pos phases
    obtain ⟨left, hleft, hleftKeys, hleftBelow⟩ := ih (numberBlock * 2) (by omega)
    obtain ⟨right, hright, hrightKeys, hrightBelow⟩ := ih (numberBlock * 2 + 1) (by omega)
    obtain ⟨merged, hmerge, hkeyed, hmerged⟩ := mergeAndCompact_spec behind hleftKeys hrightKeys
    refine ⟨merged, by simp [get, hleft, hright, hmerge], hkeyed, ?_⟩
    intro c
    constructor
    · intro op hop
      rw [operationsBelow, onString, filter_append]
      rw [hmerged c] at hop
      rcases mem_append.mp hop with hop | hop
      · exact mem_append_right _
          ((hrightBelow c).1 (keptOperation_mem (mem_toList.mp hop)))
      · exact mem_append_left _
          ((hleftBelow c).1 (keptOperation_mem (mem_toList.mp hop)))
    · intro hconfined last hlast
      obtain ⟨kept, hkept⟩ : ∃ kept, keptOperation none (onString behind c uncompacted) =
          some kept :=
        ⟨_, by rw [keptOperation, hlast.last]; rfl⟩
      have hsingle : onString behind c merged = [kept] := by
        apply onString_merged hkept (hmerged c)
        rcases hlast.cases hconfined hend with ⟨hlast, hle⟩ | ⟨hlast, hnil⟩
        · exact Or.inl
            ⟨((hrightBelow c).2 hconfined last hlast).1, fun op hop =>
              hle op ((hleftBelow c).1 hop)⟩
        · refine Or.inr ⟨((hleftBelow c).2 hconfined last hlast).1, ?_⟩
          exact subset_nil.mp (hnil ▸ (hrightBelow c).1)
      exact ⟨stands_singleton hlast.last hkept hsingle, fun _ => by rw [hsingle, hkept]; rfl⟩

end

/-! ### The whole list -/

/-- Both compactions return, and leave the same operations without duplicates. -/
def Agrees (behind : OperationBody → List UInt8) (numberThreads : Nat)
    (uncompacted : List OperationBody) : Prop :=
  ∃ compacted single noted, compact behind numberThreads uncompacted = some compacted ∧
    SingleThreadedLogCompacter.compact behind uncompacted [] [] = some (single, noted) ∧
    compacted.Nodup ∧ ∀ op, op ∈ compacted ↔ op ∈ single

variable {uncompacted : List OperationBody}

/-- The root of the tree leaves operations of the list, and under a confined string the one that a
    single pass keeps. -/
theorem compact_kept (behind : OperationBody → List UInt8) (numberThreads : Nat)
    (hkeys : ∀ op ∈ uncompacted, op.keyArg.isSome) :
    ∃ compacted, compact behind numberThreads uncompacted = some compacted ∧
      (∀ op ∈ compacted, op.keyArg.isSome) ∧
      ∀ c, onString behind c compacted ⊆ onString behind c uncompacted ∧
        (ConfinedOn behind uncompacted (2 ^ (Nat.log2 numberThreads + 1)) c →
          onString behind c compacted =
            (keptOperation none (onString behind c uncompacted)).toList) := by
  have hend : (0 + 1) * 2 ^ (Nat.log2 numberThreads + 1) ≤ 2 ^ (Nat.log2 numberThreads + 1) := by
    simp
  obtain ⟨compacted, hcompacted, hkeyed, hblock⟩ := get_spec hkeys _ 0 hend
  refine ⟨compacted, hcompacted, hkeyed, ?_⟩
  intro c
  obtain ⟨hsubset, hlast⟩ := hblock c
  rw [operationsBelow_root] at hsubset
  refine ⟨hsubset, fun hconfined => ?_⟩
  rcases eq_nil_or_concat (onString behind c uncompacted) with hnil | ⟨init, last, heq⟩
  · rw [hnil] at hsubset ⊢
    exact subset_nil.mp hsubset
  · rw [concat_eq_append] at heq
    refine (hlast hconfined last ⟨?_, ⟨[], ?_, by simp⟩, by simp [heq]⟩).2 (Nat.succ_pos _)
    · simp [operationsBelow_root, heq]
    · rw [operationsBelow_root]
      rfl

theorem agrees_of_confined {numberThreads : Nat} (hkeys : ∀ op ∈ uncompacted, op.keyArg.isSome)
    (hconfined : Confined behind uncompacted (2 ^ (Nat.log2 numberThreads + 1))) :
    Agrees behind numberThreads uncompacted := by
  obtain ⟨single, noted, hsingle, hsingleKept, hsingleKeyed⟩ := compact_nil_spec behind hkeys
  obtain ⟨compacted, hcompacted, hkeyed, hroot⟩ := compact_kept behind numberThreads hkeys
  have hkept :
      ∀ c, onString behind c compacted =
        (keptOperation none (onString behind c uncompacted)).toList :=
    fun c => (hroot c).2 (hconfined.on c)
  refine ⟨compacted, single, noted, hcompacted, hsingle, nodup_kept hkept hkeyed, ?_⟩
  apply mem_iff_of_keyed hkeyed hsingleKeyed
  intro op key hkey
  obtain ⟨c, hstring⟩ := exists_keyString behind (by rw [hkey]; rfl)
  rw [mem_kept_iff hkept hstring, mem_kept_iff hsingleKept hstring]

theorem onString_halves (uncompacted : List OperationBody) (c : List UInt8) :
    onString behind c uncompacted =
      onString behind c (leaf uncompacted 0 2) ++ onString behind c (leaf uncompacted 1 2) := by
  have hroot : operationsBelow uncompacted 2 1 0 = uncompacted := operationsBelow_root 1
  conv_lhs => rw [← hroot]
  exact filter_append ..

/-- A newer operation of the left block is left beside the one of the right block. -/
theorem length_onString_merged {left right merged : List OperationBody} {c : List UInt8}
    {last op : OperationBody}
    (hmerged : onString behind c merged = (keptOperation none (onString behind c right)).toList ++
      (keptOperation ((onString behind c right).getLast?.map (·.timestamp))
        (onString behind c left)).toList)
    (hlast : (onString behind c right).getLast? = some last) (hop : op ∈ onString behind c left)
    (hnewer : last.timestamp < op.timestamp) : (onString behind c merged).length = 2 := by
  obtain ⟨first, hfirst⟩ : ∃ first,
      (onString behind c left).find? (last.timestamp < ·.timestamp) = some first := by
    apply isSome_iff_exists.mp
    apply find?_isSome.mpr
    exact ⟨op, hop, by simpa using hnewer⟩
  rw [hmerged, hlast]
  simp [keptOperation, hlast, hfirst]

/-- With one thread there are two of the lowest blocks, and nothing follows the merge that leaves a
    key twice. -/
theorem confined_of_agrees (hkeys : ∀ op ∈ uncompacted, op.keyArg.isSome)
    (h : Agrees behind 1 uncompacted) :
    Confined behind uncompacted 2 := by
  obtain ⟨compacted, single, noted, hcompacted, hsingle, hnodup, hmem⟩ := h
  obtain ⟨single', noted', hsingle', hkept, hkeyed⟩ := compact_nil_spec behind hkeys
  obtain rfl : single' = single := by
    rw [hsingle'] at hsingle
    exact (Prod.mk.inj (some.inj hsingle)).1
  obtain ⟨merged, hmerge, -, hmerged⟩ := mergeAndCompact_spec behind
    (fun op (hop : op ∈ leaf uncompacted 0 2) => hkeys op (leaf_subset 0 hop))
    (fun op (hop : op ∈ leaf uncompacted 1 2) => hkeys op (leaf_subset 1 hop))
  obtain rfl : merged = compacted := by
    have hget : compact behind 1 uncompacted =
        mergeAndCompact behind (leaf uncompacted 0 2) (leaf uncompacted 1 2) := rfl
    rw [hget, hmerge] at hcompacted
    exact some.inj hcompacted
  have hperm : merged.Perm single' :=
    (perm_ext_iff_of_nodup hnodup (nodup_kept hkept hkeyed)).mpr hmem
  intro later hlater earlier hearlier op hop other hother hstring last hlast
  obtain rfl : later = 1 := by omega
  obtain rfl : earlier = 0 := by omega
  obtain ⟨c, hopString⟩ := exists_keyString behind (hkeys op (leaf_subset 0 hop))
  rw [hopString] at hlast
  -- the last operation is in the second block, as it has one on the key
  have hright : (onString behind c (leaf uncompacted 1 2)).getLast? = some last := by
    have hne : onString behind c (leaf uncompacted 1 2) ≠ [] :=
      ne_nil_of_mem (mem_onString.mpr ⟨hother, hstring ▸ hopString⟩)
    have hlast : (onString behind c uncompacted).getLast? = some last := hlast
    rw [onString_halves, getLast?_append, getLast?_eq_some_getLast hne] at hlast
    rw [getLast?_eq_some_getLast hne]
    simpa using hlast
  by_contra hnot
  have htwo := length_onString_merged (hmerged c) hright (mem_onString.mpr ⟨hop, hopString⟩)
    (UInt64.not_le.mp hnot)
  -- the single pass leaves one under each string
  have hone : (onString behind c merged).length =
      (keptOperation none (onString behind c uncompacted)).toList.length := by
    rw [← hkept c]
    exact (hperm.filter _).length_eq
  rw [htwo] at hone
  cases h : keptOperation none (onString behind c uncompacted) <;> simp [h] at hone

theorem Confined.congr {behind' : OperationBody → List UInt8} {totalBlocks : Nat}
    (h : Confined behind uncompacted totalBlocks)
    (hread : ∀ op ∈ uncompacted, op.keyString behind = op.keyString behind') :
    Confined behind' uncompacted totalBlocks := by
  intro later hlater earlier hearlier op hop other hother hstring last hlast
  have hopString := hread op (leaf_subset earlier hop)
  have hfilter : (uncompacted.filter fun op' =>
      decide (op'.keyString behind = op.keyString behind)) =
      uncompacted.filter fun op' => decide (op'.keyString behind' = op.keyString behind') :=
    filter_congr fun op' hop' => by rw [hread op' hop', hopString]
  apply h later hlater earlier hearlier op hop other hother
  · rw [hopString, hread other (leaf_subset later hother), hstring]
  · rw [hfilter]
    exact hlast

/-- Where a zero byte stands behind every key, the two compactions agree if the operations of a key
    that are newer than its last one lie in the lowest block of that one; with one thread only
    then. -/
theorem compact_agrees (behind : OperationBody → List UInt8) (numberThreads : Nat)
    (uncompacted : List OperationBody) (hkeys : ∀ op ∈ uncompacted, op.keyArg.isSome)
    (hterminated : ∀ op ∈ uncompacted, (behind op).head? = some 0) :
    (Confined zeroBehind uncompacted (2 ^ (Nat.log2 numberThreads + 1)) →
        Agrees behind numberThreads uncompacted) ∧
      (numberThreads = 1 → Agrees behind numberThreads uncompacted →
        Confined zeroBehind uncompacted (2 ^ (Nat.log2 numberThreads + 1))) := by
  have hread : ∀ op ∈ uncompacted, op.keyString behind = op.keyString zeroBehind :=
    fun op hop => keyString_of_terminated (hterminated op hop)
  constructor
  · intro h
    exact agrees_of_confined hkeys (h.congr fun op hop => (hread op hop).symm)
  · rintro rfl h
    exact (confined_of_agrees hkeys h).congr hread

/-- With two threads there are four of the lowest blocks, and the last one has the two newest
    operations. -/
theorem compact_agrees_two_threads :
    Agrees zeroBehind 2 [setOfA 1, setOfA 2, setOfA 1, setOfA 4, setOfA 3] := by
  apply (compact_agrees zeroBehind 2 [setOfA 1, setOfA 2, setOfA 1, setOfA 4, setOfA 3]
    (by decide) (by decide)).1
  decide

/-- With one thread a newer operation of the first block is left beside that of the second. -/
theorem merge_keeps_key_twice :
    compact zeroBehind 1 [setOfA 5, setOfA 1] = some [setOfA 1, setOfA 5] ∧
      (SingleThreadedLogCompacter.compact zeroBehind [setOfA 5, setOfA 1] [] []).map (·.1) =
        some [setOfA 5] ∧ ¬ Agrees zeroBehind 1 [setOfA 5, setOfA 1] := by
  refine ⟨by decide, by decide, ?_⟩
  intro h
  have hconfined : Confined zeroBehind [setOfA 5, setOfA 1] 2 :=
    confined_of_agrees (by decide) h
  revert hconfined
  decide

end MultiThreadedLogCompactor

end MemDb

import MemDb.Persistence.Compaction
import Mathlib.Data.List.Dedup

/-! # What compaction keeps of each key

    `SingleThreadedLogCompacter` walks the operations from the last one back and keeps one for each
    key that `strcmp` tells apart. The timestamp it compares with stays that of the last operation,
    so of the operations that are newer than this one it keeps the first of the list, not the
    newest.

    `compact_spec` says what is left under each key, for any timestamps noted before the walk;
    `compact_keepsNewest_iff` says when that is the newest operation of each key.
-/

namespace MemDb

open List Option

/-! ### Maps with strings as keys -/

theorem not_lessThan_iff (a b : List UInt8) :
    (!decide (a < b) && !decide (b < a)) = true ↔ a = b := by
  simp only [Bool.and_eq_true, Bool.not_eq_eq_eq_not, Bool.not_true, decide_eq_false_iff_not]
  constructor
  · rintro ⟨hab, hba⟩
    exact List.le_antisymm (List.not_lt.mp hba) (List.not_lt.mp hab)
  · rintro rfl
    exact ⟨List.lt_irrefl _, List.lt_irrefl _⟩

namespace StringMap
variable {V : Type}

/-- The value under a string. -/
def under (c : List UInt8) (map : StringMap V) : Option V :=
  (map.find? fun entry => decide (entry.1 = c)).map (·.2)

theorem lookup_eq_under (key : List UInt8) (map : StringMap V) :
    lookup key map = under key map := by
  unfold lookup under
  congr 2
  funext entry
  exact Bool.eq_iff_iff.mpr ((not_lessThan_iff _ _).trans decide_eq_true_iff.symm)

theorem under_assign (key : List UInt8) (value : V) (map : StringMap V) (c : List UInt8) :
    under c (assign key value map) = if key = c then some value else under c map := by
  induction map with
  | nil => by_cases h : key = c <;> simp [assign, under, h]
  | cons entry rest ih =>
    obtain ⟨k, v⟩ := entry
    unfold assign
    by_cases hlt : key < k
    · rw [if_pos hlt]
      by_cases h : key = c <;> simp [under, h]
    · by_cases hgt : k < key
      · rw [if_neg hlt, if_pos hgt]
        -- the entry is passed: its key is another one
        have hne : k ≠ key := by
          rintro rfl
          exact List.lt_irrefl _ hgt
        by_cases hk : k = c
        · simp [under, hk, show key ≠ c from fun h => hne (hk.trans h.symm)]
        · simp only [under, find?_cons, hk, decide_false] at ih ⊢
          exact ih
      · rw [if_neg hlt, if_neg hgt]
        have heq : k = key := (not_lessThan_iff k key).mp (by simp [hlt, hgt])
        by_cases h : key = c <;> simp [under, h, heq]

/-- The entries are in the order of their keys. -/
def Sorted (map : StringMap V) : Prop := map.Pairwise fun a b => a.1 < b.1

variable {map : StringMap V}

theorem mem_assign {key : List UInt8} {value : V} {entry : List UInt8 × V}
    (h : entry ∈ assign key value map) : entry = (key, value) ∨ entry ∈ map := by
  induction map with
  | nil => exact Or.inl (mem_singleton.mp h)
  | cons first rest ih =>
    obtain ⟨k, v⟩ := first
    unfold assign at h
    split at h
    · exact mem_cons.mp h
    · next hlt =>
      split at h
      · rcases mem_cons.mp h with rfl | h
        · exact Or.inr mem_cons_self
        · exact (ih h).imp_right (mem_cons_of_mem _)
      · next hgt =>
        obtain rfl : k = key := (not_lessThan_iff k key).mp (by simp [hlt, hgt])
        exact (mem_cons.mp h).imp_right (mem_cons_of_mem _)

theorem Sorted.assign (h : map.Sorted) (key : List UInt8) (value : V) :
    (map.assign key value).Sorted := by
  induction map with
  | nil => exact pairwise_singleton _ _
  | cons entry rest ih =>
    obtain ⟨k, v⟩ := entry
    obtain ⟨hfirst, hrest⟩ := pairwise_cons.mp h
    unfold StringMap.assign
    split
    · next hlt =>
      refine pairwise_cons.mpr ⟨?_, h⟩
      intro entry hentry
      rcases mem_cons.mp hentry with rfl | hentry
      · exact hlt
      · exact List.lt_trans hlt (hfirst entry hentry)
    · split
      · next hgt =>
        refine pairwise_cons.mpr ⟨?_, ih hrest⟩
        intro entry hentry
        rcases mem_assign hentry with rfl | hentry
        · exact hgt
        · exact hfirst entry hentry
      · exact pairwise_cons.mpr ⟨hfirst, hrest⟩

theorem Sorted.under_eq_some_iff (h : map.Sorted) {c : List UInt8} {value : V} :
    under c map = some value ↔ (c, value) ∈ map := by
  induction map with
  | nil => simp [under]
  | cons entry rest ih =>
    obtain ⟨k, v⟩ := entry
    obtain ⟨hfirst, hrest⟩ := pairwise_cons.mp h
    rw [mem_cons]
    by_cases hk : k = c
    · subst hk
      have hunder : under k ((k, v) :: rest) = some v := by simp [under]
      -- behind the first entry the keys are greater
      have hbehind : (k, value) ∉ rest := fun hmem => List.lt_irrefl k (hfirst _ hmem)
      simp [hunder, hbehind, eq_comm]
    · have hunder : under c ((k, v) :: rest) = under c rest := by simp [under, hk]
      rw [hunder, ih hrest]
      simp [Ne.symm hk]

end StringMap

/-! ### The operations under one string -/

section strings
variable (behind : OperationBody → List UInt8)

/-- The operations whose key is read as `c`, in their order. -/
def onString (c : List UInt8) (ops : List OperationBody) : List OperationBody :=
  ops.filter fun op => decide (op.keyString behind = some c)

variable {behind} {op : OperationBody} {ops : List OperationBody} {key : SimpleString}

theorem mem_onString {c : List UInt8} :
    op ∈ onString behind c ops ↔ op ∈ ops ∧ op.keyString behind = some c := by
  simp [onString]

/-- Every key is read as some string. -/
theorem exists_keyString (behind : OperationBody → List UInt8) (h : op.keyArg.isSome) :
    ∃ c, op.keyString behind = some c := by
  obtain ⟨key, hkey⟩ := isSome_iff_exists.mp h
  exact ⟨_, by rw [OperationBody.keyString, hkey]; rfl⟩

/-- A map that is in order has at most one value under a string. -/
theorem onString_values {map : StringMap OperationBody} (h : map.Sorted)
    (hvalues : ∀ entry ∈ map, entry.2.keyString behind = some entry.1) (c : List UInt8) :
    onString behind c (map.map (·.2)) = (map.under c).toList := by
  induction map with
  | nil => rfl
  | cons entry rest ih =>
    obtain ⟨hfirst, hrest⟩ := pairwise_cons.mp h
    obtain ⟨hvalue, hvalues⟩ := forall_mem_cons.mp hvalues
    have hih := ih hrest hvalues
    by_cases hk : entry.1 = c
    · -- no other entry is under `c`, as the keys behind are greater
      have hnone : StringMap.under c rest = none := by
        cases hunder : StringMap.under c rest with
        | none => rfl
        | some value =>
          have hlt := hfirst _ ((StringMap.Sorted.under_eq_some_iff hrest).mp hunder)
          rw [hk] at hlt
          exact absurd hlt (List.lt_irrefl c)
      rw [hnone] at hih
      simp only [onString] at hih
      simp [onString, StringMap.under, hvalue, hk, hih]
    · simp only [onString] at hih
      simp only [StringMap.under] at hih
      simp [onString, StringMap.under, hvalue, hk, hih]

/-! ### The loop -/

/-- The timestamp noted under a string and the operation kept there, after one more operation on
    it. -/
def visit (state : Option UInt64 × Option OperationBody) (op : OperationBody) :
    Option UInt64 × Option OperationBody :=
  match state.1 with
  | some timestamp => (state.1, if timestamp < op.timestamp then some op else state.2)
  | none => (some op.timestamp, some op)

section
open SingleThreadedLogCompacter
variable {rest : List OperationBody} {kept : StringMap OperationBody} {noted : StringMap UInt64}
  {string : List UInt8}

/-- What an operation's key has noted and kept is visited; what other keys have stays. -/
theorem compactLoop_cons (hstring : op.keyString behind = some string) (hsorted : kept.Sorted) :
    ∃ kept' noted', compactLoop behind (op :: rest) kept noted =
        compactLoop behind rest kept' noted' ∧
      kept'.Sorted ∧
      ∀ c, (noted'.under c, kept'.under c) =
        if string = c then visit (noted.under c, kept.under c) op
        else (noted.under c, kept.under c) := by
  conv => enter [1, kept', 1, noted', 1, 1]; unfold compactLoop
  simp only [hstring, bind_some, StringMap.lookup_eq_under]
  cases hnoted : noted.under string with
  | some timestamp =>
    refine ⟨_, _, rfl, ?_, ?_⟩
    · split
      · exact hsorted.assign string op
      · exact hsorted
    · intro c
      by_cases hc : string = c
      · subst hc
        by_cases hlt : timestamp < op.timestamp <;>
          simp [visit, hnoted, hlt, StringMap.under_assign]
      · by_cases hlt : timestamp < op.timestamp <;> simp [hlt, hc, StringMap.under_assign]
  | none =>
    refine ⟨_, _, rfl, hsorted.assign string op, ?_⟩
    intro c
    by_cases hc : string = c
    · subst hc
      simp [visit, hnoted, StringMap.under_assign]
    · simp [hc, StringMap.under_assign]

end

theorem compactLoop_spec (hkeys : ∀ op ∈ ops, op.keyArg.isSome) {kept : StringMap OperationBody}
    (noted : StringMap UInt64) (hsorted : kept.Sorted) :
    ∃ kept' noted',
      SingleThreadedLogCompacter.compactLoop behind ops kept noted = some (kept', noted') ∧
      kept'.Sorted ∧
      ∀ c, (noted'.under c, kept'.under c) =
        (onString behind c ops).foldl visit (noted.under c, kept.under c) := by
  induction ops generalizing kept noted with
  | nil => exact ⟨kept, noted, rfl, hsorted, fun c => rfl⟩
  | cons op rest ih =>
    obtain ⟨hkey, hkeys⟩ := forall_mem_cons.mp hkeys
    obtain ⟨string, hstring⟩ := exists_keyString behind hkey
    obtain ⟨kept₁, noted₁, hloop, hsorted₁, hstate⟩ := compactLoop_cons hstring hsorted
    obtain ⟨kept', noted', hrun, hsorted', hstate'⟩ := ih hkeys noted₁ hsorted₁
    refine ⟨kept', noted', hloop.trans hrun, hsorted', ?_⟩
    intro c
    rw [hstate' c, hstate c]
    by_cases hc : string = c <;> simp [onString, hstring, hc]

/-- What the walk keeps under a string: the first operation newer than the noted timestamp, which is
    that of the last operation where none is noted before. -/
def keptOperation (noted : Option UInt64) (ops : List OperationBody) : Option OperationBody :=
  match noted with
  | some timestamp => ops.find? (timestamp < ·.timestamp)
  | none => ops.getLast?.map fun last => (ops.find? (last.timestamp < ·.timestamp)).getD last

theorem foldl_visit_noted (timestamp : UInt64) (kept : Option OperationBody)
    (ops : List OperationBody) :
    ops.reverse.foldl visit (some timestamp, kept) =
      (some timestamp, (ops.find? (timestamp < ·.timestamp)).or kept) := by
  rw [foldl_reverse]
  induction ops with
  | nil => rfl
  | cons op rest ih =>
    rw [foldr_cons, ih]
    by_cases h : timestamp < op.timestamp <;> simp [visit, h]

theorem foldl_visit (noted : Option UInt64) (ops : List OperationBody) :
    ops.reverse.foldl visit (noted, none) =
      (noted.or (ops.getLast?.map (·.timestamp)), keptOperation noted ops) := by
  cases noted with
  | some timestamp =>
    rw [foldl_visit_noted, or_none]
    rfl
  | none =>
    rcases eq_nil_or_concat ops with rfl | ⟨init, last, rfl⟩
    · rfl
    · -- the last operation is the first one visited, and its timestamp stays
      rw [concat_eq_append, reverse_concat, foldl_cons,
        show visit (none, none) last = (some last.timestamp, some last) from rfl,
        foldl_visit_noted]
      cases h : init.find? (last.timestamp < ·.timestamp) <;>
        simp [keptOperation, find?_append, h]

theorem keptOperation_mem {noted : Option UInt64} (h : keptOperation noted ops = some op) :
    op ∈ ops := by
  cases noted with
  | some timestamp => exact mem_of_find?_eq_some h
  | none =>
    obtain ⟨last, hlast, rfl⟩ := map_eq_some_iff.mp h
    cases hfind : ops.find? (last.timestamp < ·.timestamp) with
    | none => exact mem_of_getLast? hlast
    | some first => exact mem_of_find?_eq_some hfind

/-- A compaction adds, under each string, what is kept there. -/
theorem compact_spec (behind : OperationBody → List UInt8)
    (hkeys : ∀ op ∈ ops, op.keyArg.isSome) (compacted : List OperationBody)
    (noted : StringMap UInt64) :
    ∃ added noted', SingleThreadedLogCompacter.compact behind ops compacted noted =
        some (compacted ++ added, noted') ∧
      (∀ c, onString behind c added =
        (keptOperation (noted.under c) (onString behind c ops)).toList) ∧
      (∀ op ∈ added, op.keyArg.isSome) ∧
      ∀ c, noted'.under c =
        (noted.under c).or ((onString behind c ops).getLast?.map (·.timestamp)) := by
  obtain ⟨kept, noted', hloop, hsorted, hstate⟩ :=
    compactLoop_spec (fun op hop => hkeys op (mem_reverse.mp hop)) noted Pairwise.nil
  have hunder : ∀ c, (noted'.under c, kept.under c) =
      ((noted.under c).or ((onString behind c ops).getLast?.map (·.timestamp)),
        keptOperation (noted.under c) (onString behind c ops)) := by
    intro c
    rw [hstate c, ← foldl_visit, onString, onString, ← filter_reverse]
    rfl
  -- a value's key is the one it stands under
  have hvalues : ∀ entry ∈ kept, entry.2 ∈ ops ∧ entry.2.keyString behind = some entry.1 := by
    intro entry hentry
    have hentry := hsorted.under_eq_some_iff.mpr hentry
    rw [(Prod.mk.inj (hunder _)).2] at hentry
    exact mem_onString.mp (keptOperation_mem hentry)
  refine ⟨kept.map (·.2), noted', ?_, ?_, ?_, fun c => (Prod.mk.inj (hunder c)).1⟩
  · rw [SingleThreadedLogCompacter.compact, hloop]
    rfl
  · intro c
    rw [onString_values hsorted (fun entry hentry => (hvalues entry hentry).2),
      (Prod.mk.inj (hunder c)).2]
  · intro op hop
    obtain ⟨entry, hentry, rfl⟩ := mem_map.mp hop
    exact hkeys _ (hvalues entry hentry).1

/-! ### The newest operation of each key -/

/-- The operation with the greatest timestamp, and the last one of those that have it. -/
def newest : List OperationBody → Option OperationBody
  | [] => none
  | op :: rest =>
    match newest rest with
    | none => some op
    | some later => if later.timestamp < op.timestamp then some op else some later

theorem newest_eq_none_iff : newest ops = none ↔ ops = [] := by
  cases ops with
  | nil => simp [newest]
  | cons op rest =>
    cases h : newest rest with
    | none => simp [newest, h]
    | some later => by_cases hlt : later.timestamp < op.timestamp <;> simp [newest, h, hlt]

/-- The operations before it are not newer, and those behind it are older. -/
theorem newest_eq_some (h : newest ops = some op) :
    ∃ before after, ops = before ++ op :: after ∧
      (∀ other ∈ before, other.timestamp ≤ op.timestamp) ∧
      ∀ other ∈ after, other.timestamp < op.timestamp := by
  induction ops generalizing op with
  | nil => simp [newest] at h
  | cons first rest ih =>
    cases hrest : newest rest with
    | none =>
      obtain rfl := newest_eq_none_iff.mp hrest
      obtain rfl : first = op := by simpa [newest] using h
      exact ⟨[], [], rfl, by simp, by simp⟩
    | some later =>
      obtain ⟨before, after, rfl, hbefore, hafter⟩ := ih hrest
      simp only [newest, hrest] at h
      -- on equal timestamps the later operation wins
      by_cases hlt : later.timestamp < first.timestamp
      · obtain rfl : first = op := by simpa [hlt] using h
        refine ⟨[], _, rfl, by simp, ?_⟩
        intro other hother
        rcases mem_append.mp hother with hother | hother
        · exact UInt64.lt_of_le_of_lt (hbefore other hother) hlt
        · rcases mem_cons.mp hother with rfl | hother
          · exact hlt
          · exact UInt64.lt_trans (hafter other hother) hlt
      · obtain rfl : later = op := by simpa [hlt] using h
        exact ⟨first :: before, after, rfl,
          forall_mem_cons.mpr ⟨UInt64.not_lt.mp hlt, hbefore⟩, hafter⟩

theorem newest_mem (h : newest ops = some op) :
    op ∈ ops := by
  obtain ⟨before, after, rfl, -⟩ := newest_eq_some h
  simp

/-- Where no operation is newer than the last one, this is the newest. -/
theorem newest_eq_last {last : OperationBody} (hlast : ops.getLast? = some last)
    (hle : ∀ op ∈ ops, op.timestamp ≤ last.timestamp) :
    newest ops = some last := by
  cases h : newest ops with
  | none =>
    rw [newest_eq_none_iff.mp h] at hlast
    simp at hlast
  | some op =>
    obtain ⟨before, after, rfl, hbefore, hafter⟩ := newest_eq_some h
    rcases eq_nil_or_concat after with rfl | ⟨init, final, rfl⟩
    · simpa using hlast
    · -- an operation behind the newest is older than it
      obtain rfl : final = last := by
        rw [concat_eq_append, ← cons_append, ← append_assoc,
          getLast?_concat] at hlast
        exact some.inj hlast
      have hlt := hafter final (by simp)
      have hop := hle op (by simp)
      exact absurd (UInt64.lt_of_lt_of_le hlt hop) (UInt64.lt_irrefl _)

/-- The operations on a key, in their order. -/
def onKey (key : SimpleString) (ops : List OperationBody) : List OperationBody :=
  ops.filter fun op => decide (op.keyArg = some key)

theorem mem_onKey :
    op ∈ onKey key ops ↔ op ∈ ops ∧ op.keyArg = some key := by
  simp [onKey]

/-- The distinct keys of a list of operations. -/
def keysOf (ops : List OperationBody) : List SimpleString :=
  (ops.filterMap OperationBody.keyArg).dedup

theorem mem_keysOf :
    key ∈ keysOf ops ↔ ∃ op ∈ ops, op.keyArg = some key := by
  simp [keysOf]

/-- One operation for each distinct key, and it is the newest on that key. -/
def KeepsNewest (ops kept : List OperationBody) : Prop :=
  kept.Perm ((keysOf ops).filterMap fun key => newest (onKey key ops))

/-- No two keys agree up to their first zero byte. -/
def DistinctStrings (ops : List OperationBody) : Prop :=
  ∀ key ∈ keysOf ops, ∀ key' ∈ keysOf ops, cString key = cString key' → key = key'

/-- Where some operations on a key are newer than the last of them, the first of these is the
    newest. -/
def FirstNewerIsNewest (ops : List OperationBody) : Prop :=
  ∀ key ∈ keysOf ops, ∀ last ∈ (onKey key ops).getLast?,
    ∀ first ∈ (onKey key ops).find? (last.timestamp < ·.timestamp),
      newest (onKey key ops) = some first

theorem cString_append_zero (key rest : List UInt8) : cString (key ++ 0 :: rest) = cString key := by
  induction key with
  | nil => rfl
  | cons byte key ih =>
    unfold cString at ih ⊢
    rw [cons_append, takeWhile_cons, takeWhile_cons, ih]

/-- Where a zero byte stands behind the key, `strcmp` stops in the key or at that byte. -/
theorem keyString_of_terminated (h : (behind op).head? = some 0) :
    op.keyString behind = op.keyString zeroBehind := by
  obtain ⟨rest, hrest⟩ := head?_eq_some_iff.mp h
  simp only [OperationBody.keyString, hrest, zeroBehind, cString_append_zero]

theorem onString_of_terminated (h : ∀ op ∈ ops, (behind op).head? = some 0) (c : List UInt8) :
    onString behind c ops = onString zeroBehind c ops :=
  filter_congr fun op hop => by rw [keyString_of_terminated (h op hop)]

theorem keyString_of_key (h : op.keyArg = some key) :
    op.keyString zeroBehind = some (cString key) := by
  rw [OperationBody.keyString, h, map_some, zeroBehind, cString_append_zero]

/-- The loop depends on the bytes behind the keys only through what is compared. -/
theorem compactLoop_congr {behind' : OperationBody → List UInt8}
    (h : ∀ op ∈ ops, op.keyString behind = op.keyString behind') (kept : StringMap OperationBody)
    (noted : StringMap UInt64) :
    SingleThreadedLogCompacter.compactLoop behind ops kept noted =
      SingleThreadedLogCompacter.compactLoop behind' ops kept noted := by
  induction ops generalizing kept noted with
  | nil => rfl
  | cons op rest ih =>
    obtain ⟨hop, hrest⟩ := forall_mem_cons.mp h
    unfold SingleThreadedLogCompacter.compactLoop
    simp only [hop, ih hrest]

theorem onString_eq_onKey (h : DistinctStrings ops) (hkey : key ∈ keysOf ops) :
    onString zeroBehind (cString key) ops = onKey key ops := by
  unfold onString onKey
  apply filter_congr
  intro op hop
  apply decide_eq_decide.mpr
  simp only [OperationBody.keyString, zeroBehind, cString_append_zero, map_eq_some_iff]
  constructor
  · rintro ⟨key', hkey', hstring⟩
    rw [hkey', h key' (mem_keysOf.mpr ⟨op, hop, hkey'⟩) key hkey hstring]
  · intro hop
    exact ⟨key, hop, rfl⟩

theorem keptOperation_eq_newest_iff {last : OperationBody} (hlast : ops.getLast? = some last) :
    keptOperation none ops = newest ops ↔
      ∀ first ∈ ops.find? (last.timestamp < ·.timestamp), newest ops = some first := by
  simp only [keptOperation, hlast, map_some]
  cases hfind : ops.find? (last.timestamp < ·.timestamp) with
  | none =>
    simp only [getD_none, reduceCtorEq, mem_def, false_implies, implies_true, iff_true]
    have hle : ∀ op ∈ ops, op.timestamp ≤ last.timestamp := by
      intro op hop
      have := find?_eq_none.mp hfind op hop
      exact UInt64.not_lt.mp (by simpa using this)
    exact (newest_eq_last hlast hle).symm
  | some first =>
    simp only [getD_some, mem_def, some.injEq, forall_eq']
    exact eq_comm

/-- The operations that are left when nothing is noted before. -/
theorem compact_nil_spec (behind : OperationBody → List UInt8)
    (hkeys : ∀ op ∈ ops, op.keyArg.isSome) :
    ∃ kept noted, SingleThreadedLogCompacter.compact behind ops [] [] = some (kept, noted) ∧
      (∀ c, onString behind c kept = (keptOperation none (onString behind c ops)).toList) ∧
      ∀ op ∈ kept, op.keyArg.isSome := by
  obtain ⟨kept, noted, hcompact, hkept, hkeyed, -⟩ := compact_spec behind hkeys [] []
  exact ⟨kept, noted, hcompact, hkept, hkeyed⟩

/-- Two lists of operations with keys have the same members where they do under each key. -/
theorem mem_iff_of_keyed {left right : List OperationBody} (hleft : ∀ op ∈ left, op.keyArg.isSome)
    (hright : ∀ op ∈ right, op.keyArg.isSome)
    (h : ∀ op key, op.keyArg = some key → (op ∈ left ↔ op ∈ right)) :
    ∀ op, op ∈ left ↔ op ∈ right := by
  intro op
  constructor
  · intro hop
    obtain ⟨key, hkey⟩ := isSome_iff_exists.mp (hleft op hop)
    exact (h op key hkey).mp hop
  · intro hop
    obtain ⟨key, hkey⟩ := isSome_iff_exists.mp (hright op hop)
    exact (h op key hkey).mpr hop

section
variable {ops kept : List OperationBody}

section
variable (hkept : ∀ c, onString behind c kept = (keptOperation none (onString behind c ops)).toList)
include hkept

theorem mem_kept_iff {op : OperationBody} {c : List UInt8}
    (hstring : op.keyString behind = some c) :
    op ∈ kept ↔ keptOperation none (onString behind c ops) = some op := by
  rw [← mem_toList, ← hkept, mem_onString]
  simp [hstring]

theorem nodup_kept (hkeyed : ∀ op ∈ kept, op.keyArg.isSome) : kept.Nodup := by
  rw [nodup_iff_count_le_one]
  intro op
  by_cases hop : op ∈ kept
  · -- the operation is counted among those under its own string, of which one is left
    obtain ⟨c, hstring⟩ := exists_keyString behind (hkeyed op hop)
    have hcount : (onString behind c kept).count op = kept.count op :=
      count_filter (by simpa using hstring)
    rw [← hcount, hkept]
    refine (count_le_length).trans ?_
    cases keptOperation none (onString behind c ops) <;> simp
  · rw [count_eq_zero_of_not_mem hop]
    exact Nat.zero_le 1

end

theorem mem_newest_iff {op : OperationBody} {key : SimpleString} (hkey : op.keyArg = some key) :
    op ∈ (keysOf ops).filterMap (fun key => newest (onKey key ops)) ↔
      newest (onKey key ops) = some op := by
  rw [mem_filterMap]
  constructor
  · rintro ⟨key', -, hnewest⟩
    obtain rfl : key' = key := by
      have hkey' := (mem_onKey.mp (newest_mem hnewest)).2
      exact some.inj (hkey'.symm.trans hkey)
    exact hnewest
  · intro hnewest
    exact ⟨key, mem_keysOf.mpr ⟨op, mem_onKey.mp (newest_mem hnewest)⟩, hnewest⟩

theorem keyed_newest :
    ∀ op ∈ (keysOf ops).filterMap (fun key => newest (onKey key ops)), op.keyArg.isSome := by
  intro op hop
  obtain ⟨key, -, hop⟩ := mem_filterMap.mp hop
  rw [(mem_onKey.mp (newest_mem hop)).2]
  rfl

theorem nodup_newest : ((keysOf ops).filterMap fun key => newest (onKey key ops)).Nodup := by
  apply Nodup.filterMap _ (nodup_dedup _)
  intro key key' op hop hop'
  have hkey := (mem_onKey.mp (newest_mem hop)).2
  have hkey' := (mem_onKey.mp (newest_mem hop')).2
  exact some.inj (hkey.symm.trans hkey')

/-- Each key's newest operation is the one left under its string. -/
theorem keepsNewest_iff (hkept : ∀ c, onString zeroBehind c kept =
      (keptOperation none (onString zeroBehind c ops)).toList)
    (hkeyed : ∀ op ∈ kept, op.keyArg.isSome) :
    KeepsNewest ops kept ↔
      ∀ key ∈ keysOf ops,
        keptOperation none (onString zeroBehind (cString key) ops) = newest (onKey key ops) := by
  -- both lists hold one operation for each key at most, so it is enough to compare members
  unfold KeepsNewest
  rw [perm_ext_iff_of_nodup (nodup_kept hkept hkeyed) nodup_newest]
  constructor
  · intro hmem key hkey
    obtain ⟨op, hop, hopKey⟩ := mem_keysOf.mp hkey
    cases hnewest : newest (onKey key ops) with
    | none =>
      have hop := mem_onKey.mpr ⟨hop, hopKey⟩
      rw [newest_eq_none_iff.mp hnewest] at hop
      simp at hop
    | some latest =>
      have hlatest := (mem_onKey.mp (newest_mem hnewest)).2
      exact (mem_kept_iff hkept (keyString_of_key hlatest)).mp
        ((hmem latest).mpr ((mem_newest_iff hlatest).mpr hnewest))
  · intro hnewest
    apply mem_iff_of_keyed hkeyed keyed_newest
    intro op key hkey
    rw [mem_kept_iff hkept (keyString_of_key hkey), mem_newest_iff hkey]
    by_cases hmem : key ∈ keysOf ops
    · rw [hnewest key hmem]
    · constructor
      · intro hop
        have hop := (mem_onString.mp (keptOperation_mem hop)).1
        exact absurd (mem_keysOf.mpr ⟨op, hop, hkey⟩) hmem
      · intro hop
        have hop := (mem_onKey.mp (newest_mem hop)).1
        exact absurd (mem_keysOf.mpr ⟨op, hop, hkey⟩) hmem

end

theorem exists_last (hkey : key ∈ keysOf ops) :
    ∃ last, (onKey key ops).getLast? = some last := by
  obtain ⟨op, hop, hopKey⟩ := mem_keysOf.mp hkey
  have hop := mem_onKey.mpr ⟨hop, hopKey⟩
  exact ⟨_, getLast?_eq_some_getLast (ne_nil_of_mem hop)⟩

theorem kept_eq_newest_iff :
    (∀ key ∈ keysOf ops,
        keptOperation none (onString zeroBehind (cString key) ops) = newest (onKey key ops)) ↔
      DistinctStrings ops ∧ FirstNewerIsNewest ops := by
  constructor
  · intro h
    -- one operation is left under two keys with the same string, and it has one key
    have hdistinct : DistinctStrings ops := by
      intro key hkey key' hkey' hstring
      obtain ⟨last, hlast⟩ := exists_last hkey
      obtain ⟨op, hop⟩ : ∃ op, newest (onKey key ops) = some op := by
        apply ne_none_iff_exists'.mp
        intro hnone
        simp [newest_eq_none_iff.mp hnone] at hlast
      have hop' : newest (onKey key' ops) = some op := by
        rw [← h key' hkey', ← hstring, h key hkey, hop]
      have hopKey := (mem_onKey.mp (newest_mem hop)).2
      have hopKey' := (mem_onKey.mp (newest_mem hop')).2
      exact some.inj (hopKey.symm.trans hopKey')
    refine ⟨hdistinct, ?_⟩
    intro key hkey last hlast
    have hkept := h key hkey
    rw [onString_eq_onKey hdistinct hkey] at hkept
    exact (keptOperation_eq_newest_iff hlast).mp hkept
  · rintro ⟨hdistinct, hfirst⟩ key hkey
    obtain ⟨last, hlast⟩ := exists_last hkey
    rw [onString_eq_onKey hdistinct hkey]
    exact (keptOperation_eq_newest_iff hlast).mpr (hfirst key hkey last hlast)

/-- Where a zero byte stands behind every key, compaction leaves the newest operation of each key
    just where the keys differ in front of their first zero byte and the first operation newer than
    a key's last one is the newest. -/
theorem compact_keepsNewest_iff (behind : OperationBody → List UInt8) (ops : List OperationBody)
    (hkeys : ∀ op ∈ ops, op.keyArg.isSome) (hterminated : ∀ op ∈ ops, (behind op).head? = some 0) :
    (∃ kept noted, SingleThreadedLogCompacter.compact behind ops [] [] = some (kept, noted) ∧
      KeepsNewest ops kept) ↔ DistinctStrings ops ∧ FirstNewerIsNewest ops := by
  have hread : ∀ op ∈ ops.reverse, op.keyString behind = op.keyString zeroBehind :=
    fun op hop => keyString_of_terminated (hterminated op (mem_reverse.mp hop))
  obtain ⟨kept, noted, hcompact, hkept, hkeyed⟩ := compact_nil_spec zeroBehind hkeys
  rw [← kept_eq_newest_iff, ← keepsNewest_iff hkept hkeyed, SingleThreadedLogCompacter.compact,
    compactLoop_congr hread, ← SingleThreadedLogCompacter.compact, hcompact]
  constructor
  · rintro ⟨kept', noted', heq, hnewest⟩
    obtain rfl := (Prod.mk.inj (some.inj heq)).1
    exact hnewest
  · intro hnewest
    exact ⟨kept, noted, rfl, hnewest⟩

end strings

/-- A set of the key `A`, as the tests write it. -/
def setOfA (timestamp : UInt64) : OperationBody :=
  { args := some [[65], [49]], timestamp, nodeId := 1, operatorNumber := 0x01, flag1 := false
    flag2 := false }

/-- The first of two operations stays where it is newer. -/
theorem compact_keeps_first_newer :
    ∃ kept noted, SingleThreadedLogCompacter.compact zeroBehind [setOfA 2, setOfA 1] [] [] =
        some (kept, noted) ∧ KeepsNewest [setOfA 2, setOfA 1] kept := by
  apply (compact_keepsNewest_iff zeroBehind [setOfA 2, setOfA 1] (by decide) (by decide)).mpr
  refine ⟨?_, ?_⟩
  · unfold DistinctStrings
    decide
  · unfold FirstNewerIsNewest
    decide

/-- Of three operations with the timestamps 3, 5 and 1 that with 3 is left. -/
theorem compact_drops_newest :
    (SingleThreadedLogCompacter.compact zeroBehind [setOfA 3, setOfA 5, setOfA 1] [] []).map
        (·.1) = some [setOfA 3] ∧
      ¬ KeepsNewest [setOfA 3, setOfA 5, setOfA 1] [setOfA 3] := by
  refine ⟨by decide, ?_⟩
  unfold KeepsNewest
  decide

end MemDb

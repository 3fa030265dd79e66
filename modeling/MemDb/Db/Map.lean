import MemDb.Db.View
import Mathlib.Data.Nat.Bitwise

/-! # The store

  A `Map` spreads keys over a power of two of buckets by the low bits of their hash; each
  bucket is an `AVLTree`. `Map.view` is the content of the whole store, and the
  operations of the store refine those of the view, as they do for one tree.

  The hash of a key is a parameter: the source computes it with floating-point powers.
  The locks of the buckets play no part in what one call computes and are left out.
-/

namespace MemDb

open Option Function

/-- `Utils::roundUpPowerOfTwo` at 32 bits. -/
def roundUpPowerOfTwo (initial : UInt32) : UInt32 :=
  if initial ≤ 1 then 1
  else
    let x := initial - 1
    let x := x ||| x >>> 1
    let x := x ||| x >>> 2
    let x := x ||| x >>> 4
    let x := x ||| x >>> 8
    let x := x ||| x >>> 16
    x + 1

/-- `Utils::optimizedModulePowerOfTwo` at 32 bits. -/
def optimizedModulePowerOfTwo (powerOfTwo num : UInt32) : UInt32 := (powerOfTwo - 1) &&& num

/-- `calculateHash` on keys so short that the floating-point powers of the source are exact and
    the sum stays below `2 ^ 32`: the bytes weighted by the powers of `31`. -/
def shortKeyHash (key : SimpleString) : UInt32 :=
  UInt32.ofNat (key.foldr (fun (b : UInt8) acc => b.toNat + 31 * acc) 0)

/-- The store: its buckets, as many as it says, and at least one. -/
structure Map where
  numberBuckets : UInt32
  buckets : List AVLTree
  length_buckets : buckets.length = numberBuckets.toNat
  pos : 0 < numberBuckets.toNat

namespace Map

/-- The constructor `Map(numberBuckets)`. Above `2 ^ 31` the rounding wraps to no bucket at
    all, hence the condition. -/
def new (numberBuckets : UInt32) (h : 0 < (roundUpPowerOfTwo numberBuckets).toNat) : Map where
  numberBuckets := roundUpPowerOfTwo numberBuckets
  buckets := List.replicate (roundUpPowerOfTwo numberBuckets).toNat AVLTree.empty
  length_buckets := by simp
  pos := h

/-- The bucket a hash goes to. -/
def bucketIndex (m : Map) (keyHash : UInt32) : Nat :=
  (optimizedModulePowerOfTwo m.numberBuckets keyHash).toNat

theorem bucketIndex_lt (m : Map) (keyHash : UInt32) : m.bucketIndex keyHash < m.buckets.length := by
  have hpos := m.pos
  have hle : (m.numberBuckets - 1).toNat = m.numberBuckets.toNat - 1 := by
    rw [UInt32.toNat_sub_of_le]
    · rfl
    · rw [UInt32.le_iff_toNat_le]
      exact hpos
  rw [m.length_buckets, bucketIndex, optimizedModulePowerOfTwo, UInt32.toNat_and]
  have := Nat.and_le_left (n := (m.numberBuckets - 1).toNat) (m := keyHash.toNat)
  omega

/-- `getBucket`. -/
def getBucket (m : Map) (keyHash : UInt32) : AVLTree :=
  m.buckets.get ⟨m.bucketIndex keyHash, m.bucketIndex_lt keyHash⟩

/-- The store with one bucket replaced. -/
def setBucket (m : Map) (keyHash : UInt32) (t : AVLTree) : Map where
  numberBuckets := m.numberBuckets
  buckets := m.buckets.set (m.bucketIndex keyHash) t
  length_buckets := by rw [List.length_set, m.length_buckets]
  pos := m.pos

section operations

variable (calculateHash : SimpleString → UInt32)

/-- Store a value. Returns the store, the clock and the result. -/
def putData (m : Map) (key value : SimpleString) (timestamp : LamportClock)
    (strategy : UpdateClockStrategy) (lamportClock : LamportClock) (requestFromNode : Bool) :
    Option (Map × LamportClock × Option DbEditResult) := do
  let keyHash := calculateHash key
  let (bucket, clock, addResult) ← (m.getBucket keyHash).addData key keyHash value timestamp
    strategy lamportClock requestFromNode
  some (m.setBucket keyHash bucket, clock, addResult)

/-- Remove a key. Returns the store, the clock and the result. -/
def remove (m : Map) (key : SimpleString) (timestamp : LamportClock)
    (strategy : UpdateClockStrategy) (lamportClock : LamportClock) (checkTimestamps : Bool) :
    Option (Map × LamportClock × Option DbEditResult) := do
  let hash := calculateHash key
  let (bucket, clock, removeResult) ← (m.getBucket hash).removeData hash timestamp strategy
    lamportClock checkTimestamps
  some (m.setBucket hash bucket, clock, removeResult)

/-- Look a key up. -/
def get (m : Map) (key : SimpleString) : Option (Option MapEntry) :=
  (m.getBucket (calculateHash key)).lookup (calculateHash key)

end operations

/-! ### The content of a store -/

/-- What is stored under each hash. -/
def view (m : Map) : View := fun h => (m.getBucket h).view h

/-- The entry under the hash is at the root of its bucket, where refusals are reported. -/
def atRoot (m : Map) (keyHash : UInt32) : Prop := (m.getBucket keyHash).rootHash = some keyHash

instance (m : Map) (keyHash : UInt32) : Decidable (m.atRoot keyHash) :=
  inferInstanceAs (Decidable (_ = _))

/-- The removal of a hash reaches none of the defects of the tree. -/
def removalSafe (m : Map) (keyHash : UInt32) (timestamp : LamportClock)
    (strategy : UpdateClockStrategy) (checkTimestamps : Bool) : Bool :=
  (m.getBucket keyHash).removalSafe keyHash timestamp strategy checkTimestamps

/-- Every bucket is a well-formed tree and holds only hashes of its own index. -/
structure WellFormed (m : Map) : Prop where
  bucket : ∀ h, (m.getBucket h).WellFormed
  index : ∀ h h', (m.getBucket h).view h' ≠ none → m.bucketIndex h' = m.bucketIndex h

@[simp] theorem bucketIndex_setBucket (m : Map) (keyHash h : UInt32) (t : AVLTree) :
    (m.setBucket keyHash t).bucketIndex h = m.bucketIndex h := rfl

theorem getBucket_congr (m : Map) {h h' : UInt32} (heq : m.bucketIndex h' = m.bucketIndex h) :
    m.getBucket h' = m.getBucket h := by
  simp only [getBucket, heq]

theorem getBucket_setBucket_same (m : Map) {keyHash h : UInt32} (t : AVLTree)
    (heq : m.bucketIndex h = m.bucketIndex keyHash) : (m.setBucket keyHash t).getBucket h = t := by
  have hlt : m.bucketIndex h < (m.buckets.set (m.bucketIndex keyHash) t).length := by
    rw [List.length_set]
    exact m.bucketIndex_lt h
  show (m.buckets.set (m.bucketIndex keyHash) t).get ⟨m.bucketIndex h, hlt⟩ = t
  simp only [List.get_eq_getElem, heq, List.getElem_set_self]

theorem getBucket_setBucket_other (m : Map) {keyHash h : UInt32} (t : AVLTree)
    (hne : m.bucketIndex h ≠ m.bucketIndex keyHash) :
    (m.setBucket keyHash t).getBucket h = m.getBucket h := by
  exact List.getElem_set_ne (Ne.symm hne) _

section
variable (n : UInt32) (h : 0 < (roundUpPowerOfTwo n).toNat)
include n h

@[simp] theorem getBucket_new (keyHash : UInt32) : (new n h).getBucket keyHash = AVLTree.empty := by
  simp [getBucket, new]

theorem view_new (keyHash : UInt32) :
    (new n h).view keyHash = none := by
  rw [view, getBucket_new]
  rfl

theorem wellFormed_new :
    (new n h).WellFormed := by
  constructor
  · intro k
    rw [getBucket_new]
    exact AVLTree.wellFormed_empty
  · intro k k' hne
    rw [getBucket_new] at hne
    exact absurd rfl hne

end

/-- Replacing the bucket of a hash by a well-formed tree that differs from it at that hash
    only. -/
theorem WellFormed.setBucket {m : Map} (hwf : m.WellFormed) {keyHash : UInt32} {t : AVLTree}
    (ht : t.WellFormed) (hother : ∀ h', h' ≠ keyHash → t.view h' = (m.getBucket keyHash).view h') :
    (m.setBucket keyHash t).WellFormed ∧
      (m.setBucket keyHash t).view = update m.view keyHash (t.view keyHash) := by
  refine ⟨⟨fun h => ?_, fun h h' hne => ?_⟩, funext fun h => ?_⟩
  · by_cases heq : m.bucketIndex h = m.bucketIndex keyHash
    · rw [getBucket_setBucket_same m t heq]
      exact ht
    · rw [getBucket_setBucket_other m t heq]
      exact hwf.bucket h
  · by_cases heq : m.bucketIndex h = m.bucketIndex keyHash
    · rw [getBucket_setBucket_same m t heq] at hne
      rw [bucketIndex_setBucket, bucketIndex_setBucket, heq]
      by_cases hk : h' = keyHash
      · rw [hk]
      · rw [hother h' hk] at hne
        exact hwf.index keyHash h' hne
    · rw [getBucket_setBucket_other m t heq] at hne
      exact hwf.index h h' hne
  · by_cases hk : h = keyHash
    · subst hk
      rw [update_self, view, getBucket_setBucket_same m t rfl]
    · rw [update_of_ne hk, view]
      by_cases heq : m.bucketIndex h = m.bucketIndex keyHash
      · rw [getBucket_setBucket_same m t heq, hother h hk, view, getBucket_congr m heq]
      · rw [getBucket_setBucket_other m t heq]
        rfl

/-- The removal of a hash that is alone in its bucket is safe. -/
theorem WellFormed.removalSafe_of_alone {m : Map} (hwf : m.WellFormed) {h : UInt32}
    (halone : ∀ h', m.view h' ≠ none → m.bucketIndex h' = m.bucketIndex h → h' = h)
    (timestamp : LamportClock) (strategy : UpdateClockStrategy) (checkTimestamps : Bool) :
    m.removalSafe h timestamp strategy checkTimestamps = true := by
  refine (hwf.bucket h).removalSafe_of_alone (fun h' hview => ?_) timestamp strategy
    checkTimestamps
  have hindex := hwf.index h h' hview
  exact halone h' (by rwa [view, getBucket_congr m hindex]) hindex

/-- A write has come out as `m'`, `clock'` and `result`: accepted and stamped, or refused and
    reported as a success below the root of the bucket. -/
def Wrote (m : Map) (hash : UInt32) (key value : SimpleString) (timestamp : LamportClock)
    (strategy : UpdateClockStrategy) (clock : LamportClock) (checkTimestamps : Bool) (m' : Map)
    (clock' : LamportClock) (result : Option DbEditResult) : Prop :=
  (m.view.accepts hash timestamp strategy checkTimestamps = true ∧
    clock' = (clock.update strategy timestamp.counter).1 ∧
    result = some ⟨(AVLTree.stamped clock timestamp strategy checkTimestamps).counter⟩ ∧
    m'.view = m.view.put key hash
      ⟨value, AVLTree.stamped clock timestamp strategy checkTimestamps⟩) ∨
  (m.view.accepts hash timestamp strategy checkTimestamps = false ∧ clock' = clock ∧
    result = (if m.atRoot hash then none else some ⟨0⟩) ∧ m'.view = m.view)

section specs

variable {calculateHash : SimpleString → UInt32} {m : Map} (hwf : m.WellFormed)
  {key : SimpleString} (value : SimpleString) {timestamp : LamportClock}
  {strategy : UpdateClockStrategy} (clock : LamportClock) {checkTimestamps : Bool}
include hwf

theorem WellFormed.get (key : SimpleString) :
    m.get calculateHash key = some (m.view (calculateHash key)) :=
  (hwf.bucket _).lookup _

/-- A write returns, accepted or refused. -/
theorem putData_spec (timestamp : LamportClock) (strategy : UpdateClockStrategy)
    (checkTimestamps : Bool) :
    ∃ m' clock' result, m.putData calculateHash key value timestamp strategy clock checkTimestamps =
        some (m', clock', result) ∧ m'.WellFormed ∧ m'.numberBuckets = m.numberBuckets ∧
      m.Wrote (calculateHash key) key value timestamp strategy clock checkTimestamps m' clock'
        result := by
  obtain ⟨t, clock', result, hrun, ht, hcases⟩ :=
    AVLTree.addData_spec (hwf.bucket (calculateHash key)) key
    (calculateHash key) value timestamp strategy clock checkTimestamps
  have hother :
      ∀ h', h' ≠ calculateHash key → t.view h' = (m.getBucket (calculateHash key)).view h' := by
    intro h' hne
    rcases hcases with ⟨-, -, -, hview, -⟩ | ⟨-, -, -, hview, -⟩
    · rw [hview, View.put_ne _ _ hne]
    · rw [hview]
  obtain ⟨hwf', hview'⟩ := hwf.setBucket ht hother
  refine ⟨_, clock', result, by simp only [putData, hrun, bind_eq_bind, bind_some], hwf', rfl,
    ?_⟩
  rcases hcases with ⟨hacc, hclock, hresult, hview, -⟩ | ⟨hacc, hclock, hresult, hview, -⟩
  · refine .inl ⟨hacc, hclock, hresult, ?_⟩
    rw [hview', hview, View.put_self]
    rfl
  · refine .inr ⟨hacc, hclock, hresult, ?_⟩
    rw [hview', hview]
    exact update_eq_self _ _

/-- What a write that has returned has done, one way or the other. -/
theorem putData_cases {m' : Map} {clock' : LamportClock} {result : Option DbEditResult}
    {value : SimpleString} {clock : LamportClock}
    (hput : m.putData calculateHash key value timestamp strategy clock checkTimestamps =
      some (m', clock', result)) :
    m'.WellFormed ∧
      m.Wrote (calculateHash key) key value timestamp strategy clock checkTimestamps m' clock'
        result := by
  obtain ⟨m₁, clock₁, result₁, hput₁, hwf₁, -, hcases⟩ :=
    m.putData_spec hwf value clock timestamp strategy checkTimestamps
  cases hput₁.symm.trans hput
  exact ⟨hwf₁, hcases⟩

/-- A removal that is safe takes the entry away, or finds none that gives way to it. -/
theorem remove_cases
    (hsafe : m.removalSafe (calculateHash key) timestamp strategy checkTimestamps = true) :
    ∃ m' clock' result, m.remove calculateHash key timestamp strategy clock checkTimestamps =
        some (m', clock', result) ∧ m'.WellFormed ∧ m'.numberBuckets = m.numberBuckets ∧
      ((∃ entry, m.view (calculateHash key) = some entry ∧
          AVLTree.refuses entry.data timestamp strategy checkTimestamps = false ∧
          clock' = (clock.update strategy timestamp.counter).1 ∧
          result = some ⟨(clock.update strategy timestamp.counter).2⟩ ∧
          m'.view = m.view.erase (calculateHash key)) ∨
        ((∀ entry, m.view (calculateHash key) = some entry →
            AVLTree.refuses entry.data timestamp strategy checkTimestamps = true) ∧
          clock' = clock ∧ result = none ∧ m'.view = m.view)) := by
  by_cases hkept : ∀ entry, m.view (calculateHash key) = some entry →
      AVLTree.refuses entry.data timestamp strategy checkTimestamps = true
  · obtain ⟨t, hrun, ht, hview⟩ := AVLTree.removeData_kept (hwf.bucket (calculateHash key)) clock
      hsafe hkept
    obtain ⟨hwf', hview'⟩ := hwf.setBucket ht (fun h' _ => by rw [hview])
    refine ⟨_, _, _, by simp only [remove, hrun, bind_eq_bind, bind_some], hwf',
      rfl, .inr ⟨hkept, rfl, rfl, ?_⟩⟩
    rw [hview', hview]
    exact update_eq_self _ _
  · push Not at hkept
    obtain ⟨entry, hv, hne⟩ := hkept
    have hacc := Bool.eq_false_iff.mpr hne
    obtain ⟨t, hrun, ht, hview⟩ := AVLTree.removeData_removed (hwf.bucket (calculateHash key)) clock
      hsafe hv hacc
    obtain ⟨hwf', hview'⟩ := hwf.setBucket ht (fun h' hne => by rw [hview, View.erase_ne _ hne])
    refine ⟨_, _, _, by simp only [remove, hrun, bind_eq_bind, bind_some], hwf',
      rfl, .inl ⟨entry, hv, hacc, rfl, rfl, ?_⟩⟩
    rw [hview', hview, View.erase_self]
    rfl

end specs

end Map

end MemDb

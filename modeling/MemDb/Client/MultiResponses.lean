import MemDb.Client.ClusterConfig

/-! # Quorum reads of the Java client

    `MultiResponses` collects the responses of the nodes, and `awaitQuorum` waits until enough have
    come in. `awaitMin` of the latch returns `true` when the count is reached, and
    `getMultiResponseResult` takes it for a timeout: with a quorum there is no result, and only a
    thread that is interrupted gets one.

    The result orders responses by `LamportClock.compareTo`, which narrows a difference of 64 bits
    to 32.
-/

namespace MemDb.Client

open List Int

/-! ### The order of timestamps -/

namespace LamportClock

/-- `compareTo`: a difference of two `long` values, narrowed to an `int`. -/
def compareTo (self o : LamportClock) : Int :=
  if o.counter ≠ self.counter then ((self.counter - o.counter).bmod (2 ^ 64)).bmod (2 ^ 32)
  else self.nodeId - o.nodeId

/-- A timestamp of the server as a `long` and a `short`. -/
def ofServer (timestamp : MemDb.LamportClock) : LamportClock :=
  ⟨timestamp.counter.toInt64.toInt, timestamp.nodeId.toInt16.toInt⟩

theorem ofServer_eq {timestamp : MemDb.LamportClock} (hcounter : timestamp.counter.toNat < 2 ^ 63)
    (hnodeId : timestamp.nodeId.toNat < 2 ^ 15) :
    ofServer timestamp = ⟨timestamp.counter.toNat, timestamp.nodeId.toNat⟩ := by
  have hlong : timestamp.counter.toInt64.toInt = timestamp.counter.toNat :=
    BitVec.toInt_eq_toNat_of_lt (by omega : 2 * timestamp.counter.toNat < 2 ^ 64)
  have hshort : timestamp.nodeId.toInt16.toInt = timestamp.nodeId.toNat :=
    BitVec.toInt_eq_toNat_of_lt (by omega : 2 * timestamp.nodeId.toNat < 2 ^ 16)
  rw [ofServer, hlong, hshort]

/-- Client and server order the timestamps alike. -/
structure Agrees (a b : MemDb.LamportClock) : Prop where
  gt : 0 < (ofServer a).compareTo (ofServer b) ↔ a.gt b = true
  lt : (ofServer a).compareTo (ofServer b) < 0 ↔ a.lt b = true
  eq : (ofServer a).compareTo (ofServer b) = 0 ↔ a.eq b = true

/-- The low 32 bits of the difference must have its sign. -/
theorem agrees_iff {a b : MemDb.LamportClock} (ha : a.counter.toNat < 2 ^ 63)
    (hb : b.counter.toNat < 2 ^ 63) (hnodeA : a.nodeId.toNat < 2 ^ 15)
    (hnodeB : b.nodeId.toNat < 2 ^ 15) :
    Agrees a b ↔
      (b.counter.toNat < a.counter.toNat →
        0 < (a.counter.toNat - b.counter.toNat) % 2 ^ 32 ∧
          (a.counter.toNat - b.counter.toNat) % 2 ^ 32 < 2 ^ 31) ∧
      (a.counter.toNat < b.counter.toNat →
        0 < (b.counter.toNat - a.counter.toNat) % 2 ^ 32 ∧
          (b.counter.toNat - a.counter.toNat) % 2 ^ 32 ≤ 2 ^ 31) := by
  have hsigns : Agrees a b ↔
      (0 < (ofServer a).compareTo (ofServer b) ↔ b < a) ∧
        ((ofServer a).compareTo (ofServer b) < 0 ↔ a < b) ∧
        ((ofServer a).compareTo (ofServer b) = 0 ↔ a = b) := by
    rw [← MemDb.LamportClock.gt_iff_lt, ← MemDb.LamportClock.lt_iff_lt,
      ← MemDb.LamportClock.eq_iff_eq]
    exact ⟨fun h => ⟨h.gt, h.lt, h.eq⟩, fun h => ⟨h.1, h.2.1, h.2.2⟩⟩
  have heq : a = b ↔ a.counter.toNat = b.counter.toNat ∧ a.nodeId.toNat = b.nodeId.toNat :=
    ⟨fun h => by simp [h], fun h => MemDb.LamportClock.ext_toNat h.1 h.2⟩
  rw [hsigns, MemDb.LamportClock.lt_iff, MemDb.LamportClock.lt_iff, heq]
  rw [ofServer_eq ha hnodeA, ofServer_eq hb hnodeB, compareTo]
  simp only [ne_eq, natCast_inj]
  generalize a.counter.toNat = counterA at *
  generalize b.counter.toNat = counterB at *
  split
  · rw [bmod_def, bmod_def]
    split <;> split <;> omega
  · omega

theorem agrees_near :
    Agrees ⟨1, 5000000000⟩ ⟨2, 4000000000⟩ :=
  (agrees_iff (by decide) (by decide) (by decide) (by decide)).mpr (by decide)

/-- Two counters that lie `2 ^ 32` apart are equal for the client. -/
theorem not_agrees_far :
    (ofServer ⟨1, 4294967297⟩).compareTo (ofServer ⟨1, 1⟩) = 0 ∧
      (⟨1, 4294967297⟩ : MemDb.LamportClock).gt ⟨1, 1⟩ = true := by
  decide

/-- Counter and node id, in lexicographic order. -/
def key (timestamp : LamportClock) : Int ×ₗ Int := toLex (timestamp.counter, timestamp.nodeId)

/-- Of counters that lie less than `2 ^ 31` apart the difference keeps its sign. -/
theorem compareTo_nonneg_iff {self o : LamportClock} (hnear : |self.counter - o.counter| < 2 ^ 31) :
    0 ≤ self.compareTo o ↔ o.key ≤ self.key := by
  rw [abs_lt] at hnear
  rw [key, key, Prod.Lex.toLex_le_toLex, compareTo]
  split
  · rw [bmod_def, bmod_def]
    split <;> split <;> omega
  · omega

end LamportClock

/-! ### Waiting for responses -/

structure MultiResponses where
  responses : List Response
  /-- The count of the latch. -/
  count : Int
  maxNodes : Int

/-- How a `wait` ends: with the responses that were added meanwhile, or by an interrupt. -/
inductive Wait where
  | returned (added : List Response)
  | interrupted

namespace MultiResponses

def fromCluster (nNodes : Int) : MultiResponses := ⟨[], 0, nNodes⟩

/-- `MultipleResponseNotifier.addResponse`, with `notifyAll` as a plain signal. -/
def addResponse (self : MultiResponses) (response : Response) : MultiResponses :=
  { self with responses := self.responses ++ [response], count := self.count + 1 }

/-- The loop of `CountUpLatch.awaitMin` over its waits; `none` when it has not ended after them. -/
def awaitMin (value : Int) : List Wait → MultiResponses → Option (MultiResponses × Bool)
  | waits, self =>
    if self.count < value then
      match waits with
      | [] => none
      | .interrupted :: _ => some (self, false)
      | .returned added :: waits => awaitMin value waits (added.foldl addResponse self)
    else some (self, true)

def getMultiResponseResult (self : MultiResponses) (isTimeout : Bool) : Option (List Response) :=
  if !isTimeout then some self.responses else none

def awaitQuorum (self : MultiResponses) (waits : List Wait) : Option (Option (List Response)) :=
  (awaitMin (self.maxNodes.tdiv 2 + 1) waits self).map fun (self, isTimeout) =>
    self.getMultiResponseResult isTimeout

end MultiResponses

namespace MultiResponseResult

/-- One step of `Stream.max`: of two equal elements the first one stays. -/
def maxBy (a b : Response) : Response :=
  if 0 ≤ a.timestamp.compareTo b.timestamp then a else b

def max : List Response → Option Response
  | [] => none
  | first :: rest => some (rest.foldl maxBy first)

/-- `mostUptoDateResponse`; `Optional.get` throws where there is no response. -/
def mostUptoDateResponse (responses : List Response) : Option String :=
  (max responses).map fun response => usAsciiString response.response

end MultiResponseResult

/-! ### Quorum reads -/

namespace MultiResponses

theorem foldl_addResponse (added : List Response) (self : MultiResponses) :
    added.foldl addResponse self =
      ⟨self.responses ++ added, self.count + added.length, self.maxNodes⟩ := by
  induction added generalizing self with
  | nil => simp
  | cons response added ih =>
    rw [foldl_cons, ih, addResponse, length_cons]
    simp only [append_assoc, singleton_append, Nat.cast_add, Nat.cast_one]
    congr 1
    omega

theorem awaitMin_reached {value : Int} {waits : List Wait} {self : MultiResponses}
    (h : value ≤ self.count) : awaitMin value waits self = some (self, true) := by
  unfold awaitMin
  rw [if_neg (not_lt.mpr h)]

/-- Without an interrupt the latch ends only when it is reached. -/
theorem awaitMin_uninterrupted {value : Int} {waits : List Wait} {self self' : MultiResponses}
    {reached : Bool} (hwaits : Wait.interrupted ∉ waits)
    (h : awaitMin value waits self = some (self', reached)) :
    reached = true ∧ value ≤ self'.count := by
  induction waits generalizing self with
  | nil =>
    unfold awaitMin at h
    split at h
    · cases h
    · cases h
      exact ⟨rfl, by omega⟩
  | cons wait waits ih =>
    unfold awaitMin at h
    split at h
    · cases wait with
      | returned added => exact ih (fun hmem => hwaits (mem_cons_of_mem _ hmem)) h
      | interrupted => exact absurd mem_cons_self hwaits
    · cases h
      exact ⟨rfl, by omega⟩

end MultiResponses

/-- The fold of `max` ends with the newest response, where all lie less than `2 ^ 31` apart. -/
theorem MultiResponseResult.foldl_maxBy {responses rest : List Response} {first : Response}
    (hnear : ∀ a ∈ responses, ∀ b ∈ responses, |a.timestamp.counter - b.timestamp.counter| < 2 ^ 31)
    (hfirst : first ∈ responses) (hrest : rest ⊆ responses) :
    rest.foldl maxBy first ∈ responses ∧
      ∀ other ∈ first :: rest, other.timestamp.key ≤ (rest.foldl maxBy first).timestamp.key := by
  induction rest generalizing first with
  | nil => exact ⟨hfirst, by simp⟩
  | cons second rest ih =>
    obtain ⟨hsecond, hrest⟩ := cons_subset.mp hrest
    have hcompare := LamportClock.compareTo_nonneg_iff (hnear first hfirst second hsecond)
    obtain ⟨hmem, hleft, hright⟩ : maxBy first second ∈ responses ∧
        first.timestamp.key ≤ (maxBy first second).timestamp.key ∧
        second.timestamp.key ≤ (maxBy first second).timestamp.key := by
      unfold maxBy
      split
      · next hle => exact ⟨hfirst, le_rfl, hcompare.mp hle⟩
      · next hlt => exact ⟨hsecond, (not_le.mp (mt hcompare.mpr hlt)).le, le_rfl⟩
    obtain ⟨hnewest, hle⟩ := ih hmem hrest
    simp only [forall_mem_cons] at hle ⊢
    exact ⟨hnewest, hleft.trans hle.1, hright.trans hle.1, hle.2⟩

/-- A quorum of responses gives no result, and neither do fewer of them, as long as the thread is
    not interrupted. What a result would answer is the value of the newest response. -/
theorem MultiResponses.awaitQuorum_never (nNodes : Nat) (responses : List Response)
    (waits : List Wait) :
    (nNodes / 2 + 1 ≤ responses.length →
        awaitQuorum (responses.foldl addResponse (fromCluster nNodes)) waits = some none) ∧
      (Wait.interrupted ∉ waits → ∀ result,
        awaitQuorum (responses.foldl addResponse (fromCluster nNodes)) waits ≠ some (some result)) ∧
      (responses ≠ [] →
        (∀ a ∈ responses, ∀ b ∈ responses,
          |a.timestamp.counter - b.timestamp.counter| < 2 ^ 31) →
        ∃ newest ∈ responses,
          MultiResponseResult.mostUptoDateResponse responses =
            some (usAsciiString newest.response) ∧
            ∀ other ∈ responses, other.timestamp.key ≤ newest.timestamp.key) := by
  refine ⟨?_, ?_, ?_⟩
  · intro hquorum
    have hreached : (nNodes : Int).tdiv 2 + 1 ≤ 0 + responses.length := by
      rw [tdiv_eq_ediv_of_nonneg (by omega)]
      omega
    rw [foldl_addResponse, awaitQuorum, awaitMin_reached hreached]
    rfl
  · intro hwaits result h
    obtain ⟨⟨self, reached⟩, hawait, hresult⟩ := Option.map_eq_some_iff.mp h
    rw [(awaitMin_uninterrupted hwaits hawait).1] at hresult
    cases hresult
  · intro hne hnear
    cases responses with
    | nil => exact absurd rfl hne
    | cons first rest =>
      obtain ⟨hmem, hle⟩ := MultiResponseResult.foldl_maxBy hnear mem_cons_self
        (subset_cons_self first rest)
      exact ⟨_, hmem, rfl, hle⟩

/-- The responses of two nodes of three: the newer one would be returned. -/
def twoResponses : List Response :=
  [⟨1, ⟨5, 1⟩, 0, true, [97]⟩, ⟨1, ⟨5, 2⟩, 0, true, [98]⟩]

theorem MultiResponses.awaitQuorum_never_two :
    awaitQuorum (twoResponses.foldl addResponse (fromCluster 3)) [] = some none ∧
      ∃ newest ∈ twoResponses,
        MultiResponseResult.mostUptoDateResponse twoResponses =
          some (usAsciiString newest.response) := by
  obtain ⟨hquorum, -, hnewest⟩ := awaitQuorum_never 3 twoResponses []
  obtain ⟨newest, hmem, hvalue, -⟩ := hnewest (by decide) (by decide)
  exact ⟨hquorum (by decide), newest, hmem, hvalue⟩

/-- With the responses of all three nodes there is no result; before the first one an interrupted
    thread gets an empty one. -/
theorem MultiResponses.awaitQuorum_inverted :
    awaitQuorum ((⟨1, ⟨4, 3⟩, 0, true, [99]⟩ :: twoResponses).foldl addResponse (fromCluster 3))
        [] = some none ∧
      awaitQuorum (fromCluster 3) [.interrupted] = some (some []) := by
  decide

end MemDb.Client

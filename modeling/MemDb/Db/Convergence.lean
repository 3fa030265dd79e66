import MemDb.Db.Map
import MemDb.Lib.Register
import Mathlib.Data.Finset.Max

/-! # Convergence of replicated writes

  Writes and deletions that come from nodes are applied with their timestamps checked and
  the clock raised to them (`SET_MAX`). Under its hash, a store is then a last-writer-wins
  register without tombstones, and what every order of application agrees on
  follows from the register's rules.
-/

namespace MemDb

open Lib List Option

/-- A node-originated operation on some key. -/
inductive KeyOperation where
  | SET (value : SimpleString) (timestamp : LamportClock)
  | DEL (timestamp : LamportClock)
deriving DecidableEq, Repr

namespace KeyOperation

/-- The timestamp of an operation. -/
def timestamp : KeyOperation → LamportClock
  | .SET _ ts => ts
  | .DEL ts => ts

/-- The operation on the register of the key. -/
def toRegister : KeyOperation → Register.Op LamportClock SimpleString
  | .SET v ts => .set ts v
  | .DEL ts => .del ts

/-- `putData` or `remove` as the operators call them for a request from a node. -/
def apply (calculateHash : SimpleString → UInt32) (key : SimpleString) (op : KeyOperation)
    (m : Map) (clock : LamportClock) : Option (Map × LamportClock) :=
  match op with
  | .SET value ts =>
    (m.putData calculateHash key value ts .SET_MAX clock true).map fun r => (r.1, r.2.1)
  | .DEL ts => (m.remove calculateHash key ts .SET_MAX clock true).map fun r => (r.1, r.2.1)

/-- Apply operations in the order of the list, each to its key. -/
def applyAll (calculateHash : SimpleString → UInt32) (ops : List (SimpleString × KeyOperation))
    (m : Map) (clock : LamportClock) : Option (Map × LamportClock) :=
  match ops with
  | [] => some (m, clock)
  | (key, op) :: ops => do
    let (m, clock) ← op.apply calculateHash key m clock
    applyAll calculateHash ops m clock

end KeyOperation

namespace Map

/-- The register under a hash: the timestamp and value of a data entry. -/
def register (m : Map) (h : UInt32) : Option (LamportClock × SimpleString) :=
  (m.view h).bind fun e =>
    match e.data with
    | .data d => some (d.timestamp, d.value)
    | .counter _ => none

/-- No entry is a counter. -/
def DataOnly (m : Map) : Prop := ∀ h e, m.view h = some e → ∃ d, e.data = .data d

theorem dataOnly_new (n : UInt32) (hn : 0 < (roundUpPowerOfTwo n).toNat) :
    (new n hn).DataOnly := by
  intro h e he
  rw [view_new] at he
  cases he

theorem register_new (n : UInt32) (hn : 0 < (roundUpPowerOfTwo n).toNat) (h : UInt32) :
    (new n hn).register h = none := by
  simp [register, view_new]

theorem register_of_view {m : Map} {h : UInt32} {e : MapEntry} {d : DataAVLNode}
    (he : m.view h = some e) (hd : e.data = .data d) :
    m.register h = some (d.timestamp, d.value) := by
  simp [register, he, hd]

/-- The value a client reads under a key. -/
def readValue (calculateHash : SimpleString → UInt32) (m : Map) (key : SimpleString) :
    Option (Option SimpleString) :=
  (m.get calculateHash key).map fun o => o.bind fun e =>
    match e.data with
    | .data d => some d.value
    | .counter _ => none

theorem WellFormed.readValue {m : Map} (hwf : m.WellFormed)
    (calculateHash : SimpleString → UInt32) (key : SimpleString) :
    m.readValue calculateHash key = some ((m.register (calculateHash key)).map (·.2)) := by
  rw [Map.readValue, hwf.get, map_some, register]
  cases m.view (calculateHash key) with
  | none => rfl
  | some e => cases hd : e.data <;> simp [hd]

end Map

/-! ### Operations on a hash -/

namespace KeyOperation

variable {calculateHash : SimpleString → UInt32}

/-- The operations on the keys with a given hash, in order. -/
def onHash (calculateHash : SimpleString → UInt32) (h : UInt32)
    (ops : List (SimpleString × KeyOperation)) : List (Register.Op LamportClock SimpleString) :=
  ops.filterMap fun o => if calculateHash o.1 = h then some o.2.toRegister else none

theorem onHash_cons_self (key : SimpleString) (op : KeyOperation)
    (ops : List (SimpleString × KeyOperation)) :
    onHash calculateHash (calculateHash key) ((key, op) :: ops)
      = op.toRegister :: onHash calculateHash (calculateHash key) ops := by
  simp [onHash]

theorem onHash_cons_ne {key : SimpleString} {h : UInt32} (hne : h ≠ calculateHash key)
    (op : KeyOperation) (ops : List (SimpleString × KeyOperation)) :
    onHash calculateHash h ((key, op) :: ops) = onHash calculateHash h ops := by
  simp [onHash, Ne.symm hne]

theorem mem_onHash {h : UInt32} {ops : List (SimpleString × KeyOperation)}
    {r : Register.Op LamportClock SimpleString} :
    r ∈ onHash calculateHash h ops ↔
      ∃ o ∈ ops, calculateHash o.1 = h ∧ o.2.toRegister = r := by
  simp only [onHash, mem_filterMap]
  constructor
  · rintro ⟨o, ho, hr⟩
    split at hr
    · next hh => exact ⟨o, ho, hh, some.inj hr⟩
    · cases hr
  · rintro ⟨o, ho, hh, hr⟩
    exact ⟨o, ho, by rw [if_pos hh, hr]⟩

end KeyOperation

/-! ### Edits of a store -/

/-- What an edit leaves behind: an operation that succeeds has run the registers, one that does not
    has left them alone, and the clock covers what is new. -/
structure Map.Records (calculateHash : SimpleString → UInt32) (edit : SimpleString × KeyOperation)
    (succeeds : Bool) (m m' : Map) (clock clock' : LamportClock) : Prop where
  wellFormed : m'.WellFormed
  dataOnly : m'.DataOnly
  numberBuckets : m'.numberBuckets = m.numberBuckets
  register : ∀ h, m'.register h = Register.run (m.register h)
    (if succeeds then KeyOperation.onHash calculateHash h [edit] else [])
  forward : clock.counter.toNat ≤ clock'.counter.toNat
  covered : ∀ h p, m'.register h = some p →
    m.register h = some p ∨ p.1.counter.toNat ≤ clock'.counter.toNat

/-- A store without counters has none after a write. -/
theorem Map.DataOnly.put {m m' : Map} (hdata : m.DataOnly) {key : SimpleString} {h : UInt32}
    {d : DataAVLNode} (hview : m'.view = m.view.put key h d) : m'.DataOnly := by
  intro h' entry hentry
  rw [hview] at hentry
  by_cases hh : h' = h
  · subst hh
    rw [View.put_self] at hentry
    cases hentry
    exact ⟨d, View.written_data _ _ _ _⟩
  · rw [View.put_ne _ _ hh] at hentry
    exact hdata h' entry hentry

section edits
variable {calculateHash : SimpleString → UInt32} {m : Map} (hwf : m.WellFormed) (hdata : m.DataOnly)
  {key value : SimpleString} {timestamp stamp clock : LamportClock} {strategy : UpdateClockStrategy}
  {checkTimestamps : Bool}

/-- A stored version refuses the edit exactly when it is newer than the stamp. -/
def Map.RefusesNewer (calculateHash : SimpleString → UInt32) (m : Map) (key : SimpleString)
    (timestamp stamp : LamportClock) (strategy : UpdateClockStrategy) (checkTimestamps : Bool) :
    Prop :=
  ∀ d : DataAVLNode, m.register (calculateHash key) = some (d.timestamp, d.value) →
    AVLTree.refuses (.data d) timestamp strategy checkTimestamps = decide (stamp < d.timestamp)

/-- So it does where the timestamps of nodes are compared. -/
theorem Map.refusesNewer_node (m : Map) (key : SimpleString) (stamp : LamportClock) :
    m.RefusesNewer calculateHash key stamp stamp .SET_MAX true := by
  intro d _
  have hgt : d.timestamp.gt stamp = decide (stamp < d.timestamp) := by
    rw [Bool.eq_iff_iff, LamportClock.gt_iff_lt, decide_eq_true_iff]
  simp [AVLTree.refuses, hgt]

/-- The operation acts on the register of its hash, if it is one to refuse where it has failed. -/
theorem Map.Records.register_self {op : KeyOperation} {succeeds : Bool} {m' : Map}
    {clock' : LamportClock} (h : Map.Records calculateHash (key, op) succeeds m m' clock clock')
    (hrefused : succeeds = false → Register.apply (m.register (calculateHash key)) op.toRegister =
      m.register (calculateHash key)) : m'.register (calculateHash key) =
        Register.apply (m.register (calculateHash key)) op.toRegister := by
  rw [h.register]
  cases succeeds with
  | false => exact (hrefused rfl).symm
  | true =>
    rw [if_pos rfl, KeyOperation.onHash_cons_self]
    rfl

/-- An edit that leaves the view as it is has the effect of an operation that is refused. -/
theorem Map.Records.of_view {edit : SimpleString × KeyOperation} {succeeds : Bool} {m' : Map}
    (hdata : m.DataOnly) (hwf' : m'.WellFormed) (hbuckets : m'.numberBuckets = m.numberBuckets)
    (hview : m'.view = m.view)
    (hrefused : succeeds = true → Register.apply (m.register (calculateHash edit.1))
      edit.2.toRegister = m.register (calculateHash edit.1)) :
    Map.Records calculateHash edit succeeds m m' clock clock := by
  have hregister : ∀ h, m'.register h = m.register h := by
    intro h
    rw [Map.register, Map.register, hview]
  constructor
  · exact hwf'
  · unfold Map.DataOnly
    rw [hview]
    exact hdata
  · exact hbuckets
  · intro h
    rw [hregister]
    split
    · next hsucceeds =>
      by_cases hh : h = calculateHash edit.1
      · subst hh
        obtain ⟨key, op⟩ := edit
        rw [KeyOperation.onHash_cons_self]
        exact (hrefused hsucceeds).symm
      · obtain ⟨key, op⟩ := edit
        rw [KeyOperation.onHash_cons_ne hh]
        rfl
    · rfl
  · exact le_rfl
  · intro h p hp
    rw [hregister] at hp
    exact Or.inl hp

/-- An edit of the view at one hash has the effect of the operation. -/
theorem Map.Records.of_edit {edit : SimpleString × KeyOperation} {m' : Map} {clock' : LamportClock}
    (hwf' : m'.WellFormed) (hdata' : m'.DataOnly) (hbuckets : m'.numberBuckets = m.numberBuckets)
    (hself : m'.register (calculateHash edit.1) =
      Register.apply (m.register (calculateHash edit.1)) edit.2.toRegister)
    (hother : ∀ h, h ≠ calculateHash edit.1 → m'.view h = m.view h)
    (hforward : clock.counter.toNat ≤ clock'.counter.toNat)
    (hcovered : ∀ p, m'.register (calculateHash edit.1) = some p →
      p.1.counter.toNat ≤ clock'.counter.toNat) :
    Map.Records calculateHash edit true m m' clock clock' := by
  obtain ⟨key, op⟩ := edit
  have hregister : ∀ h, h ≠ calculateHash key → m'.register h = m.register h := by
    intro h hh
    rw [Map.register, Map.register, hother h hh]
  constructor
  · exact hwf'
  · exact hdata'
  · exact hbuckets
  · intro h
    by_cases hh : h = calculateHash key
    · subst hh
      rw [if_pos rfl, KeyOperation.onHash_cons_self]
      exact hself
    · rw [if_pos rfl, KeyOperation.onHash_cons_ne hh, hregister h hh]
      rfl
  · exact hforward
  · intro h p hp
    by_cases hh : h = calculateHash key
    · subst hh
      exact Or.inr (hcovered p hp)
    · rw [hregister h hh] at hp
      exact Or.inl hp

include hdata

/-- The version that is stored under the hash of an entry. -/
theorem Map.DataOnly.register_eq {h : UInt32} {entry : MapEntry} (hentry : m.view h = some entry) :
    ∃ d, entry.data = .data d ∧ m.register h = some (d.timestamp, d.value) := by
  obtain ⟨d, hd⟩ := hdata h entry hentry
  exact ⟨d, hd, Map.register_of_view hentry hd⟩

theorem Map.RefusesNewer.accepts_iff
    (hrefuses : m.RefusesNewer calculateHash key timestamp stamp strategy checkTimestamps) :
    m.view.accepts (calculateHash key) timestamp strategy checkTimestamps = true ↔
      ∀ p ∈ m.register (calculateHash key), p.1 ≤ stamp := by
  unfold View.accepts
  cases hentry : m.view (calculateHash key) with
  | none => simp [Map.register, hentry]
  | some entry =>
    obtain ⟨d, hd, hregister⟩ := hdata.register_eq hentry
    simp [hd, hrefuses d hregister, hregister]

include hwf

/-- A write acts on the register of its hash. It is refused when a newer version is stored. -/
theorem Map.putData_records (value : SimpleString)
    (hstamp : AVLTree.stamped clock timestamp strategy checkTimestamps = stamp)
    (hrefuses : m.RefusesNewer calculateHash key timestamp stamp strategy checkTimestamps)
    (hforward : clock.counter.toNat ≤ (clock.update strategy timestamp.counter).1.counter.toNat)
    (hcovered : stamp.counter.toNat ≤ (clock.update strategy timestamp.counter).1.counter.toNat) :
    ∃ m' clock' result, m.putData calculateHash key value timestamp strategy clock checkTimestamps =
        some (m', clock', result) ∧
      Map.Records calculateHash (key, .SET value stamp) result.isSome m m' clock clock' ∧
      (∀ h, h ≠ calculateHash key → m'.view h = m.view h) ∧
      (result = some ⟨stamp.counter⟩ ∨ ∃ p, m.register (calculateHash key) = some p ∧
        stamp < p.1) := by
  obtain ⟨m', clock', result, hput, hwf', hbuckets, hcases⟩ :=
    m.putData_spec hwf value clock timestamp strategy checkTimestamps
  refine ⟨m', clock', result, hput, ?_⟩
  rcases hcases with ⟨haccepts, rfl, rfl, hview⟩ | ⟨haccepts, rfl, rfl, hview⟩
  · rw [hstamp] at hview
    have hself : m'.register (calculateHash key) = some (stamp, value) := by
      have hentry := congrFun hview (calculateHash key)
      rw [View.put_self] at hentry
      exact Map.register_of_view hentry (View.written_data _ _ _ _)
    have hother : ∀ h, h ≠ calculateHash key → m'.view h = m.view h := by
      intro h hh
      rw [hview, View.put_ne _ _ hh]
    refine ⟨.of_edit hwf' (hdata.put hview) hbuckets ?_ hother hforward ?_, hother,
      Or.inl (by rw [hstamp])⟩
    · rw [hself]
      exact (Register.apply_set_of_le ((hrefuses.accepts_iff hdata).mp haccepts) value).symm
    · intro p hp
      cases hself.symm.trans hp
      exact hcovered
  · -- what is stored is newer
    have hnewer : ∃ p, m.register (calculateHash key) = some p ∧ stamp < p.1 := by
      by_contra hnone
      have haccepted := (hrefuses.accepts_iff hdata).mpr fun p hp =>
        not_lt.mp fun hlt => hnone ⟨p, hp, hlt⟩
      rw [haccepts] at haccepted
      cases haccepted
    refine ⟨.of_view hdata hwf' hbuckets hview fun _ => ?_, fun h _ => congrFun hview h,
      Or.inr hnewer⟩
    obtain ⟨p, hp, hlt⟩ := hnewer
    rw [hp]
    exact Register.apply_of_lt hlt

/-- A removal from a bucket of its own acts on the register of its hash. It fails when nothing is
    stored, or a newer version. -/
theorem Map.remove_records
    (hsafe : m.removalSafe (calculateHash key) timestamp strategy checkTimestamps = true)
    (hrefuses : m.RefusesNewer calculateHash key timestamp stamp strategy checkTimestamps)
    (hforward : clock.counter.toNat ≤ (clock.update strategy timestamp.counter).1.counter.toNat) :
    ∃ m' clock' result, m.remove calculateHash key timestamp strategy clock checkTimestamps =
        some (m', clock', result) ∧
      Map.Records calculateHash (key, .DEL stamp) result.isSome m m' clock clock' ∧
      (∀ h, h ≠ calculateHash key → m'.view h = m.view h) ∧
      (result = some ⟨(clock.update strategy timestamp.counter).2⟩ ∨
        result = none ∧ ∀ p ∈ m.register (calculateHash key), stamp < p.1) := by
  obtain ⟨m', clock', result, hremove, hwf', hbuckets, hcases⟩ := m.remove_cases hwf clock hsafe
  refine ⟨m', clock', result, hremove, ?_⟩
  rcases hcases with ⟨entry, hentry, hnot, rfl, rfl, hview⟩ | ⟨hkept, rfl, rfl, hview⟩
  · -- removed: the stored timestamp was not greater than the stamp
    obtain ⟨d, hd, hregister⟩ := hdata.register_eq hentry
    have hself : m'.register (calculateHash key) = none := by
      rw [Map.register, hview, View.erase_self]
      rfl
    have hother : ∀ h, h ≠ calculateHash key → m'.view h = m.view h := by
      intro h hh
      rw [hview, View.erase_ne _ hh]
    have hle : d.timestamp ≤ stamp := by
      rw [hd, hrefuses d hregister] at hnot
      exact not_lt.mp (of_decide_eq_false hnot)
    refine ⟨.of_edit hwf' ?_ hbuckets ?_ hother hforward ?_, hother, Or.inl rfl⟩
    · intro h entry' hentry'
      by_cases hh : h = calculateHash key
      · rw [hview, hh, View.erase_self] at hentry'
        cases hentry'
      · rw [hother h hh] at hentry'
        exact hdata h entry' hentry'
    · rw [hself, hregister]
      apply (Register.apply_del_of_le _).symm
      intro p hp
      cases hp
      exact hle
    · intro p hp
      rw [hself] at hp
      cases hp
  · refine ⟨.of_view hdata hwf' hbuckets hview (fun hfalse => absurd hfalse (by simp)),
      fun h _ => congrFun hview h, Or.inr ⟨rfl, ?_⟩⟩
    intro p hp
    cases hentry : m.view (calculateHash key) with
    | none => simp [Map.register, hentry] at hp
    | some entry =>
      obtain ⟨d, hd, hregister⟩ := hdata.register_eq hentry
      have hnewer := hkept entry hentry
      rw [hd, hrefuses d hregister, decide_eq_true_eq] at hnewer
      cases hregister.symm.trans hp
      exact hnewer

end edits

/-! ### Runs -/

namespace KeyOperation

/-- One operation acts on the register of its hash and nowhere else, if no other hash
    shares the bucket of a deletion. -/
theorem apply_spec (calculateHash : SimpleString → UInt32) {m : Map} (hwf : m.WellFormed)
    (hdo : m.DataOnly) (key : SimpleString) (op : KeyOperation) (clock : LamportClock)
    (hdel : ∀ ts, op = .DEL ts → ∀ h, m.view h ≠ none →
      m.bucketIndex h = m.bucketIndex (calculateHash key) → h = calculateHash key) :
    ∃ m' clock', op.apply calculateHash key m clock = some (m', clock') ∧
      m'.WellFormed ∧ m'.DataOnly ∧ m'.numberBuckets = m.numberBuckets ∧
      m'.register (calculateHash key)
        = Register.apply (m.register (calculateHash key)) op.toRegister ∧
      ∀ h', h' ≠ calculateHash key → m'.view h' = m.view h' := by
  have hforward : ∀ ts, clock.counter.toNat ≤ (clock.update .SET_MAX ts).1.counter.toNat := by
    intro ts
    rw [LamportClock.toNat_update_SET_MAX]
    exact le_max_right ..
  -- a refused write leaves the map alone, and the register refuses it for the same reason
  cases op with
  | SET value ts =>
    have hcovered : ts.counter.toNat ≤ (clock.update .SET_MAX ts.counter).1.counter.toNat := by
      rw [LamportClock.toNat_update_SET_MAX]
      exact le_max_left ..
    obtain ⟨m', clock', r, hrun, hrecords, hother, hresult⟩ := Map.putData_records hwf hdo value rfl
      (m.refusesNewer_node key ts) (hforward ts.counter) hcovered
    refine ⟨m', clock', by simp [apply, hrun], hrecords.wellFormed, hrecords.dataOnly,
      hrecords.numberBuckets, hrecords.register_self ?_, hother⟩
    intro hfailed
    rcases hresult with rfl | ⟨p, hp, hlt⟩
    · cases hfailed
    · rw [hp]
      exact Register.apply_of_lt hlt
  | DEL ts =>
    have hsafe := hwf.removalSafe_of_alone (hdel ts rfl) ts .SET_MAX true
    obtain ⟨m', clock', r, hrun, hrecords, hother, hresult⟩ := Map.remove_records hwf hdo hsafe
      (m.refusesNewer_node key ts) (hforward ts.counter)
    refine ⟨m', clock', by simp [apply, hrun], hrecords.wellFormed, hrecords.dataOnly,
      hrecords.numberBuckets, hrecords.register_self ?_, hother⟩
    intro hfailed
    rcases hresult with rfl | ⟨-, hnewer⟩
    · cases hfailed
    · cases hregister : m.register (calculateHash key) with
      | none => rfl
      | some p => exact Register.apply_of_lt (hnewer p hregister)

/-- The buckets of deleted keys hold no other hash, neither at the start nor during the run. -/
def DeletedAlone (calculateHash : SimpleString → UInt32) (m : Map)
    (ops : List (SimpleString × KeyOperation)) : Prop :=
  ∀ key ts, (key, .DEL ts) ∈ ops → ∀ h, (m.view h ≠ none ∨ ∃ o ∈ ops, calculateHash o.1 = h) →
    m.bucketIndex h = m.bucketIndex (calculateHash key) → h = calculateHash key

/-- A run of operations returns, and runs the register of every hash on the operations with
    that hash. -/
theorem applyAll_spec (calculateHash : SimpleString → UInt32)
    (ops : List (SimpleString × KeyOperation)) {m : Map} (hwf : m.WellFormed) (hdo : m.DataOnly)
    (clock : LamportClock) (hdel : DeletedAlone calculateHash m ops) :
    ∃ m' clock', applyAll calculateHash ops m clock = some (m', clock') ∧
      m'.WellFormed ∧ m'.DataOnly ∧
      ∀ h, m'.register h = Register.run (m.register h) (onHash calculateHash h ops) := by
  -- each step acts on the register of its hash only; a `DEL` is alone in its bucket all along,
  -- since buckets hold hashes of the list and of the start
  induction ops generalizing m clock with
  | nil => exact ⟨m, clock, rfl, hwf, hdo, fun h => rfl⟩
  | cons o ops ih =>
    obtain ⟨key, op⟩ := o
    obtain ⟨m1, clock1, hrun, hwf1, hdo1, hnb, hself, hother⟩ :=
      apply_spec calculateHash hwf hdo key op clock (by
        rintro ts rfl h hv hindex
        exact hdel key ts mem_cons_self h (Or.inl hv) hindex)
    have hindex1 : ∀ h, m1.bucketIndex h = m.bucketIndex h := by
      intro h
      rw [Map.bucketIndex, Map.bucketIndex, hnb]
    obtain ⟨m', clock', hruns, hwf', hdo', hreg⟩ := ih hwf1 hdo1 clock1 (by
      intro key' ts hmem h hh hindex
      rw [hindex1, hindex1] at hindex
      refine hdel key' ts (mem_cons_of_mem _ hmem) h ?_ hindex
      rcases hh with hv | ⟨o, ho, hoh⟩
      · by_cases heq : h = calculateHash key
        · exact Or.inr ⟨(key, op), mem_cons_self, heq.symm⟩
        · exact Or.inl (by rwa [hother h heq] at hv)
      · exact Or.inr ⟨o, mem_cons_of_mem _ ho, hoh⟩)
    refine ⟨m', clock', by simp [applyAll, hrun, hruns], hwf', hdo', fun h => ?_⟩
    rw [hreg]
    by_cases heq : h = calculateHash key
    · subst heq
      rw [onHash_cons_self, Register.run_cons, hself]
    · rw [onHash_cons_ne heq, Map.register, hother h heq]
      rfl

end KeyOperation

/-! ### Writes converge -/

/-- A write from a node. -/
structure SetOperation where
  key : SimpleString
  value : SimpleString
  timestamp : LamportClock
deriving DecidableEq, Repr

/-- The write as an operation on its key. -/
def SetOperation.toKeyOperation (o : SetOperation) : SimpleString × KeyOperation :=
  (o.key, .SET o.value o.timestamp)

section sets

variable (calculateHash : SimpleString → UInt32) {numberBuckets : UInt32}
  (hn : 0 < (roundUpPowerOfTwo numberBuckets).toNat)

/-- Any order, with any duplication, of a multiset of writes from nodes leaves every key with
    the value and timestamp of its greatest write. -/
theorem sets_converge (S : Multiset SetOperation)
    (hhash : ∀ o ∈ S, ∀ o' ∈ S, calculateHash o.key = calculateHash o'.key → o.key = o'.key)
    (hvalue : ∀ o ∈ S, ∀ o' ∈ S, o.key = o'.key → o.timestamp = o'.timestamp →
      o.value = o'.value)
    (ops : List SetOperation) (hops : ∀ o, o ∈ ops ↔ o ∈ S) (clock : LamportClock) :
    ∃ m clock', KeyOperation.applyAll calculateHash (ops.map SetOperation.toKeyOperation)
        (Map.new numberBuckets hn) clock = some (m, clock') ∧
      ∀ o ∈ S, (∀ o' ∈ S, o'.key = o.key → o'.timestamp.gt o.timestamp = false) →
        ∃ e, m.get calculateHash o.key = some (some e) ∧
          e.data = .data ⟨o.value, o.timestamp⟩ := by
  obtain ⟨m, clock', hrun, hwf, hdo, hreg⟩ := KeyOperation.applyAll_spec calculateHash
    (ops.map SetOperation.toKeyOperation) (Map.wellFormed_new numberBuckets hn)
    (Map.dataOnly_new numberBuckets hn) clock (by
      intro key ts hmem
      obtain ⟨o, -, ho⟩ := mem_map.mp hmem
      simp [SetOperation.toKeyOperation] at ho)
  refine ⟨m, clock', hrun, fun o ho hmax => ?_⟩
  -- the register of the key has run on the writes of the key, and `o` beats them all
  have hfinal : m.register (calculateHash o.key) = some (o.timestamp, o.value) := by
    rw [hreg, Map.register_new]
    refine Register.run_of_greatest_set (by simp [Register.Below]) ?_ ?_
    · exact KeyOperation.mem_onHash.mpr
        ⟨o.toKeyOperation, mem_map_of_mem ((hops o).mpr ho), rfl, rfl⟩
    · intro r hr
      obtain ⟨k, hk, hh, rfl⟩ := KeyOperation.mem_onHash.mp hr
      obtain ⟨o', ho', rfl⟩ := mem_map.mp hk
      have ho'S := (hops o').mp ho'
      have hkey : o'.key = o.key := hhash o' ho'S o ho hh
      have hle := LamportClock.gt_eq_false_iff_le.mp (hmax o' ho'S hkey)
      rcases lt_or_eq_of_le hle with hlt | heq
      · exact Or.inl hlt
      · exact Or.inr ⟨heq, hvalue o' ho'S o ho hkey heq⟩
  cases hv : m.view (calculateHash o.key) with
  | none => simp [Map.register, hv] at hfinal
  | some e =>
    obtain ⟨d, hd⟩ := hdo _ e hv
    refine ⟨e, by rw [hwf.get, hv], ?_⟩
    simp only [Map.register, hv, hd, bind_some, some.injEq, Prod.mk.injEq]
      at hfinal
    rw [hd, ← hfinal.1, ← hfinal.2]

end sets

/-- A write that arrives again after an older one. -/
theorem sets_converge_older_between : ∃ m clock',
    KeyOperation.applyAll shortKeyHash
        ([⟨[1], [8], ⟨1, 2⟩⟩, ⟨[1], [7], ⟨1, 1⟩⟩, ⟨[1], [8], ⟨1, 2⟩⟩].map
          SetOperation.toKeyOperation) (Map.new 64 (by decide)) ⟨1, 0⟩ = some (m, clock') ∧
      ∃ e, m.get shortKeyHash [1] = some (some e) ∧ e.data = .data ⟨[8], ⟨1, 2⟩⟩ := by
  have hcases : ∀ o ∈ ({⟨[1], [8], ⟨1, 2⟩⟩, ⟨[1], [7], ⟨1, 1⟩⟩} : Multiset SetOperation),
      o = ⟨[1], [8], ⟨1, 2⟩⟩ ∨ o = ⟨[1], [7], ⟨1, 1⟩⟩ := by
    intro o ho
    simpa using ho
  obtain ⟨m, clock', hrun, hall⟩ := sets_converge shortKeyHash
    (show 0 < (roundUpPowerOfTwo 64).toNat by decide)
    {⟨[1], [8], ⟨1, 2⟩⟩, ⟨[1], [7], ⟨1, 1⟩⟩}
    (by
      intro o ho o' ho' _
      rcases hcases o ho with rfl | rfl <;> rcases hcases o' ho' with rfl | rfl <;> rfl)
    (by
      intro o ho o' ho' _ hts
      rcases hcases o ho with rfl | rfl <;> rcases hcases o' ho' with rfl | rfl
      · rfl
      · simp at hts
      · simp at hts
      · rfl)
    [⟨[1], [8], ⟨1, 2⟩⟩, ⟨[1], [7], ⟨1, 1⟩⟩, ⟨[1], [8], ⟨1, 2⟩⟩]
    (by intro o; simp; tauto) ⟨1, 0⟩
  refine ⟨m, clock', hrun, hall ⟨[1], [8], ⟨1, 2⟩⟩ (by simp) ?_⟩
  intro o' ho' _
  rcases hcases o' ho' with rfl | rfl <;> decide

/-! ### Deletions -/

namespace KeyOperation

/-- Where the greatest operation of the list is a deletion, only deletions come after it. -/
def NoSetAfterGreatestDel (ops : List KeyOperation) : Prop :=
  ∀ pre ts post, ops = pre ++ .DEL ts :: post → (∀ o ∈ ops, o.timestamp ≤ ts) →
    ∀ o ∈ post, ∃ ts', o = .DEL ts'

/-- The operations, all on one key. -/
def onKey (key : SimpleString) (ops : List KeyOperation) : List (SimpleString × KeyOperation) :=
  ops.map fun o => (key, o)

theorem onHash_onKey (calculateHash : SimpleString → UInt32) (key : SimpleString)
    (ops : List KeyOperation) :
    onHash calculateHash (calculateHash key) (onKey key ops) = ops.map toRegister := by
  induction ops with
  | nil => rfl
  | cons op ops ih => rw [onKey, map_cons, onHash_cons_self, map_cons, ← ih]; rfl

section onKey

variable (calculateHash : SimpleString → UInt32) {numberBuckets : UInt32}
  (hn : 0 < (roundUpPowerOfTwo numberBuckets).toNat)

/-- Operations on one key run its register. -/
theorem applyAll_onKey (key : SimpleString) (ops : List KeyOperation) (clock : LamportClock) :
    ∃ m clock', applyAll calculateHash (onKey key ops) (Map.new numberBuckets hn) clock
        = some (m, clock') ∧
      m.readValue calculateHash key
        = some ((Register.run none (ops.map toRegister)).map (·.2)) := by
  obtain ⟨m, clock', hrun, hwf, -, hreg⟩ := applyAll_spec calculateHash (onKey key ops)
    (Map.wellFormed_new numberBuckets hn)
    (Map.dataOnly_new numberBuckets hn) clock (by
      intro k ts hmem h hh _
      obtain ⟨_, -, hk⟩ := mem_map.mp hmem
      cases hk
      rcases hh with hv | ⟨o, ho, rfl⟩
      · exact absurd (Map.view_new numberBuckets hn h) hv
      · obtain ⟨_, -, rfl⟩ := mem_map.mp ho
        rfl)
  refine ⟨m, clock', hrun, ?_⟩
  rw [hwf.readValue, hreg, Map.register_new, onHash_onKey]

end onKey

/-- What an operation leaves behind if it has the last word. -/
def leaves : KeyOperation → Option (LamportClock × SimpleString)
  | .SET v ts => some (ts, v)
  | .DEL _ => none

/-- The greatest operation has the last word, unless it is a deletion that a write follows. -/
theorem run_of_greatest {ops : List KeyOperation} (hnd : (ops.map timestamp).Nodup)
    (hafter : NoSetAfterGreatestDel ops) {g : KeyOperation} (hg : g ∈ ops)
    (hmax : ∀ o ∈ ops, o.timestamp ≤ g.timestamp) :
    Register.run none (ops.map toRegister) = g.leaves := by
  -- a greatest `SET` wins wherever it stands; after a greatest `DEL` no `SET` may come
  cases g with
  | SET v ts =>
    refine Register.run_of_greatest_set (by simp [Register.Below])
      (mem_map.mpr ⟨_, hg, rfl⟩) ?_
    intro r hr
    obtain ⟨o, ho, rfl⟩ := mem_map.mp hr
    by_cases heq : o = .SET v ts
    · subst heq
      exact Or.inr ⟨rfl, rfl⟩
    · have hne : o.timestamp ≠ ts :=
        fun hts => heq (inj_on_of_nodup_map hnd ho hg hts)
      have hlt : o.timestamp < ts := lt_of_le_of_ne (hmax o ho) hne
      cases o with
      | SET v' ts' => exact Or.inl hlt
      | DEL ts' => exact hlt
  | DEL ts =>
    obtain ⟨pre, post, rfl⟩ := append_of_mem hg
    rw [map_append, map_cons]
    refine Register.run_of_greatest_del ?_ ?_
    · intro r hr
      obtain ⟨o, ho, rfl⟩ := mem_map.mp hr
      have hle := hmax o (by simp [ho])
      cases o with
      | SET v' ts' => exact hle
      | DEL ts' => exact hle
    · intro r hr
      obtain ⟨o, ho, rfl⟩ := mem_map.mp hr
      obtain ⟨ts', rfl⟩ := hafter pre ts post rfl hmax o ho
      exact ⟨ts', rfl⟩

/-- Two orders of the same operations on a key, with distinct timestamps, in neither of which a
    write follows the greatest deletion, end with the same value under the key. -/
theorem deletes_converge (calculateHash : SimpleString → UInt32) {numberBuckets : UInt32}
    (hn : 0 < (roundUpPowerOfTwo numberBuckets).toNat) (key : SimpleString)
    (ops ops' : List KeyOperation) (hperm : ops.Perm ops')
    (hnd : (ops.map KeyOperation.timestamp).Nodup) (hafter : NoSetAfterGreatestDel ops)
    (hafter' : NoSetAfterGreatestDel ops') (clock clock' : LamportClock) :
    ∃ m c m' c' v, applyAll calculateHash (onKey key ops) (Map.new numberBuckets hn) clock
        = some (m, c) ∧
      applyAll calculateHash (onKey key ops') (Map.new numberBuckets hn) clock' = some (m', c') ∧
      m.readValue calculateHash key = some v ∧ m'.readValue calculateHash key = some v := by
  obtain ⟨m, c, hrun, hread⟩ := applyAll_onKey calculateHash hn key ops clock
  obtain ⟨m', c', hrun', hread'⟩ := applyAll_onKey calculateHash hn key ops' clock'
  refine ⟨m, c, m', c', _, hrun, hrun', hread, ?_⟩
  rw [hread']
  by_cases hnil : ops = []
  · subst hnil
    rw [hperm.symm.eq_nil]
  · -- both orders have the same greatest operation
    obtain ⟨g, hg, hmax⟩ := ops.toFinset.exists_max_image KeyOperation.timestamp
      (by simpa [List.toFinset_nonempty_iff] using hnil)
    simp only [List.mem_toFinset] at hg hmax
    have hrun1 := run_of_greatest hnd hafter hg hmax
    have hrun2 := run_of_greatest ((hperm.map _).nodup_iff.mp hnd) hafter' (hperm.mem_iff.mp hg)
      (fun o ho => hmax o (hperm.mem_iff.mpr ho))
    rw [hrun1, hrun2]

/-- Two writes and a later deletion that arrives last. -/
theorem deletes_converge_two_sets : ∃ m c m' c' v,
    applyAll shortKeyHash (onKey [1] [.SET [7] ⟨1, 1⟩, .SET [8] ⟨1, 2⟩, .DEL ⟨1, 3⟩])
        (Map.new 64 (by decide)) ⟨1, 0⟩ = some (m, c) ∧
      applyAll shortKeyHash (onKey [1] [.SET [8] ⟨1, 2⟩, .SET [7] ⟨1, 1⟩, .DEL ⟨1, 3⟩])
        (Map.new 64 (by decide)) ⟨1, 0⟩ = some (m', c') ∧
      m.readValue shortKeyHash [1] = some v ∧ m'.readValue shortKeyHash [1] = some v := by
  -- the only deletion is the last element
  have hlast : ∀ v v' ts ts',
      NoSetAfterGreatestDel [.SET v ts, .SET v' ts', .DEL ⟨1, 3⟩] := by
    intro v v' ts ts' pre ts₀ post heq _ o ho
    rcases pre with _ | ⟨a, _ | ⟨b, _ | ⟨c, pre⟩⟩⟩
    · simp at heq
    · simp at heq
    · simp only [cons_append, nil_append, cons.injEq] at heq
      obtain ⟨-, -, -, rfl⟩ := heq
      simp at ho
    · simp at heq
  exact deletes_converge shortKeyHash (by decide) [1] _ _ (List.Perm.swap _ _ _) (by decide)
    (hlast _ _ _ _) (hlast _ _ _ _) ⟨1, 0⟩ ⟨1, 0⟩

/-- Where the deletion arrives first, the older write that follows it is not refused: nothing
    of the deletion is left to refuse it. -/
theorem older_set_survives_del :
    ¬ ∀ (calculateHash : SimpleString → UInt32) (numberBuckets : UInt32)
      (hn : 0 < (roundUpPowerOfTwo numberBuckets).toNat) (key : SimpleString)
      (ops ops' : List KeyOperation) (clock clock' : LamportClock),
      ops.Perm ops' → (ops.map KeyOperation.timestamp).Nodup →
      ∃ m c m' c' v, applyAll calculateHash (onKey key ops) (Map.new numberBuckets hn) clock
          = some (m, c) ∧
        applyAll calculateHash (onKey key ops') (Map.new numberBuckets hn) clock' = some (m', c') ∧
        m.readValue calculateHash key = some v ∧ m'.readValue calculateHash key = some v := by
  intro hall
  obtain ⟨m, c, m', c', v, hrun, hrun', hread, hread'⟩ := hall shortKeyHash 64 (by decide) [1]
    [.SET [7] ⟨1, 1⟩, .DEL ⟨1, 2⟩] [.DEL ⟨1, 2⟩, .SET [7] ⟨1, 1⟩] ⟨1, 0⟩ ⟨1, 0⟩
    (List.Perm.swap _ _ _) (by decide)
  have habsent : (applyAll shortKeyHash (onKey [1] [.SET [7] ⟨1, 1⟩, .DEL ⟨1, 2⟩])
      (Map.new 64 (by decide)) ⟨1, 0⟩).bind (·.1.readValue shortKeyHash [1]) = some none := by
    decide
  have hpresent : (applyAll shortKeyHash (onKey [1] [.DEL ⟨1, 2⟩, .SET [7] ⟨1, 1⟩])
      (Map.new 64 (by decide)) ⟨1, 0⟩).bind (·.1.readValue shortKeyHash [1])
      = some (some [7]) := by
    decide
  rw [hrun, bind_some, hread] at habsent
  rw [hrun', bind_some, hread', habsent] at hpresent
  cases hpresent

end KeyOperation

end MemDb

import MemDb.Db.Map
import MemDb.Db.Counter

/-! # Counters in the store

    A counter is stored like a value, but it is edited in place: `updateCounter` and the callers of
    `get` reach it through the data pointer of its node. Where the key is absent the counter is
    added first. What each of these does to the content of the store is said by
    `updateCounter_value`, `updateCounter_counter`, `putCounter_spec` and `editCounter_spec`.
-/

namespace MemDb

open Lib Option Function

namespace AVLTree

/-- `static_pointer_cast<CounterAVLNode>` and dereference. -/
def counterNode (t : AVLTree) (d : Nat) : Option Counter :=
  match t.datas.read d with
  | some (.counter c) => some c
  | _ => none

section edit
variable {α : Type}

/-- A call on the counter of a node. -/
def editCounter (t : AVLTree) (a : Nat) (edit : Counter → Option (Counter × α)) :
    Option (AVLTree × α) := do
  let n ← t.node a
  let c ← t.counterNode n.data
  let (c, result) ← edit c
  return ({ t with datas := t.datas.write n.data (.counter c) }, result)

variable {entry : MapEntry} {h : UInt32} {t : AVLTree}

/-- The kind of an entry is that of its data. -/
theorem WellFormed.type_eq (hwf : WellFormed t) (hview : t.view h = some entry) :
    entry.type = entry.data.nodeType := by
  obtain ⟨s, hs⟩ := hwf
  obtain ⟨c, -, -, -, -, htype, hentry⟩ := hs.exists_cell hview
  rw [hentry]
  exact htype.symm

theorem WellFormed.get_absent (hwf : WellFormed t) (habs : t.view h = none) :
    t.get h = some none := by
  obtain ⟨s, hs⟩ := hwf
  rw [hs.get h, hs.find_eq_none_iff.mpr habs]
  rfl

/-- A lookup returns a pointer to a node of the kind that the entry says. -/
theorem WellFormed.get_present (hwf : WellFormed t) (hview : t.view h = some entry) :
    ∃ a n, t.get h = some (some a) ∧ t.node a = some n ∧ n.nodeType = entry.type := by
  obtain ⟨s, hs⟩ := hwf
  obtain ⟨c, hc, hfind, -, -, -, hentry⟩ := hs.exists_cell hview
  obtain ⟨left, right, height, -, hnode⟩ := hs.rep.nodeAt_of_mem hc
  exact ⟨c.addr, _, by rw [hs.get h, hfind]; rfl, hnode, by rw [hentry]⟩

section
variable (hwf : WellFormed t) (hview : t.view h = some entry) {a : Nat}
include hwf hview

/-- A call on a stored counter does what the call itself does, and changes the content at its hash
    only. -/
theorem WellFormed.editCounter {counter : Counter} (hcounter : entry.data = .counter counter)
    (hget : t.get h = some (some a)) (edit : Counter → Option (Counter × α)) :
    ∃ written : Counter → AVLTree,
      t.editCounter a edit = (edit counter).map (Prod.map written id) ∧
      ∀ edited, WellFormed (written edited) ∧ (written edited).view =
        update t.view h (some { entry with data := .counter edited }) := by
  obtain ⟨s, hs⟩ := hwf
  obtain ⟨c, hc, hfind, hkey, hread, htype, hentry⟩ := hs.exists_cell hview
  rw [hs.get h, hfind] at hget
  cases some.inj hget
  obtain ⟨left, right, height, -, hnode⟩ := hs.rep.nodeAt_of_mem hc
  rw [hcounter] at hread htype
  refine ⟨fun edited => { t with datas := t.datas.write c.data (.counter edited) }, ?_, ?_⟩
  · simp only [AVLTree.editCounter, hnode, counterNode, hread, bind_eq_bind, bind_some]
    cases edit counter <;> rfl
  · intro edited
    obtain ⟨hs', hview'⟩ :=
      hs.writeData hc (show NodeData.nodeType (.counter edited) = _ from htype)
    refine ⟨⟨s, hs'⟩, ?_⟩
    rw [hview', hkey, hentry, hkey]

end

end edit

end AVLTree

/-- What is stored under a hash once a counter has been added there if nothing was. -/
def View.withCounter (V : View) (key : SimpleString) (h : UInt32) (selfNodeId : UInt16)
    (nNodes : UInt32) : MapEntry :=
  (V h).getD ⟨key, h, .COUNTER, .counter (Counter.new selfNodeId nNodes)⟩

namespace Map

section operations
variable (calculateHash : SimpleString → UInt32)

/-- The bucket of a key with a counter added if the key is absent, and whether it was. -/
def addCounterIfAbsent (bucket : AVLTree) (key : SimpleString) (hash : UInt32)
    (selfNodeId : UInt16) (nNodes : UInt32) : Option (AVLTree × Bool) :=
  (bucket.get hash).bind fun bucketNodeWithKey =>
    if bucketNodeWithKey = none then
      (bucket.addCounter key hash selfNodeId nNodes).map fun (bucket, _) => (bucket, true)
    else some (bucket, false)

def putCounter (m : Map) (key : SimpleString) (selfNodeId : UInt16) (nNodes : UInt32) :
    Option (Map × Bool) :=
  let hash := calculateHash key
  (addCounterIfAbsent (m.getBucket hash) key hash selfNodeId nNodes).map fun (bucket, added) =>
    (m.setBucket hash bucket, added)

/-- Count in the own slot of the counter under a key; an error where the key holds a value. There
    the source returns with the lock of the bucket held. -/
def updateCounter (m : Map) (key : SimpleString) (selfNodeId : UInt16) (nNodes : UInt32)
    (isIncrement : Bool) : Option (Map × Option Int64) := do
  let hash := calculateHash key
  let (bucket, _) ← addCounterIfAbsent (m.getBucket hash) key hash selfNodeId nNodes
  let bucketNodeWithKey ← (← bucket.get hash)
  if (← bucket.node bucketNodeWithKey).nodeType ≠ .COUNTER then
    return (m.setBucket hash bucket, none)
  else
    let (bucket, newValue) ← bucket.editCounter bucketNodeWithKey fun counter =>
      if isIncrement then counter.increment else counter.decrement
    return (m.setBucket hash bucket, some newValue)

/-- A call on the counter of an entry that `get` has returned: the entry points to the data of the
    node. -/
def editCounter {α : Type} (m : Map) (key : SimpleString)
    (edit : Counter → Option (Counter × α)) : Option (Map × α) := do
  let hash := calculateHash key
  let a ← (← (m.getBucket hash).get hash)
  let (bucket, result) ← (m.getBucket hash).editCounter a edit
  return (m.setBucket hash bucket, result)

def contains (m : Map) (key : SimpleString) : Option Bool :=
  ((m.getBucket (calculateHash key)).get (calculateHash key)).map Option.isSome

end operations

theorem addCounterIfAbsent_spec {bucket : AVLTree} (hwf : bucket.WellFormed) (key : SimpleString)
    (h : UInt32) (selfNodeId : UInt16) (nNodes : UInt32) :
    ∃ bucket' added, addCounterIfAbsent bucket key h selfNodeId nNodes = some (bucket', added) ∧
      bucket'.WellFormed ∧ bucket'.view = update bucket.view h
        (some (bucket.view.withCounter key h selfNodeId nNodes)) := by
  unfold addCounterIfAbsent
  cases hview : bucket.view h with
  | none =>
    obtain ⟨bucket', ok, hadd, hwf', hcases⟩ := AVLTree.addCounter_spec hwf key h selfNodeId nNodes
    obtain ⟨-, hview', -⟩ := hcases.resolve_right fun hpres => hpres.1 hview
    refine ⟨bucket', true, ?_, hwf', ?_⟩
    · simp [hwf.get_absent hview, hadd]
    · rw [hview', View.withCounter, hview]
      rfl
  | some entry =>
    obtain ⟨a, n, hget, -, -⟩ := hwf.get_present hview
    refine ⟨bucket, false, by simp [hget], hwf, ?_⟩
    rw [View.withCounter, hview]
    exact (update_eq_self_iff.mpr hview.symm).symm

section specs
variable {calculateHash : SimpleString → UInt32} {m m' : Map} (hwf : m.WellFormed)
  {key : SimpleString} {selfNodeId : UInt16} {nNodes : UInt32}
include hwf

theorem WellFormed.contains (key : SimpleString) :
    m.contains calculateHash key = some (m.view (calculateHash key)).isSome := by
  unfold Map.contains Map.view
  cases hview : (m.getBucket (calculateHash key)).view (calculateHash key) with
  | none => rw [(hwf.bucket _).get_absent hview]; rfl
  | some entry =>
    obtain ⟨a, n, hget, -, -⟩ := (hwf.bucket _).get_present hview
    rw [hget]
    rfl

variable {entry : MapEntry} {counter : Counter}

theorem WellFormed.type_eq {h : UInt32} (hview : m.view h = some entry) :
    entry.type = entry.data.nodeType :=
  (hwf.bucket h).type_eq hview

theorem putCounter_spec (key : SimpleString) (selfNodeId : UInt16) (nNodes : UInt32) :
    ∃ m' added, m.putCounter calculateHash key selfNodeId nNodes = some (m', added) ∧
      m'.WellFormed ∧ m'.view = update m.view (calculateHash key)
        (some (m.view.withCounter key (calculateHash key) selfNodeId nNodes)) := by
  obtain ⟨bucket, added, hadd, hbucket, hview⟩ := addCounterIfAbsent_spec
    (hwf.bucket (calculateHash key)) key (calculateHash key) selfNodeId nNodes
  obtain ⟨hwf', hview'⟩ := hwf.setBucket hbucket fun h' hne => by
    rw [hview, update_of_ne hne]
  refine ⟨m.setBucket (calculateHash key) bucket, added, ?_, hwf', ?_⟩
  · simp [putCounter, hadd]
  · rw [hview', hview, update_self]
    rfl

theorem editCounter_spec {α : Type} (hview : m.view (calculateHash key) = some entry)
    (hcounter : entry.data = .counter counter) (edit : Counter → Option (Counter × α)) :
    ∃ written : Counter → Map,
      m.editCounter calculateHash key edit = (edit counter).map (Prod.map written id) ∧
      ∀ edited, (written edited).WellFormed ∧ (written edited).view =
        update m.view (calculateHash key) (some { entry with data := .counter edited }) := by
  obtain ⟨a, n, hget, -, -⟩ := (hwf.bucket _).get_present hview
  obtain ⟨bucket, hedit, hbucket⟩ := (hwf.bucket _).editCounter hview hcounter hget edit
  refine ⟨fun edited => m.setBucket (calculateHash key) (bucket edited), ?_, fun edited => ?_⟩
  · simp only [Map.editCounter, hget, hedit, bind_eq_bind, bind_some]
    cases edit counter <;> rfl
  · obtain ⟨hwritten, hbucketView⟩ := hbucket edited
    obtain ⟨hwf', hview'⟩ := hwf.setBucket hwritten fun h' hne => by
      rw [hbucketView, update_of_ne hne]
    rw [hbucketView, update_self] at hview'
    exact ⟨hwf', hview'⟩

/-- The bucket of a key once a counter is there. -/
theorem addCounterIfAbsent_bucket (key : SimpleString) (selfNodeId : UInt16) (nNodes : UInt32) :
    ∃ bucket added a n, addCounterIfAbsent (m.getBucket (calculateHash key)) key
        (calculateHash key) selfNodeId nNodes = some (bucket, added) ∧
      bucket.get (calculateHash key) = some (some a) ∧ bucket.node a = some n ∧
      n.nodeType = (m.view.withCounter key (calculateHash key) selfNodeId nNodes).data.nodeType ∧
      bucket.WellFormed ∧ bucket.view = update (m.getBucket (calculateHash key)).view
        (calculateHash key)
        (some (m.view.withCounter key (calculateHash key) selfNodeId nNodes)) := by
  obtain ⟨bucket, added, hadd, hbucket, hview⟩ := addCounterIfAbsent_spec
    (hwf.bucket (calculateHash key)) key (calculateHash key) selfNodeId nNodes
  have hentry : bucket.view (calculateHash key) =
      some (m.view.withCounter key (calculateHash key) selfNodeId nNodes) := by
    rw [hview, update_self]
    rfl
  obtain ⟨a, n, hget, hnode, htype⟩ := hbucket.get_present hentry
  exact ⟨bucket, added, a, n, hadd, hget, hnode, htype.trans (hbucket.type_eq hentry), hbucket,
    hview⟩

/-- On a value `updateCounter` is an error and changes nothing. -/
theorem updateCounter_value {d : DataAVLNode} (hview : m.view (calculateHash key) = some entry)
    (hdata : entry.data = .data d) (isIncrement : Bool) :
    ∃ m', m.updateCounter calculateHash key selfNodeId nNodes isIncrement = some (m', none) ∧
      m'.WellFormed ∧ m'.view = m.view := by
  obtain ⟨bucket, added, a, n, hadd, hget, hnode, htype, hbucket, hbucketView⟩ :=
    addCounterIfAbsent_bucket hwf key selfNodeId nNodes
  have hentry : m.view.withCounter key (calculateHash key) selfNodeId nNodes = entry := by
    rw [View.withCounter, hview]
    rfl
  rw [hentry] at htype hbucketView
  obtain ⟨hwf', hview'⟩ := hwf.setBucket hbucket fun h' hne => by
    rw [hbucketView, update_of_ne hne]
  refine ⟨m.setBucket (calculateHash key) bucket, ?_, hwf', ?_⟩
  · simp [Map.updateCounter, hadd, hget, hnode, htype, hdata, NodeData.nodeType]
  · rw [hview', hbucketView, update_self]
    exact update_eq_self_iff.mpr hview.symm

/-- Elsewhere it counts in the own slot of the counter. -/
theorem updateCounter_counter
    (hdata : (m.view.withCounter key (calculateHash key) selfNodeId nNodes).data = .counter counter)
    (isIncrement : Bool) :
    ∃ counted : Counter → Map, m.updateCounter calculateHash key selfNodeId nNodes isIncrement =
        (counter.updateOwn isIncrement).map (Prod.map counted some) ∧
      ∀ edited, (counted edited).WellFormed ∧ (counted edited).view =
        update m.view (calculateHash key)
          (some { m.view.withCounter key (calculateHash key) selfNodeId nNodes with
            data := .counter edited }) := by
  obtain ⟨bucket, added, a, n, hadd, hget, hnode, htype, hbucket, hbucketView⟩ :=
    addCounterIfAbsent_bucket hwf key selfNodeId nNodes
  have hcounter : n.nodeType = .COUNTER := by
    rw [htype, hdata]
    rfl
  have hentry : bucket.view (calculateHash key) =
      some (m.view.withCounter key (calculateHash key) selfNodeId nNodes) := by
    rw [hbucketView, update_self]
  -- the counter is there by now: as it was, or just added
  obtain ⟨written, hedit, hwritten⟩ := hbucket.editCounter hentry hdata hget
    fun counter => if isIncrement then counter.increment else counter.decrement
  refine ⟨fun edited => m.setBucket (calculateHash key) (written edited), ?_, fun edited => ?_⟩
  · have hown : (if isIncrement then counter.increment else counter.decrement) =
        counter.updateOwn isIncrement := by
      cases isIncrement <;> rfl
    simp only [Map.updateCounter, hadd, hget, hnode, hcounter, hedit, hown, bind_eq_bind, bind_some,
      ne_eq, not_true_eq_false, if_false]
    cases counter.updateOwn isIncrement <;> rfl
  · obtain ⟨hwf₁, hview₁⟩ := hwritten edited
    obtain ⟨hwf', hview'⟩ := hwf.setBucket hwf₁ fun h' hne => by
      rw [hview₁, update_of_ne hne, hbucketView, update_of_ne hne]
    rw [hview₁, update_self] at hview'
    exact ⟨hwf', hview'⟩

end specs

end Map

end MemDb

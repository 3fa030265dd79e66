import MemDb.Db.CounterStore
import MemDb.Db.Removal
import MemDb.Lib.Run

/-! # Runs of calls on the store

  Any sequence of calls on a new `Map`. The store keeps and finds entries by the hash of their key
  alone, so what a call does to another key depends on two things: whether the hashes of the
  two keys differ, and whether a removal stays clear of the defects of the tree.
  `calls_independent` says that these are all.

  The key of an entry is written once, when its node is created, together with the hash. A
  removal of a node with two children moves the hash of the successor into the node and leaves
  the key where it was; `keys_follow_hashes` says that nothing else separates the two,
  in any run and in any state of the trees.
-/

namespace MemDb

open Lib Option List

/-- A call on the store. -/
inductive MapCall where
  | putData (key value : SimpleString) (timestamp : LamportClock) (strategy : UpdateClockStrategy)
      (clock : LamportClock) (requestFromNode : Bool)
  | remove (key : SimpleString) (timestamp : LamportClock) (strategy : UpdateClockStrategy)
      (clock : LamportClock) (checkTimestamps : Bool)
  | putCounter (key : SimpleString) (selfNodeId : UInt16) (nNodes : UInt32)
  | updateCounter (key : SimpleString) (selfNodeId : UInt16) (nNodes : UInt32) (isIncrement : Bool)
  | get (key : SimpleString)
deriving DecidableEq

namespace MapCall

def key : MapCall → SimpleString
  | putData key _ _ _ _ _ => key
  | remove key _ _ _ _ => key
  | putCounter key _ _ => key
  | updateCounter key _ _ _ => key
  | get key => key

variable (calculateHash : SimpleString → UInt32)

/-- The store after the call. -/
def apply : MapCall → Map → Option Map
  | putData key value timestamp strategy clock requestFromNode, m =>
    (m.putData calculateHash key value timestamp strategy clock requestFromNode).map (·.1)
  | remove key timestamp strategy clock checkTimestamps, m =>
    (m.remove calculateHash key timestamp strategy clock checkTimestamps).map (·.1)
  | putCounter key selfNodeId nNodes, m =>
    (m.putCounter calculateHash key selfNodeId nNodes).map (·.1)
  | updateCounter key selfNodeId nNodes isIncrement, m =>
    (m.updateCounter calculateHash key selfNodeId nNodes isIncrement).map (·.1)
  | get key, m => (m.get calculateHash key).map fun _ => m

/-- The call is not a removal that reaches a defect of the tree. -/
def safe : MapCall → Map → Bool
  | remove key timestamp strategy _ checkTimestamps, m =>
    m.removalSafe (calculateHash key) timestamp strategy checkTimestamps
  | _, _ => true

/-- What a call leaves under the hash of its key, given the content before it. -/
def entry (V : View) : MapCall → Option (Option MapEntry)
  | putData key value timestamp strategy clock requestFromNode =>
    let h := calculateHash key
    some (if V.accepts h timestamp strategy requestFromNode then
      some (V.written key h ⟨value, AVLTree.stamped clock timestamp strategy requestFromNode⟩)
        else V h)
  | remove key timestamp strategy _ checkTimestamps =>
    let h := calculateHash key
    some (if V.accepts h timestamp strategy checkTimestamps then none else V h)
  | putCounter key selfNodeId nNodes =>
    some (some (V.withCounter key (calculateHash key) selfNodeId nNodes))
  | updateCounter key selfNodeId nNodes isIncrement =>
    let entry := V.withCounter key (calculateHash key) selfNodeId nNodes
    match entry.data with
    | .data _ => some (V (calculateHash key))
    | .counter counter =>
      (counter.updateOwn isIncrement).map fun (counter, _) =>
        some { entry with data := .counter counter }
  | get key => some (V (calculateHash key))

/-- The call on a map from hashes to entries. -/
def onView (call : MapCall) (V : View) : Option View :=
  (call.entry calculateHash V).map (Function.update V (calculateHash call.key))

end MapCall

/-! ### What a call does to the content -/

section content
variable {calculateHash : SimpleString → UInt32}

/-- The entry after a call has the key of the one before, or, where there was none, the key of the
    call. -/
def KeyKept (key : SimpleString) (before after : Option MapEntry) : Prop :=
  ∀ e, after = some e → e.key = before.elim key MapEntry.key

theorem keyKept_withCounter (V : View) (key : SimpleString) (h : UInt32) (selfNodeId : UInt16)
    (nNodes : UInt32) (d : NodeData) :
    KeyKept key (V h) (some { V.withCounter key h selfNodeId nNodes with data := d }) := by
  rintro e ⟨⟩
  unfold View.withCounter
  cases V h <;> rfl

theorem keyKept_self (key : SimpleString) (e : Option MapEntry) : KeyKept key e e := by
  rintro e' rfl
  rfl

variable {m : Map}

/-- A safe call does to the content what it does to the map from hashes to entries. -/
theorem MapCall.apply_onView (call : MapCall) (m : Map) (hwf : m.WellFormed)
    (hsafe : call.safe calculateHash m = true) :
    (call.apply calculateHash m).map Map.view = call.onView calculateHash m.view ∧
      ∀ m', call.apply calculateHash m = some m' → m'.WellFormed := by
  cases call with
  | putData key value timestamp strategy clock requestFromNode =>
    obtain ⟨m', clock', result, hput, hwf', -, hcases⟩ := m.putData_spec hwf value
      clock timestamp strategy requestFromNode
    have hrun :
        apply calculateHash (.putData key value timestamp strategy clock requestFromNode) m =
          some m' :=
      congrArg (Option.map Prod.fst) hput
    rcases hcases with ⟨hacc, -, -, hview⟩ | ⟨hacc, -, -, hview⟩
    · simp [hrun, hwf', hview, onView, MapCall.entry, MapCall.key, hacc, View.put]
    · simp [hrun, hwf', hview, onView, MapCall.entry, MapCall.key, hacc]
  | remove key timestamp strategy clock checkTimestamps =>
    obtain ⟨m', clock', result, hremove, hwf', -, hcases⟩ := m.remove_cases hwf clock hsafe
    have hrun :
        apply calculateHash (.remove key timestamp strategy clock checkTimestamps) m = some m' :=
      congrArg (Option.map Prod.fst) hremove
    rcases hcases with ⟨e, he, hacc, -, -, hview⟩ | ⟨hall, -, -, hview⟩
    · simp [hrun, hwf', hview, onView, MapCall.entry, MapCall.key, View.accepts, he, hacc,
        View.erase]
    · cases he : m.view (calculateHash key) with
      | none => simp [hrun, hwf', hview, onView, MapCall.entry, MapCall.key, he]
      | some e =>
        simp [hrun, hwf', hview, onView, MapCall.entry, MapCall.key, View.accepts, he, hall e he]
  | putCounter key selfNodeId nNodes =>
    obtain ⟨m', added, hput, hwf', hview⟩ := m.putCounter_spec hwf key selfNodeId nNodes
    have hrun : apply calculateHash (.putCounter key selfNodeId nNodes) m = some m' :=
      congrArg (Option.map Prod.fst) hput
    simp [hrun, hwf', hview, onView, MapCall.entry, MapCall.key]
  | updateCounter key selfNodeId nNodes isIncrement =>
    cases hdata : (m.view.withCounter key (calculateHash key) selfNodeId nNodes).data with
    | data d =>
      -- a value is there, since a counter that was added would be one
      cases hv : m.view (calculateHash key) with
      | none => simp [View.withCounter, hv] at hdata
      | some e =>
        obtain ⟨m', hupdate, hwf', hview⟩ := m.updateCounter_value hwf hv
          (by rwa [View.withCounter, hv] at hdata) isIncrement
        have hrun :
            apply calculateHash (.updateCounter key selfNodeId nNodes isIncrement) m = some m' :=
          congrArg (Option.map Prod.fst) hupdate
        simp [hrun, hwf', hview, onView, MapCall.entry, MapCall.key, hdata]
    | counter counter =>
      obtain ⟨counted, hcounted, hcounter⟩ := m.updateCounter_counter hwf hdata isIncrement
      cases hown : counter.updateOwn isIncrement <;>
        simp [MapCall.apply, hcounted, hown, onView, MapCall.entry, MapCall.key, hdata, hcounter]
  | get key => simp [MapCall.apply, hwf.get, hwf, onView, MapCall.entry, MapCall.key]

theorem MapCall.keyKept_entry {V : View} {call : MapCall} {e : Option MapEntry}
    (h : call.entry calculateHash V = some e) :
    KeyKept call.key (V (calculateHash call.key)) e := by
  cases call with
  | putData key value timestamp strategy clock requestFromNode =>
    cases h
    split
    · rintro _ ⟨⟩
      simp only [View.written, MapCall.key]
      cases V (calculateHash key) <;> rfl
    · exact keyKept_self _ _
  | remove key timestamp strategy clock checkTimestamps =>
    cases h
    split
    · rintro _ ⟨⟩
    · exact keyKept_self _ _
  | putCounter key selfNodeId nNodes =>
    cases h
    exact keyKept_withCounter V key _ selfNodeId nNodes _
  | updateCounter key selfNodeId nNodes isIncrement =>
    simp only [MapCall.entry] at h
    split at h
    · cases h
      exact keyKept_self _ _
    · obtain ⟨counted, -, rfl⟩ := map_eq_some_iff.mp h
      exact keyKept_withCounter V key _ selfNodeId nNodes _
  | get key =>
    cases h
    exact keyKept_self _ _

/-- A safe call changes the content at the hash of its key only. -/
theorem MapCall.apply_spec {m' : Map} (hwf : m.WellFormed) {call : MapCall}
    (hsafe : call.safe calculateHash m = true) (hcall : call.apply calculateHash m = some m') :
    m'.WellFormed ∧ (∀ h, h ≠ calculateHash call.key → m'.view h = m.view h) ∧
      KeyKept call.key (m.view (calculateHash call.key)) (m'.view (calculateHash call.key)) := by
  obtain ⟨hview, hwf'⟩ := call.apply_onView m hwf hsafe
  rw [hcall, map_some] at hview
  obtain ⟨e, hentry, hview⟩ := map_eq_some_iff.mp hview.symm
  rw [← hview, Function.update_self]
  exact ⟨hwf' m' hcall, fun h hne => Function.update_of_ne hne _ _, keyKept_entry hentry⟩

/-- Every entry is under the hash of its key, which is one of `keys`. -/
def Owned (calculateHash : SimpleString → UInt32) (keys : List SimpleString) (m : Map) : Prop :=
  m.WellFormed ∧ ∀ h e, m.view h = some e → e.key ∈ keys ∧ calculateHash e.key = h

theorem Owned.step {keys : List SimpleString} {m' : Map} (hm : Owned calculateHash keys m)
    {call : MapCall} (hkey : call.key ∈ keys) (hsafe : call.safe calculateHash m = true)
    (hcall : call.apply calculateHash m = some m') : Owned calculateHash keys m' := by
  obtain ⟨hwf, hkeys⟩ := hm
  obtain ⟨hwf', hothers, hself⟩ := call.apply_spec hwf hsafe hcall
  refine ⟨hwf', ?_⟩
  intro h e he
  by_cases heq : h = calculateHash call.key
  · subst heq
    rw [hself e he]
    cases hbefore : m.view (calculateHash call.key) with
    | none => exact ⟨hkey, rfl⟩
    | some e' => exact hkeys _ e' hbefore
  · rw [hothers h heq] at he
    exact hkeys h e he

/-- A write from node `1`, with the value `b`. -/
def MapCall.write (key : SimpleString) (b : UInt8) : MapCall :=
  .putData key [b] ⟨1, 1⟩ .SET_MAX ⟨1, 0⟩ true

end content

/-! ### Keys and hashes of nodes -/

namespace AVLTree

/-- Every node carries the hash of its key. -/
def Keyed (calculateHash : SimpleString → UInt32) (t : AVLTree) : Prop :=
  ∀ a n, t.node a = some n → n.keyHash = calculateHash n.key

section
variable {calculateHash : SimpleString → UInt32} {t t' : AVLTree} {a : Nat} {p q : Ptr}

theorem Keyed.of_nodes (h : Keyed calculateHash t) (hnodes : t'.nodes = t.nodes) :
    Keyed calculateHash t' := by
  intro a n hn
  rw [node, hnodes] at hn
  exact h a n hn

section
variable (h : Keyed calculateHash t)
include h

/-- Overwriting a node without its key and hash. -/
theorem Keyed.setNode {n n' : AVLNode} (hn : t.node a = some n) (hkey : n'.key = n.key)
    (hhash : n'.keyHash = n.keyHash) : Keyed calculateHash (t.setNode a n') := by
  intro b m hm
  by_cases hb : b = a
  · subst hb
    rw [node_setNode_self hn] at hm
    cases hm
    rw [hkey, hhash]
    exact h b n hn
  · rw [node, AVLTree.setNode, Heap.read_write_ne _ hb] at hm
    exact h b m hm

theorem Keyed.setLeft (hset : t.setLeft a p = some t') : Keyed calculateHash t' := by
  obtain ⟨n, hn, ⟨⟩⟩ := bind_eq_some_iff.mp hset
  exact h.setNode hn rfl rfl

theorem Keyed.setRight (hset : t.setRight a p = some t') : Keyed calculateHash t' := by
  obtain ⟨n, hn, ⟨⟩⟩ := bind_eq_some_iff.mp hset
  exact h.setNode hn rfl rfl

theorem Keyed.updateHeight (hset : t.updateHeight a = some t') : Keyed calculateHash t' := by
  simp only [AVLTree.updateHeight, bind_eq_bind, bind_eq_some_iff, some.injEq] at hset
  obtain ⟨n, hn, -, -, -, -, rfl⟩ := hset
  exact h.setNode hn rfl rfl

theorem Keyed.updateRootReference (p q : Ptr) :
    Keyed calculateHash (t.updateRootReferenceIfNeccesary p q) := by
  unfold updateRootReferenceIfNeccesary
  split
  · exact h.of_nodes rfl
  · exact h

theorem Keyed.rotateRight (hrot : t.rotateRight p = some (t', q)) : Keyed calculateHash t' := by
  simp only [AVLTree.rotateRight, bind_eq_bind, bind_eq_some_iff, some.injEq, Prod.mk.injEq] at hrot
  obtain ⟨a, -, n, -, leftChild, -, m, -, t₁, h₁, t₂, h₂, t₃, h₃, t₄, h₄, rfl, -⟩ := hrot
  exact ((((h.updateRootReference _ _).setLeft h₁).setRight h₂).updateHeight h₃).updateHeight h₄

theorem Keyed.rotateLeft (hrot : t.rotateLeft p = some (t', q)) : Keyed calculateHash t' := by
  simp only [AVLTree.rotateLeft, bind_eq_bind, bind_eq_some_iff, some.injEq, Prod.mk.injEq] at hrot
  obtain ⟨a, -, n, -, rightChild, -, m, -, t₁, h₁, t₂, h₂, t₃, h₃, t₄, h₄, rfl, -⟩ := hrot
  exact ((((h.setRight h₁).setLeft h₂).updateRootReference _ _).updateHeight h₃).updateHeight h₄

theorem Keyed.rebalance (hreb : t.rebalance a = some (t', p)) : Keyed calculateHash t' := by
  simp only [AVLTree.rebalance, bind_eq_bind, bind_eq_some_iff] at hreb
  obtain ⟨t₁, h₁, factor, -, hreb⟩ := hreb
  replace h := h.updateHeight h₁
  split at hreb
  · -- left heavy
    simp only [bind_eq_some_iff] at hreb
    obtain ⟨n, -, inner, -, hreb⟩ := hreb
    split at hreb
    · simp only [bind_eq_some_iff] at hreb
      obtain ⟨⟨t₂, q⟩, hrot, t₃, hset, hreb⟩ := hreb
      exact ((h.rotateLeft hrot).setLeft hset).rotateRight hreb
    · exact h.rotateRight hreb
  · split at hreb
    · simp only [bind_eq_some_iff] at hreb
      obtain ⟨n, -, inner, -, hreb⟩ := hreb
      split at hreb
      · simp only [bind_eq_some_iff] at hreb
        obtain ⟨⟨t₂, q⟩, hrot, t₃, hset, hreb⟩ := hreb
        exact ((h.rotateRight hrot).setRight hset).rotateLeft hreb
      · exact h.rotateLeft hreb
    · cases hreb
      exact h

theorem Keyed.newNode (key : SimpleString) (d : NodeData) :
    Keyed calculateHash (t.newNode key (calculateHash key) d) := by
  intro a n hn
  by_cases ha : a = t.nodes.next
  · subst ha
    rw [node, AVLTree.newNode, Heap.read_alloc_next] at hn
    cases hn
    rfl
  · have hlt := Heap.read_lt_next hn
    rw [AVLTree.newNode, Heap.next_alloc] at hlt
    rw [node, AVLTree.newNode, Heap.read_alloc_of_lt _ _ (by omega)] at hn
    exact h a n hn

/-- An insertion moves nodes around; their keys and hashes stay. -/
theorem Keyed.insertRecursive {σ : Type} {atNull : AVLTree → σ → Option (AVLTree × σ)}
    {atEqual : AVLTree → σ → Nat → Option (Option (AVLTree × σ))}
    (hnull : ∀ t x t' x', Keyed calculateHash t → atNull t x = some (t', x') →
      Keyed calculateHash t')
    (hequal : ∀ t x a t' x', Keyed calculateHash t → atEqual t x a = some (some (t', x')) →
      Keyed calculateHash t') {toInsert fuel : Nat} {x x' : σ} {p' : Ptr}
    (hinsert : insertRecursive atNull atEqual toInsert fuel t x p = some (t', x', p')) :
    Keyed calculateHash t' := by
  -- along the recursion: what came back is stored or not, and the node is rebalanced
  induction fuel generalizing t t' x x' p p' with
  | zero => simp [AVLTree.insertRecursive] at hinsert
  | succ fuel ih =>
    cases p with
    | none =>
      simp only [AVLTree.insertRecursive, bind_eq_bind, bind_eq_some_iff, some.injEq,
        Prod.mk.injEq] at hinsert
      obtain ⟨⟨t₁, x₁⟩, h₁, rfl, -, -⟩ := hinsert
      refine (hnull t x t₁ x₁ h h₁).of_nodes ?_
      split <;> rfl
    | some last =>
      simp only [AVLTree.insertRecursive, bind_eq_bind, bind_eq_some_iff] at hinsert
      obtain ⟨lastNode, -, newNode, -, hinsert⟩ := hinsert
      split at hinsert
      · obtain ⟨⟨t₁, x₁, inserted⟩, h₁, hinsert⟩ := bind_eq_some_iff.mp hinsert
        replace h := ih h h₁
        split at hinsert
        · simp only [bind_eq_some_iff, some.injEq, Prod.mk.injEq] at hinsert
          obtain ⟨t₂, h₂, ⟨t₃, q⟩, h₃, rfl, -, -⟩ := hinsert
          exact (h.setLeft h₂).rebalance h₃
        · simp only [bind_eq_some_iff, some.injEq, Prod.mk.injEq] at hinsert
          obtain ⟨t₂, rfl, ⟨t₃, q⟩, h₃, rfl, -, -⟩ := hinsert
          exact h.rebalance h₃
      · split at hinsert
        · obtain ⟨⟨t₁, x₁, inserted⟩, h₁, hinsert⟩ := bind_eq_some_iff.mp hinsert
          replace h := ih h h₁
          split at hinsert
          · simp only [bind_eq_some_iff, some.injEq, Prod.mk.injEq] at hinsert
            obtain ⟨t₂, h₂, ⟨t₃, q⟩, h₃, rfl, -, -⟩ := hinsert
            exact (h.setRight h₂).rebalance h₃
          · simp only [bind_eq_some_iff, some.injEq, Prod.mk.injEq] at hinsert
            obtain ⟨t₂, rfl, ⟨t₃, q⟩, h₃, rfl, -, -⟩ := hinsert
            exact h.rebalance h₃
        · obtain ⟨_ | ⟨t₁, x₁⟩, h₁, hinsert⟩ := bind_eq_some_iff.mp hinsert
          · cases hinsert
            exact h
          · simp only [bind_eq_some_iff, some.injEq, Prod.mk.injEq] at hinsert
            obtain ⟨⟨t₂, q⟩, h₂, rfl, -, -⟩ := hinsert
            exact (hequal t x last t₁ x₁ h h₁).rebalance h₂

theorem Keyed.unlink (last : Nat) (child : Ptr) : Keyed calculateHash (t.unlink last child) := by
  intro b n hn
  by_cases hb : b = last
  · subst hb
    simp [node, AVLTree.unlink, deleteNode, Heap.read_free_self] at hn
  · rw [node, AVLTree.unlink, deleteNode, Heap.read_free_ne _ hb] at hn
    refine h b n (hn ▸ ?_)
    split <;> rfl

end

end

/-- The descent of `removeData`, as a check on the tree before the call: it goes to the left at a
    greater hash and at a smaller one, and ends at a value with two children that gives way. -/
def takesSuccessorLoop (t : AVLTree) (keyHash : UInt32) (timestamp : LamportClock)
    (strategy : UpdateClockStrategy) (checkTimestamps : Bool) : Nat → Ptr → Bool
  | 0, _ => false
  | _ + 1, none => false
  | fuel + 1, some a =>
    match t.node a with
    | none => false
    | some n =>
      if n.keyHash > keyHash ∨ n.keyHash < keyHash then
        takesSuccessorLoop t keyHash timestamp strategy checkTimestamps fuel n.left
      else
        n.left.isSome && n.right.isSome && n.nodeType == .DATA &&
          (t.dataNode n.data).any fun d => !refuses (.data d) timestamp strategy checkTimestamps

/-- `removeData` would move the successor of a node with two children into its place. -/
def takesSuccessor (t : AVLTree) (keyHash : UInt32) (timestamp : LamportClock)
    (strategy : UpdateClockStrategy) (checkTimestamps : Bool) : Bool :=
  t.takesSuccessorLoop keyHash timestamp strategy checkTimestamps (t.nodes.next + 1) t.root

section keyed
variable {calculateHash : SimpleString → UInt32} {t t' : AVLTree} (h : Keyed calculateHash t)
  {clock clock' timestamp : LamportClock} {key : SimpleString} {result : Option DbEditResult}
  {strategy : UpdateClockStrategy}
include h

/-- A removal that does not move a successor keeps every key with its hash. -/
theorem Keyed.removeRecursiveData {keyHash : UInt32} {checkTimestamps : Bool} {fuel : Nat}
    {e e' : Edit} {removed removed' : Bool} {p p' : Ptr}
    (hnot : t.takesSuccessorLoop keyHash timestamp strategy checkTimestamps fuel p = false)
    (hremove : removeRecursiveData fuel t e removed p keyHash timestamp strategy checkTimestamps
      = some (t', e', removed', p')) : Keyed calculateHash t' := by
  induction fuel generalizing t t' e e' removed removed' p p' with
  | zero => simp [AVLTree.removeRecursiveData] at hremove
  | succ fuel ih =>
    cases p with
    | none =>
      cases hremove
      exact h
    | some last =>
      rw [AVLTree.removeRecursiveData] at hremove
      obtain ⟨n, hn, hremove⟩ := bind_eq_some_iff.mp hremove
      simp only [takesSuccessorLoop, hn] at hnot
      split at hremove
      · -- greater: into the left child, stored as the left child
        next hgt =>
        rw [if_pos (Or.inl hgt)] at hnot
        simp only [bind_eq_bind, bind_eq_some_iff, some.injEq, Prod.mk.injEq] at hremove
        obtain ⟨⟨t₁, e₁, removed₁, q₁⟩, h₁, t₂, h₂, ⟨t₃, q₃⟩, h₃, rfl, -, -⟩ := hremove
        exact ((ih h hnot h₁).setLeft h₂).rebalance h₃
      · next hngt =>
        split at hremove
        · -- smaller: into the left child as well, stored as the right child
          next hlt =>
          rw [if_pos (Or.inr hlt)] at hnot
          simp only [bind_eq_bind, bind_eq_some_iff, some.injEq, Prod.mk.injEq] at hremove
          obtain ⟨⟨t₁, e₁, removed₁, q₁⟩, h₁, t₂, h₂, ⟨t₃, q₃⟩, h₃, rfl, -, -⟩ := hremove
          exact ((ih h hnot h₁).setRight h₂).rebalance h₃
        · next hnlt =>
          rw [if_neg (not_or.mpr ⟨hngt, hnlt⟩)] at hnot
          split at hremove
          · cases hremove
            exact h
          · next htype =>
            obtain ⟨d, hd, hremove⟩ := bind_eq_some_iff.mp hremove
            split at hremove
            · cases hremove
              exact h
            · next hgives =>
              -- the node gives way, so it lacks a child
              have hchild : n.left = none ∨ n.right = none := by
                by_contra hboth
                rw [not_or] at hboth
                have hrefuses : refuses (.data d) timestamp strategy checkTimestamps = false :=
                  Bool.eq_false_iff.mpr hgives
                simp [isSome_iff_ne_none.mpr hboth.1, isSome_iff_ne_none.mpr hboth.2,
                  not_not.mp htype, hd, hrefuses] at hnot
              dsimp only at hremove
              split at hremove
              · next left right hleft hright =>
                simp [hleft, hright] at hchild
              · split at hremove
                · cases hremove
                  exact h.unlink last _
                · simp only [bind_eq_bind, bind_eq_some_iff, some.injEq, Prod.mk.injEq] at hremove
                  obtain ⟨⟨t₁, q⟩, h₁, rfl, -⟩ := hremove
                  exact (h.unlink last _).rebalance h₁

/-! ### Keys stay with their hashes -/

theorem Keyed.addData {value : SimpleString} {requestFromNode : Bool}
    (hcall : t.addData key (calculateHash key) value timestamp strategy clock requestFromNode
      = some (t', clock', result)) : Keyed calculateHash t' := by
  simp only [AVLTree.addData, bind_eq_bind, bind_eq_some_iff, some.injEq,
    Prod.mk.injEq] at hcall
  obtain ⟨⟨t₁, e, p⟩, hinsert, rfl, -⟩ := hcall
  refine (h.newNode key _).insertRecursive ?_ ?_ hinsert
  · intro t x t' x' ht hnull
    simp only [insertDataAtNull, bind_eq_bind, bind_eq_some_iff,
      some.injEq] at hnull
    obtain ⟨n, -, d, -, ⟨⟩⟩ := hnull
    exact ht.of_nodes rfl
  · intro t x a t' x' ht hequal
    simp only [insertDataAtEqual, bind_eq_bind, bind_eq_some_iff] at hequal
    obtain ⟨n, -, hequal⟩ := hequal
    split at hequal
    · cases hequal
    · simp only [bind_eq_some_iff] at hequal
      obtain ⟨newNode, -, d, -, dLast, -, hequal⟩ := hequal
      split at hequal
      · cases hequal
      · cases some.inj hequal
        exact ht.of_nodes rfl

theorem Keyed.addCounter {selfNodeId : UInt16} {nNodes : UInt32} {added : Bool}
    (hcall : t.addCounter key (calculateHash key) selfNodeId nNodes = some (t', added)) :
    Keyed calculateHash t' := by
  simp only [AVLTree.addCounter, bind_eq_bind, bind_eq_some_iff, some.injEq,
    Prod.mk.injEq] at hcall
  obtain ⟨⟨t₁, x, p⟩, hinsert, rfl, -⟩ := hcall
  refine (h.newNode key _).insertRecursive ?_ ?_ hinsert
  · intro t x t' x' ht hnull
    cases hnull
    exact ht
  · intro t x a t' x' _ hequal
    cases hequal

theorem Keyed.removeData {keyHash : UInt32} {checkTimestamps : Bool}
    (hnot : t.takesSuccessor keyHash timestamp strategy checkTimestamps = false)
    (hcall : t.removeData keyHash timestamp strategy clock checkTimestamps
      = some (t', clock', result)) : Keyed calculateHash t' := by
  simp only [AVLTree.removeData, bind_eq_bind, bind_eq_some_iff, some.injEq,
    Prod.mk.injEq] at hcall
  obtain ⟨⟨t₁, e, removed, p⟩, hremove, rfl, -⟩ := hcall
  exact h.removeRecursiveData hnot hremove

theorem Keyed.editCounter {α : Type} {a : Nat} {edit : Counter → Option (Counter × α)} {result : α}
    (hcall : t.editCounter a edit = some (t', result)) : Keyed calculateHash t' := by
  simp only [AVLTree.editCounter, bind_eq_bind, bind_eq_some_iff] at hcall
  obtain ⟨n, -, c, -, ⟨c', r⟩, -, ⟨⟩⟩ := hcall
  exact h.of_nodes rfl

/-- What a lookup shows carries the hash of its key. -/
theorem Keyed.lookup {keyHash : UInt32} {e : MapEntry}
    (hlookup : t.lookup keyHash = some (some e)) : e.keyHash = calculateHash e.key := by
  simp only [AVLTree.lookup, bind_eq_bind, bind_eq_some_iff] at hlookup
  obtain ⟨p, -, hentry⟩ := hlookup
  cases p with
  | none => cases hentry
  | some a =>
    simp only [entry, bind_eq_bind, bind_eq_some_iff, some.injEq] at hentry
    obtain ⟨n, hn, d, -, rfl⟩ := hentry
    exact h a n hn

theorem Keyed.getOrderedByHashRecursive {fuel : Nat} {p : Ptr} {toReturn entries : List MapEntry}
    (hwalk : t.getOrderedByHashRecursive fuel p toReturn = some entries)
    (hbefore : ∀ e ∈ toReturn, e.keyHash = calculateHash e.key) :
    ∀ e ∈ entries, e.keyHash = calculateHash e.key := by
  induction fuel generalizing p toReturn entries with
  | zero => simp [AVLTree.getOrderedByHashRecursive] at hwalk
  | succ fuel ih =>
    cases p with
    | none =>
      cases hwalk
      exact hbefore
    | some a =>
      simp only [AVLTree.getOrderedByHashRecursive, bind_eq_bind,
        bind_eq_some_iff] at hwalk
      obtain ⟨n, hn, left, hleft, d, -, hright⟩ := hwalk
      refine ih hright ?_
      intro e he
      rcases mem_append.mp he with he | he
      · exact ih hleft hbefore e he
      · obtain rfl := mem_singleton.mp he
        exact h a n hn

end keyed

end AVLTree

namespace Map

/-- Walks the buckets in their order. -/
structure BucketMapHashOrderedIterator where
  map : Map
  actualBucket : Nat

/-- A new iterator, before the first bucket. -/
def bucketIterator (m : Map) : BucketMapHashOrderedIterator := ⟨m, 0⟩

/-- The entries of the next bucket; `at` throws behind the last one. -/
def BucketMapHashOrderedIterator.next (it : BucketMapHashOrderedIterator) :
    Option (List MapEntry × BucketMapHashOrderedIterator) := do
  let bucket ← it.map.buckets[it.actualBucket]?
  let entries ← bucket.getOrderedByHash
  some (entries, { it with actualBucket := it.actualBucket + 1 })

section keyed
variable (calculateHash : SimpleString → UInt32)

/-- Every entry that `get` returns, or that an iterator shows at any bucket, carries the hash of its
    key. -/
def KeysFollowHashes (m : Map) : Prop :=
  (∀ key e, m.get calculateHash key = some (some e) → e.keyHash = calculateHash e.key) ∧
  ∀ i entries it, { m.bucketIterator with actualBucket := i }.next = some (entries, it) →
    ∀ e ∈ entries, e.keyHash = calculateHash e.key

/-- Every node of every bucket carries the hash of its key. -/
def Keyed (m : Map) : Prop := ∀ t ∈ m.buckets, t.Keyed calculateHash

variable {calculateHash} {m : Map}

theorem keyed_new (n : UInt32) (hn : 0 < (roundUpPowerOfTwo n).toNat) :
    (Map.new n hn).Keyed calculateHash := by
  intro t ht
  obtain rfl := eq_of_mem_replicate ht
  intro a node hnode
  simp [AVLTree.node, AVLTree.empty, Heap.read, Heap.empty] at hnode

theorem Keyed.getBucket (h : m.Keyed calculateHash) (keyHash : UInt32) :
    (m.getBucket keyHash).Keyed calculateHash :=
  h _ (get_mem _ _)

theorem Keyed.setBucket (h : m.Keyed calculateHash) (keyHash : UInt32) {t : AVLTree}
    (ht : t.Keyed calculateHash) : (m.setBucket keyHash t).Keyed calculateHash := by
  intro t' ht'
  rcases mem_or_eq_of_mem_set ht' with hold | rfl
  · exact h t' hold
  · exact ht

theorem Keyed.addCounterIfAbsent {bucket bucket' : AVLTree} (h : bucket.Keyed calculateHash)
    {key : SimpleString} {selfNodeId : UInt16} {nNodes : UInt32} {added : Bool}
    (hadd : Map.addCounterIfAbsent bucket key (calculateHash key) selfNodeId nNodes
      = some (bucket', added)) : bucket'.Keyed calculateHash := by
  obtain ⟨p, -, hadd⟩ := bind_eq_some_iff.mp hadd
  split at hadd
  · obtain ⟨⟨t, ok⟩, hcall, heq⟩ := map_eq_some_iff.mp hadd
    cases heq
    exact h.addCounter hcall
  · cases hadd
    exact h

theorem Keyed.keysFollowHashes (h : m.Keyed calculateHash) : m.KeysFollowHashes calculateHash := by
  constructor
  · intro key e he
    exact (h.getBucket _).lookup he
  · intro i entries it hnext
    simp only [BucketMapHashOrderedIterator.next, bucketIterator, bind_eq_bind, bind_eq_some_iff,
      some.injEq, Prod.mk.injEq] at hnext
    obtain ⟨bucket, hbucket, listed, hlisted, rfl, -⟩ := hnext
    exact (h bucket (mem_of_getElem? hbucket)).getOrderedByHashRecursive hlisted (by simp)

end keyed

end Map

/-- The call is not a removal that moves a successor. -/
def MapCall.leavesKeys (calculateHash : SimpleString → UInt32) : MapCall → Map → Bool
  | remove key timestamp strategy _ checkTimestamps, m =>
    !(m.getBucket (calculateHash key)).takesSuccessor (calculateHash key) timestamp strategy
      checkTimestamps
  | _, _ => true

section keyed
variable {calculateHash : SimpleString → UInt32}

theorem Map.Keyed.step {m m' : Map} (h : m.Keyed calculateHash) {call : MapCall}
    (hleaves : call.leavesKeys calculateHash m = true)
    (hcall : call.apply calculateHash m = some m') : m'.Keyed calculateHash := by
  cases call with
  | putData key value timestamp strategy clock requestFromNode =>
    simp only [MapCall.apply, Map.putData, bind_eq_bind, map_eq_some_iff,
      bind_eq_some_iff, some.injEq] at hcall
    obtain ⟨-, ⟨⟨bucket, clock', result⟩, hadd, rfl⟩, rfl⟩ := hcall
    exact h.setBucket _ ((h.getBucket _).addData hadd)
  | remove key timestamp strategy clock checkTimestamps =>
    simp only [MapCall.apply, Map.remove, bind_eq_bind, map_eq_some_iff,
      bind_eq_some_iff, some.injEq] at hcall
    obtain ⟨-, ⟨⟨bucket, clock', result⟩, hremove, rfl⟩, rfl⟩ := hcall
    have hnot : (m.getBucket (calculateHash key)).takesSuccessor (calculateHash key) timestamp
        strategy checkTimestamps = false := by simpa [MapCall.leavesKeys] using hleaves
    exact h.setBucket _ ((h.getBucket _).removeData hnot hremove)
  | putCounter key selfNodeId nNodes =>
    simp only [MapCall.apply, Map.putCounter, map_eq_some_iff] at hcall
    obtain ⟨-, ⟨⟨bucket, added⟩, hadd, rfl⟩, rfl⟩ := hcall
    exact h.setBucket _ (Map.Keyed.addCounterIfAbsent (h.getBucket _) hadd)
  | updateCounter key selfNodeId nNodes isIncrement =>
    simp only [MapCall.apply, Map.updateCounter, bind_eq_bind, map_eq_some_iff,
      bind_eq_some_iff] at hcall
    obtain ⟨⟨m₁, result⟩, ⟨⟨bucket, added⟩, hadd, p, -, a, -, n, -, hcall⟩, rfl⟩ := hcall
    have hbucket := Map.Keyed.addCounterIfAbsent (h.getBucket _) hadd
    -- a value under the key is an error, a counter is counted on
    split at hcall
    · cases hcall
      exact h.setBucket _ hbucket
    · simp only [bind_eq_some_iff] at hcall
      obtain ⟨⟨bucket', value⟩, hedit, hcall⟩ := hcall
      cases hcall
      exact h.setBucket _ (hbucket.editCounter hedit)
  | get key =>
    obtain ⟨e, -, rfl⟩ := map_eq_some_iff.mp hcall
    exact h

/-- In a run in which no removal moves a successor into the place of a node with two children, every
    entry carries the hash of its key. -/
theorem keys_follow_hashes {n : UInt32} {hn : 0 < (roundUpPowerOfTwo n).toNat}
    {calls : List MapCall} {m : Map}
    (hrun : Run.run (MapCall.apply calculateHash) calls (Map.new n hn) = some m)
    (hleaves : Run.Guarded (MapCall.apply calculateHash)
      (fun call m => call.leavesKeys calculateHash m = true) calls (Map.new n hn)) :
    m.KeysFollowHashes calculateHash := by
  have hkeyed : m.Keyed calculateHash :=
    Run.invariant (fun _ _ _ hm hcall hstep => hm.step hcall hstep)
      (Map.keyed_new n hn) hleaves hrun
  exact hkeyed.keysFollowHashes

/-- Three writes, and a removal of the root once it has lost its left child. -/
theorem keys_follow_hashes_one_child :
    ∃ m, Run.run (MapCall.apply shortKeyHash) [.write [2] 2, .write [1] 1, .write [3] 3,
        .remove [1] ⟨1, 2⟩ .SET_MAX ⟨1, 1⟩ true, .remove [2] ⟨1, 2⟩ .SET_MAX ⟨1, 1⟩ true]
        (Map.new 1 (by decide)) = some m ∧ m.KeysFollowHashes shortKeyHash := by
  obtain ⟨m, hm⟩ : ∃ m, Run.checkedRun (MapCall.apply shortKeyHash)
    (MapCall.leavesKeys shortKeyHash) [.write [2] 2, .write [1] 1, .write [3] 3,
      .remove [1] ⟨1, 2⟩ .SET_MAX ⟨1, 1⟩ true, .remove [2] ⟨1, 2⟩ .SET_MAX ⟨1, 1⟩ true]
    (Map.new 1 (by decide)) = some m := ⟨_, rfl⟩
  obtain ⟨hrun, hleaves⟩ := Run.checkedRun_eq_some hm
  exact ⟨m, hrun, keys_follow_hashes hrun hleaves⟩

/-- The removal of `2` while `1` and `3` are its children leaves a node with the key `2` and the
    hash of `3`. -/
theorem successor_loses_key :
    ¬ ∀ n hn calls m, (∀ c ∈ calls, ∀ c' ∈ calls, shortKeyHash c.key = shortKeyHash c'.key →
        c.key = c'.key) →
      Run.run (MapCall.apply shortKeyHash) calls (Map.new n hn) = some m →
      m.KeysFollowHashes shortKeyHash := by
  obtain ⟨m, hm, hget⟩ : ∃ m, Run.run (MapCall.apply shortKeyHash) [.write [2] 2, .write [1] 1,
      .write [3] 3, .remove [2] ⟨1, 2⟩ .SET_MAX ⟨1, 1⟩ true] (Map.new 1 (by decide)) = some m ∧
        m.get shortKeyHash [3] = some (some ⟨[2], 3, .DATA, .data ⟨[3], ⟨1, 1⟩⟩⟩) := by
    decide +kernel
  intro hall
  exact absurd ((hall 1 (by decide) _ m (by decide) hm).1 [3] _ hget) (by decide)

end keyed

end MemDb

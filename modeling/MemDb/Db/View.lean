import MemDb.Db.Edits
import Mathlib.Data.List.Perm.Subperm
import Mathlib.Data.List.Range
import Mathlib.Logic.Function.Basic

/-! # The tree as a map from hashes to entries

    What a bucket is for: a map from hashes to entries (`View`). `Holds t s` is the invariant of a
    tree (its nodes form the ordered shape `s`, each with data of its own kind), `WellFormed t`
    hides the shape, and `view` is the map that the lookups of such a tree compute. The edits of the
    source refine the edits of the map: `addData` and `addCounter` always (`addData_spec`,
    `addCounter_spec`), `removeData` where its descent is safe (`removeData_removed`,
    `removeData_kept`). For the insertions the specifications also say what becomes of the tree
    itself, with its stored heights (`tree`).
-/

namespace MemDb

open Lib SearchTree List Option Function UInt32

/-- The abstract content of a tree. -/
abbrev View := UInt32 → Option MapEntry

namespace View

/-- The entry stored under `h`, if any, gives way to an edit. -/
def accepts (V : View) (h : UInt32) (timestamp : LamportClock) (strategy : UpdateClockStrategy)
    (checkTimestamps : Bool) : Bool :=
  match V h with
  | none => true
  | some e => !AVLTree.refuses e.data timestamp strategy checkTimestamps

/-- The entry after an accepted write: a new one, or the old one with new data (its key
    stays). -/
def written (V : View) (key : SimpleString) (h : UInt32) (d : DataAVLNode) : MapEntry :=
  match V h with
  | none => ⟨key, h, .DATA, .data d⟩
  | some e => { e with data := .data d }

/-- An accepted write. -/
def put (V : View) (key : SimpleString) (h : UInt32) (d : DataAVLNode) : View :=
  update V h (some (V.written key h d))

/-- A removal. -/
def erase (V : View) (h : UInt32) : View := update V h none

@[simp] theorem put_self (V : View) (key : SimpleString) (h : UInt32) (d : DataAVLNode) :
    V.put key h d h = some (V.written key h d) := by
  simp [put]

theorem put_ne (V : View) (key : SimpleString) {h h' : UInt32} (hne : h' ≠ h)
    (d : DataAVLNode) : V.put key h d h' = V h' := by
  simp [put, hne]

@[simp] theorem erase_self (V : View) (h : UInt32) : V.erase h h = none := by
  simp [erase]

theorem erase_ne (V : View) {h h' : UInt32} (hne : h' ≠ h) : V.erase h h' = V h' := by
  simp [erase, hne]

@[simp] theorem written_data (V : View) (key : SimpleString) (h : UInt32) (d : DataAVLNode) :
    (V.written key h d).data = .data d := by
  unfold written
  split <;> rfl

end View

namespace AVLTree

/-- The invariant: the tree is the ordered shape `s`, and its nodes have data cells of their
    own, of the kind their type says. -/
structure Holds (t : AVLTree) (s : SearchTree Cell) : Prop where
  root : t.root = rootPtr s
  rep : Rep t s
  nodup : (addrs s).Nodup
  ordered : s.Ordered Cell.hash
  data : ∀ c ∈ s.toList, ∃ d, t.datas.read c.data = some d ∧ d.nodeType = c.nodeType
  data_nodup : (s.toList.map (·.data)).Nodup

/-- Some shape is held. -/
def WellFormed (t : AVLTree) : Prop := ∃ s, Holds t s

/-- The map that lookups compute. -/
def view (t : AVLTree) : View := fun h => (t.lookup h).join

/-- The hash at the root, where refusals are reported as errors. -/
def rootHash (t : AVLTree) : Option UInt32 := t.root.bind fun a => (t.node a).map (·.keyHash)

/-- The entry of a node. -/
def cellEntry (t : AVLTree) (c : Cell) : Option MapEntry :=
  (t.datas.read c.data).map fun d => ⟨c.key, c.keyHash, c.nodeType, d⟩

/-- The nodes below `p`, with the heights they store. -/
def readTree (t : AVLTree) : Nat → Ptr → Option (HeightTree Cell)
  | 0, _ => none
  | _ + 1, none => some .nil
  | fuel + 1, some a => do
    let n ← t.node a
    let l ← readTree t fuel n.left
    let r ← readTree t fuel n.right
    some (.node l (⟨a, n.key, n.keyHash, n.data, n.nodeType⟩, n.height) r)

/-- The tree that the pointers form from the root. -/
def tree (t : AVLTree) : Option (HeightTree Cell) := t.readTree (t.nodes.next + 1) t.root

theorem wellFormed_empty : WellFormed empty :=
  ⟨.nil, rfl, trivial, by simp, by simp, by simp, by simp⟩

/-! ### Lookups -/

variable {s s' : SearchTree Cell} {t t' : AVLTree} {h : UInt32}

theorem getLoop_spec (hrep : Rep t s) (h : UInt32) {fuel : Nat} (hfuel : s.toList.length < fuel) :
    t.getLoop h fuel (rootPtr s) = some ((s.find Cell.hash h.toNat).map (·.addr)) := by
  induction s generalizing fuel with
  | nil =>
    obtain ⟨fuel, rfl⟩ : ∃ k, fuel = k + 1 := ⟨fuel - 1, by omega⟩
    rfl
  | node l c r ihl ihr =>
    obtain ⟨fuel, rfl⟩ : ∃ k, fuel = k + 1 := ⟨fuel - 1, by omega⟩
    simp only [toList_node, length_append, length_cons] at hfuel
    obtain ⟨⟨height, -, hc⟩, hl, hr⟩ := hrep
    simp only [rootPtr_node, getLoop, hc, bind_eq_bind, bind_some, find,
      Cell.hash, UInt32.toNat_inj, ← UInt32.lt_iff_toNat_lt]
    split
    · rfl
    · split
      · exact ihl hl (by omega)
      · exact ihr hr (by omega)

theorem Holds.length_le (hs : Holds t s) :
    s.toList.length ≤ t.nodes.next := by
  have hsub : addrs s ⊆ List.range t.nodes.next :=
    fun a ha => mem_range.mpr (hs.rep.lt_next a ha)
  simpa [addrs] using (subperm_of_subset hs.nodup hsub).length_le

theorem readTree_spec {t : AVLTree} {s : SearchTree Cell} (hrep : Rep t s) {fuel : Nat}
    (hfuel : s.toList.length < fuel) : t.readTree fuel (rootPtr s) = some (heights t s) := by
  induction s generalizing fuel with
  | nil =>
    obtain ⟨fuel, rfl⟩ : ∃ k, fuel = k + 1 := ⟨fuel - 1, by omega⟩
    rfl
  | node l c r ihl ihr =>
    obtain ⟨fuel, rfl⟩ : ∃ k, fuel = k + 1 := ⟨fuel - 1, by omega⟩
    simp only [toList_node, length_append, length_cons] at hfuel
    obtain ⟨⟨height, -, hc⟩, hl, hr⟩ := hrep
    have hreadl := @ihl hl fuel (by omega)
    have hreadr := @ihr hr fuel (by omega)
    simp [readTree, hc, hreadl, hreadr, heightAt]

theorem Holds.tree (hs : Holds t s) :
    t.tree = some (heights t s) := by
  rw [AVLTree.tree, hs.root]
  exact readTree_spec hs.rep (Nat.lt_succ_of_le hs.length_le)

theorem Holds.get (hs : Holds t s) (h : UInt32) :
    t.get h = some ((s.find Cell.hash h.toNat).map (·.addr)) := by
  rw [AVLTree.get, hs.root]
  exact getLoop_spec hs.rep h (Nat.lt_succ_of_le hs.length_le)

/-- A lookup in a well-formed tree returns, and follows the descent in the shape. -/
theorem Holds.lookup (hs : Holds t s) (h : UInt32) :
    t.lookup h = some ((s.find Cell.hash h.toNat).bind (cellEntry t)) := by
  have hget := hs.get h
  cases hf : s.find Cell.hash h.toNat with
  | none => simp [AVLTree.lookup, hget, hf, entry]
  | some c =>
    obtain ⟨hmem, -⟩ := (find_eq_some_iff Cell.hash hs.ordered).mp hf
    obtain ⟨d, hd, -⟩ := hs.data c hmem
    obtain ⟨p, q, k, -, hnode⟩ := hs.rep.nodeAt_of_mem hmem
    simp [AVLTree.lookup, hget, hf, entry, hnode, hd, cellEntry]

theorem WellFormed.lookup (hwf : WellFormed t) (h : UInt32) :
    t.lookup h = some (t.view h) := by
  obtain ⟨s, hs⟩ := hwf
  rw [view, hs.lookup h]
  rfl

theorem Holds.view_eq_some_iff (hs : Holds t s) {e : MapEntry} :
    t.view h = some e ↔ ∃ c ∈ s.toList, c.keyHash = h ∧ cellEntry t c = some e := by
  rw [view, hs.lookup h, join_some, bind_eq_some_iff]
  constructor
  · rintro ⟨c, hf, hce⟩
    obtain ⟨hmem, hkey⟩ := (find_eq_some_iff Cell.hash hs.ordered).mp hf
    exact ⟨c, hmem, UInt32.toNat_inj.mp hkey, hce⟩
  · rintro ⟨c, hmem, rfl, hce⟩
    exact ⟨c, (find_eq_some_iff Cell.hash hs.ordered).mpr ⟨hmem, rfl⟩, hce⟩

theorem Holds.find_eq_none_iff (hs : Holds t s) :
    s.find Cell.hash h.toNat = none ↔ t.view h = none := by
  rw [view, hs.lookup h, join_some]
  cases hfind : s.find Cell.hash h.toNat with
  | none => simp
  | some c =>
    obtain ⟨d, hd, -⟩ := hs.data c ((find_eq_some_iff Cell.hash hs.ordered).mp hfind).1
    simp [cellEntry, hd]

theorem Holds.view_eq_none_iff (hs : Holds t s) :
    t.view h = none ↔ ∀ c ∈ s.toList, c.hash ≠ h.toNat :=
  hs.find_eq_none_iff.symm.trans (SearchTree.find_eq_none_iff Cell.hash hs.ordered)

/-- The node of an entry. -/
theorem Holds.exists_cell (hs : Holds t s) {e : MapEntry} (hv : t.view h = some e) :
    ∃ c ∈ s.toList, s.find Cell.hash h.toNat = some c ∧ c.keyHash = h ∧
      t.datas.read c.data = some e.data ∧ e.data.nodeType = c.nodeType ∧
      e = ⟨c.key, c.keyHash, c.nodeType, e.data⟩ := by
  obtain ⟨c, hc, rfl, hce⟩ := hs.view_eq_some_iff.mp hv
  obtain ⟨d, hd, rfl⟩ := map_eq_some_iff.mp hce
  obtain ⟨d', hd', htype⟩ := hs.data c hc
  cases hd.symm.trans hd'
  exact ⟨c, hc, (find_eq_some_iff Cell.hash hs.ordered).mpr ⟨hc, rfl⟩, rfl, hd, htype, rfl⟩

/-- Two well-formed trees with the same nodes and data under a hash agree on it. -/
theorem Holds.view_congr (hs : Holds t s) (hs' : Holds t' s')
    (hmem : ∀ c : Cell, c.keyHash = h → (c ∈ s'.toList ↔ c ∈ s.toList))
    (hdata : ∀ c ∈ s.toList, c.keyHash = h → t'.datas.read c.data = t.datas.read c.data) :
    t'.view h = t.view h := by
  apply Option.ext
  intro e
  rw [hs.view_eq_some_iff, hs'.view_eq_some_iff]
  constructor
  · rintro ⟨c, hc, hkey, hce⟩
    have hc' := (hmem c hkey).mp hc
    exact ⟨c, hc', hkey, by rwa [cellEntry, hdata c hc' hkey] at hce⟩
  · rintro ⟨c, hc, hkey, hce⟩
    exact ⟨c, (hmem c hkey).mpr hc, hkey, by rwa [cellEntry, hdata c hc hkey]⟩

/-! ### Insertion -/

/-- The node that `newNode` allocates. -/
def newCell (t : AVLTree) (key : SimpleString) (h : UInt32) (d : NodeData) : Cell :=
  ⟨t.nodes.next, key, h, t.datas.next, d.nodeType⟩

/-- A tree with the same cells is the same tree. -/
theorem Holds.frame (hs : Holds t s) (t' : AVLTree) (hroot : t'.root = t.root)
    (hnode : ∀ a ∈ addrs s, t'.node a = t.node a)
    (hread : ∀ c ∈ s.toList, t'.datas.read c.data = t.datas.read c.data) :
    Holds t' s ∧ t'.view = t.view ∧ t'.tree = t.tree ∧ t'.rootHash = t.rootHash := by
  have hs' : Holds t' s := by
    refine ⟨hroot.trans hs.root, hs.rep.congr hnode, hs.nodup, hs.ordered,
      fun c hc => ?_, hs.data_nodup⟩
    rw [hread c hc]
    exact hs.data c hc
  refine ⟨hs', ?_, by rw [hs'.tree, hs.tree, heights_congr hnode], ?_⟩
  · funext h
    exact hs.view_congr hs' (fun _ _ => Iff.rfl) fun c hc _ => hread c hc
  · unfold rootHash
    rw [hroot]
    cases hr : t.root with
    | none => rfl
    | some a => rw [bind_some, bind_some, hnode a (rootPtr_mem (hs.root.symm.trans hr))]

theorem heightAt_newCell (t : AVLTree) (key : SimpleString) (h : UInt32) (d : NodeData) :
    (t.newNode key h d).heightAt (t.newCell key h d) = -1 := by
  have hnode : (t.newNode key h d).node (t.newCell key h d).addr = _ := Heap.read_alloc_next _ _
  rw [heightAt, hnode]
  rfl

/-- The root has the hash of a node only if it is that node. -/
theorem Holds.rootHash_eq_iff (hs : Holds t s) {c : Cell} (hc : c ∈ s.toList) :
    t.rootHash = some c.keyHash ↔ t.root = some c.addr := by
  rw [rootHash, hs.root]
  cases s with
  | nil => simp at hc
  | node l y r =>
    obtain ⟨⟨_, _, hnode⟩, -, -⟩ := hs.rep
    rw [rootPtr_node, bind_some, hnode, map_some, some.injEq, some.injEq]
    constructor
    · intro hkey
      rw [eq_of_key_eq Cell.hash hs.ordered (by simp) hc (congrArg UInt32.toNat hkey)]
    · intro haddr
      rw [inj_on_of_nodup_map hs.nodup (by simp) hc haddr]

theorem Holds.placed (hs : Holds t s) : Placed t s := ⟨hs.rep, hs.nodup, .inl hs.root⟩

/-- An edit of the whole tree that brings data of its own with each node keeps the invariant, and
    the view at the other hashes. -/
theorem Holds.edited {A : List Nat} {mid mid' : List Cell} (hs : Holds t s)
    (hed : Edited A t s t' s') (hspliced : Spliced Cell.hash mid mid' s s')
    (hdata : ∀ c ∈ mid', ∃ d, t.datas.read c.data = some d ∧ d.nodeType = c.nodeType)
    (hnd : ((mid' ++ s.toList).map (·.data)).Nodup) :
    Holds t' s' ∧ ∀ h, (∀ c ∈ mid ++ mid', c.keyHash ≠ h) → t'.view h = t.view h := by
  have hperm := hspliced.perm
  have hs' : Holds t' s' := by
    refine ⟨?_, hed.rep, hed.nodup, hspliced.ordered hs.ordered, fun c hc => ?_, ?_⟩
    · rcases hed.root with ⟨-, hroot⟩ | ⟨-, habove, -⟩
      · exact hroot
      · exact absurd hs.root habove.ne_rootPtr
    · rw [hed.datas]
      exact (mem_append.mp (hperm.mem_iff.mpr (mem_append_right _ hc))).elim (hdata c) (hs.data c)
    · have := (hperm.map (·.data)).nodup_iff.mp hnd
      rw [map_append] at this
      exact (nodup_append.mp this).2.1
  refine ⟨hs', fun h hne => hs.view_congr hs' (fun c hkey => ?_) fun c _ _ => by rw [hed.datas]⟩
  have hmem := hperm.mem_iff (a := c)
  simp only [mem_append] at hmem hne
  have := hne c
  tauto

/-- A rearrangement of the whole tree keeps the invariant and the view. -/
theorem Holds.rebuilds (hs : Holds t s) (hed : Edited [] t s t' s')
    (hspliced : Spliced Cell.hash [] [] s s') : Holds t' s' ∧ t'.view = t.view := by
  obtain ⟨hs', hview⟩ := hs.edited hed hspliced (by simp) hs.data_nodup
  exact ⟨hs', funext fun h => hview h (by simp)⟩

theorem Holds.setDatas (hs : Holds t s) {datas : Heap NodeData}
    (hdata : ∀ c ∈ s.toList, ∃ d, datas.read c.data = some d ∧ d.nodeType = c.nodeType) :
    Holds { t with datas := datas } s :=
  ⟨hs.root, hs.rep.congr fun _ _ => rfl, hs.nodup, hs.ordered, hdata, hs.data_nodup⟩

/-- Storing new data at the node of `c`: the view changes at its hash only. -/
theorem Holds.writeData (hs : Holds t s) {c : Cell} (hc : c ∈ s.toList) {x : NodeData}
    (htype : x.nodeType = c.nodeType) : Holds { t with datas := t.datas.write c.data x } s ∧
      view { t with datas := t.datas.write c.data x } =
        update t.view c.keyHash (some ⟨c.key, c.keyHash, c.nodeType, x⟩) := by
  have hself : (t.datas.write c.data x).read c.data = some x := by
    obtain ⟨d, hd, -⟩ := hs.data c hc
    exact Heap.read_write_self (Heap.read_lt_next hd) _
  have hother : ∀ c' ∈ s.toList, c' ≠ c →
      (t.datas.write c.data x).read c'.data = t.datas.read c'.data := by
    intro c' hc' hne
    refine Heap.read_write_ne _ (fun heq => hne ?_) _
    exact inj_on_of_nodup_map hs.data_nodup hc' hc heq
  have hs' : Holds { t with datas := t.datas.write c.data x } s := by
    refine hs.setDatas fun c' hc' => ?_
    by_cases heq : c' = c
    · subst heq
      exact ⟨x, hself, htype⟩
    · rw [hother c' hc' heq]
      exact hs.data c' hc'
  refine ⟨hs', eq_update_iff.mpr ⟨?_, fun h' hne => ?_⟩⟩
  · exact hs'.view_eq_some_iff.mpr ⟨c, hc, rfl, by simp [cellEntry, hself]⟩
  · refine hs.view_congr hs' (fun _ _ => Iff.rfl) fun c' hc' hkey => hother c' hc' fun heq => hne ?_
    rw [← hkey, heq]

/-- The tree holds `s`, and `new` is an allocated node with data `d` that is not linked in. -/
structure Fresh (t : AVLTree) (s : SearchTree Cell) (new : Cell) (d : NodeData) : Prop where
  holds : Holds t s
  node : NodeAt t new none none
  read : t.datas.read new.data = some d
  type : d.nodeType = new.nodeType
  addr : new.addr ∉ addrs s
  root : t.root ≠ some new.addr
  data : ∀ c ∈ s.toList, c.data ≠ new.data

/-- Allocating a node changes nothing that the tree holds. -/
theorem Holds.fresh (hs : Holds t s) (key : SimpleString) (h : UInt32) (d : NodeData) :
    Fresh (t.newNode key h d) s (t.newCell key h d) d ∧ (t.newNode key h d).view = t.view ∧
      (t.newNode key h d).tree = t.tree ∧ (t.newNode key h d).rootHash = t.rootHash := by
  have hlt : ∀ c ∈ s.toList, c.data < t.datas.next := by
    intro c hc
    obtain ⟨x, hx, -⟩ := hs.data c hc
    exact Heap.read_lt_next hx
  have hnot : (t.newCell key h d).addr ∉ addrs s :=
    fun hmem => Nat.lt_irrefl _ (hs.rep.lt_next _ hmem)
  obtain ⟨hs', hsame⟩ := hs.frame (t.newNode key h d) rfl
    (fun a ha => Heap.read_alloc_of_lt _ _ (hs.rep.lt_next a ha))
    fun c hc => Heap.read_alloc_of_lt _ _ (hlt c hc)
  exact ⟨⟨hs', ⟨-1, by omega, Heap.read_alloc_next _ _⟩, Heap.read_alloc_next _ _, rfl, hnot,
    fun hroot => hnot (rootPtr_mem (hs.root.symm.trans hroot)), fun c hc => (hlt c hc).ne⟩, hsame⟩

section insertRecursive
variable {σ : Type} {atNull : AVLTree → σ → Option (AVLTree × σ)}
  {atEqual : AVLTree → σ → Nat → Option (Option (AVLTree × σ))} {x x1 : σ} {new c : Cell}
  {d v : NodeData} (hf : Fresh t s new d)
include hf

/-- The new node is linked in where its hash is absent, with the data that it gets there. -/
theorem Fresh.insertRecursive_linked (atEqual : AVLTree → σ → Nat → Option (Option (AVLTree × σ)))
    (hnull : atNull t x = some ({ t with datas := t.datas.write new.data v }, x1))
    (hv : v.nodeType = new.nodeType) (habs : t.view new.keyHash = none) :
    ∃ t' p, insertRecursive atNull atEqual new.addr (t.nodes.next + 1) t x t.root
        = some (t', x1, p) ∧ p ≠ none ∧ WellFormed t' ∧
      t'.view = update t.view new.keyHash (some ⟨new.key, new.keyHash, new.nodeType, v⟩) ∧
      t'.tree = t.tree.map (·.edit Cell.hash new.hash (SearchTree.link (new, t.heightAt new))) := by
  have hs := hf.holds
  have hread : ∀ c ∈ s.toList, (t.datas.write new.data v).read c.data = t.datas.read c.data :=
    fun c hc => Heap.read_write_ne _ (hf.data c hc) _
  have hself : (t.datas.write new.data v).read new.data = some v :=
    Heap.read_write_self (Heap.read_lt_next hf.read) _
  obtain ⟨hs1, hview1, -⟩ := hs.frame { t with datas := t.datas.write new.data v } rfl
    (fun _ _ => rfl) hread
  obtain ⟨t', s', ⟨p, hrun, hp⟩, hheights, hspliced, hed⟩ :=
    (insertReturns_descent hf.node hf.node rfl _ _).edits [new.addr] [] [new] (by simp)
      (Nat.lt_succ_of_le hs1.length_le) hs1.placed trivial (by simpa using hf.addr)
      (fun _ _ => insertReturns_nil atEqual hnull hf.node hf.root new.addr) (by
        intro l c r hfind
        cases hfind.symm.trans (hs.find_eq_none_iff.mpr habs))
  have hmem : new ∈ s'.toList := hspliced.perm.mem_iff.mp (by simp)
  obtain ⟨hs', hother⟩ := hs1.edited hed hspliced (by simpa using ⟨v, hself, hv⟩) (by
    simpa [hs.data_nodup] using hf.data)
  rw [← hs.root] at hrun hp
  refine ⟨t', p, hrun, ?_, ⟨s', hs'⟩, eq_update_iff.mpr ⟨?_, fun h hne => ?_⟩, ?_⟩
  · rcases hp with ⟨-, rfl, hne⟩ | ⟨hroot, -⟩
    · exact hne
    · exact absurd hroot hf.root
  · exact hs'.view_eq_some_iff.mpr ⟨new, hmem, rfl, by simp [cellEntry, hed.datas, hself]⟩
  · rw [hother h (by simpa using hne.symm), hview1]
  · rw [hs'.tree, hheights, hs.tree]
    rfl

variable (atNull atEqual x x1) in
/-- An insertion that ends at the node `c` with the same hash, and keeps the nodes. -/
theorem Fresh.insertRecursive_present (hfind : s.find Cell.hash new.hash = some c)
    {datas : Heap NodeData} (hs1 : Holds { t with datas := datas } s) {y : Cell} {left right : Ptr}
    (hy : NodeAt t y left right) (heq : y.hash = new.hash)
    (found : HeightTree Cell → HeightTree Cell)
    (hhere : ∀ l r fuel, Placed { t with datas := datas } (.node l c r) → ∃ t' s',
      InsertReturns atNull atEqual new.addr t x x1 y.addr (fuel + 1) (some c.addr) t' (rootPtr s') ∧
      heights t' s' = found (heights { t with datas := datas } (.node l c r)) ∧
      Rebuilds { t with datas := datas } (.node l c r) t' s') :
    ∃ t' p, insertRecursive atNull atEqual new.addr (t.nodes.next + 1) t x t.root
        = some (t', x1, p) ∧ (p = none ↔ t.root = some y.addr) ∧ WellFormed t' ∧
      t'.view = view { t with datas := datas } ∧
      t'.tree = t.tree.map (·.edit Cell.hash new.hash found) := by
  obtain ⟨t', s', ⟨p, hrun, hp⟩, hheights, hspliced, hed⟩ :=
    (insertReturns_descent hf.node hy heq datas found).edits [] [] [] (by simp)
      (Nat.lt_succ_of_le hs1.length_le) hs1.placed trivial (by simp) (by simp [hfind]) (by
        intro l z r hz hhash hplaced _ fuel
        obtain rfl : c = z := some.inj (hfind.symm.trans hz)
        obtain ⟨t', s', hret, hheights, hre⟩ := hhere l r fuel hplaced
        exact ⟨t', s', hret, hheights.trans (edit_here hhash found _ _).symm,
          spliced_of_eq _ hre.toList, hre.toEdited⟩)
  obtain ⟨hs', hview⟩ := hs1.rebuilds hed hspliced
  rw [← show t.root = rootPtr s from hs1.root] at hrun hp
  refine ⟨t', p, hrun, ?_, ⟨s', hs'⟩, hview, ?_⟩
  · rcases hp with ⟨hne, rfl, hsome⟩ | ⟨hroot, hnone, -⟩
    · exact iff_of_false hsome hne
    · exact iff_of_true hnone hroot
  · rw [hs'.tree, hheights, hf.holds.tree]
    rfl

/-- A write that the node `c` with the same hash accepts. -/
theorem Fresh.insertRecursive_written (atNull : AVLTree → σ → Option (AVLTree × σ))
    (hfind : s.find Cell.hash new.hash = some c) (hv : v.nodeType = c.nodeType)
    (hat : atEqual t x c.addr = some (some ({ t with datas := t.datas.write c.data v }, x1))) :
    ∃ t' p, insertRecursive atNull atEqual new.addr (t.nodes.next + 1) t x t.root
        = some (t', x1, p) ∧ p ≠ none ∧ WellFormed t' ∧
      t'.view = update t.view c.keyHash (some ⟨c.key, c.keyHash, c.nodeType, v⟩) ∧
      t'.tree = t.tree.map (·.edit Cell.hash new.hash SearchTree.revisit) := by
  obtain ⟨hc, hhash⟩ := (find_eq_some_iff Cell.hash hf.holds.ordered).mp hfind
  obtain ⟨hs1, hview1⟩ := hf.holds.writeData hc hv
  obtain ⟨t', p, hrun, hp, hwf, hview, htree⟩ := hf.insertRecursive_present atNull atEqual x x1
    hfind hs1 hf.node rfl SearchTree.revisit (by
    intro l r fuel hplaced
    obtain ⟨t', s', hreb, hheights, hre⟩ := rebalance_spec hplaced
    refine ⟨t', s', ⟨_, ?_, .inl ⟨fun heq => hf.addr ?_, rfl, ?_⟩⟩, hheights, hre⟩
    · rw [insertRecursive_equal hf.node hplaced.rep.1 hhash, hat]
      simp [hreb]
    · exact some.inj heq ▸ mem_map_of_mem hc
    · exact rootPtr_ne_none_of_mem (show c ∈ s'.toList by rw [hre.toList]; simp))
  exact ⟨t', p, hrun, fun hnone => hf.root (hp.mp hnone), hwf, hview.trans hview1, htree⟩

/-- An insertion that the node `c` with the same hash turns down is an error only if `c` is
    at the root; below the root the callers of the recursion see a pointer. -/
theorem Fresh.insertRecursive_refused (atNull : AVLTree → σ → Option (AVLTree × σ))
    (hfind : s.find Cell.hash new.hash = some c) (hat : atEqual t x c.addr = some none) :
    ∃ t' p, insertRecursive atNull atEqual new.addr (t.nodes.next + 1) t x t.root
        = some (t', x, p) ∧ (p = none ↔ t.rootHash = some new.keyHash) ∧
      WellFormed t' ∧ t'.view = t.view ∧ t'.tree = t.tree.map (·.edit Cell.hash new.hash id) := by
  obtain ⟨hc, hhash⟩ := (find_eq_some_iff Cell.hash hf.holds.ordered).mp hfind
  obtain ⟨left, right, hnode⟩ := hf.holds.rep.nodeAt_of_mem hc
  rw [← UInt32.toNat_inj.mp hhash, hf.holds.rootHash_eq_iff hc]
  refine hf.insertRecursive_present atNull atEqual x x hfind hf.holds hnode hhash id
    fun l r fuel hplaced =>
    ⟨t, .node l c r, ⟨none, ?_, .inr ⟨rfl, rfl, rfl, rfl⟩⟩, rfl, hplaced.refl⟩
  rw [insertRecursive_equal hf.node hplaced.rep.1 hhash, hat]
  rfl

end insertRecursive

section insertData

variable {t : AVLTree} {s : SearchTree Cell} {new : Cell} {x : DataAVLNode}
  {timestamp : LamportClock} {strategy : UpdateClockStrategy} {requestFromNode : Bool} {e : Edit}

/-- The timestamp a write is stored under, given the clock before it. -/
def stamped (clock timestamp : LamportClock) (strategy : UpdateClockStrategy)
    (requestFromNode : Bool) : LamportClock :=
  stamp timestamp (clock.update strategy timestamp.counter).2 requestFromNode

section
variable (hf : Fresh t s new (.data x))
include hf

theorem insertDataAtNull_eq :
    insertDataAtNull new.addr timestamp strategy requestFromNode t e
      = some (t.setDataNode new.data ⟨x.value, stamped e.clock timestamp strategy
          requestFromNode⟩,
        ⟨(e.clock.update strategy timestamp.counter).1,
          ⟨(stamped e.clock timestamp strategy requestFromNode).counter⟩⟩) := by
  obtain ⟨_, _, hnode⟩ := hf.node
  have hval : t.dataNode new.data = some x := by simp [dataNode, hf.read]
  simp only [insertDataAtNull, hnode, hval, bind_eq_bind, bind_some]
  rfl

section
variable {c : Cell} (hc : c ∈ s.toList) {d : NodeData} (hd : t.datas.read c.data = some d)
  (htype : d.nodeType = c.nodeType)
include hc hd htype

theorem insertDataAtEqual_eq :
    insertDataAtEqual new.addr timestamp strategy requestFromNode t e c.addr =
      some (if refuses d timestamp strategy requestFromNode then none
        else some (t.setDataNode c.data ⟨x.value, stamped e.clock timestamp strategy
            requestFromNode⟩,
          ⟨(e.clock.update strategy timestamp.counter).1,
            ⟨(stamped e.clock timestamp strategy requestFromNode).counter⟩⟩)) := by
  obtain ⟨_, _, hnode⟩ := hf.node
  obtain ⟨_, _, _, _, hcnode⟩ := hf.holds.rep.nodeAt_of_mem hc
  have hval : t.dataNode new.data = some x := by simp [dataNode, hf.read]
  cases d with
  | counter k =>
    have htype' : c.nodeType ≠ .DATA := by rw [← htype]; simp [NodeData.nodeType]
    simp [insertDataAtEqual, hcnode, htype', refuses]
  | data y =>
    have htype' : c.nodeType = .DATA := htype.symm
    have hdata : t.dataNode c.data = some y := by simp [dataNode, hd]
    simp only [insertDataAtEqual, hcnode, htype', hnode, hval, hdata, ne_eq, not_true_eq_false,
      if_false, bind_eq_bind, bind_some, apply_ite some]
    rfl

end

end

end insertData

/-- A write to a hash that is absent or gives way is stored under its stamp. One that the stored
    entry refuses changes nothing; the caller is told so only if the entry is at the root of the
    tree, and otherwise gets a success with timestamp `0`. -/
theorem addData_spec {t : AVLTree} (hwf : WellFormed t) (key : SimpleString) (h : UInt32)
    (value : SimpleString) (timestamp : LamportClock) (strategy : UpdateClockStrategy)
    (clock : LamportClock) (requestFromNode : Bool) :
    ∃ t' clock' result, t.addData key h value timestamp strategy clock requestFromNode
        = some (t', clock', result) ∧ WellFormed t' ∧
      (t.view.accepts h timestamp strategy requestFromNode = true ∧
          clock' = (clock.update strategy timestamp.counter).1 ∧
          result = some ⟨(stamped clock timestamp strategy requestFromNode).counter⟩ ∧
          t'.view = t.view.put key h ⟨value, stamped clock timestamp strategy requestFromNode⟩ ∧
          t'.tree = t.tree.map (·.edit Cell.hash h.toNat
            (if t.view h = none then SearchTree.link (t.newCell key h (.data ⟨value, ⟨0, 0⟩⟩), -1)
              else SearchTree.revisit)) ∨
        t.view.accepts h timestamp strategy requestFromNode = false ∧ clock' = clock ∧
          result = (if t.rootHash = some h then none else some ⟨0⟩) ∧ t'.view = t.view ∧
          t'.tree = t.tree.map (·.edit Cell.hash h.toNat id)) := by
  obtain ⟨s, hs⟩ := hwf
  obtain ⟨hf, hview, htree, hroot⟩ := hs.fresh key h (.data ⟨value, ⟨0, 0⟩⟩)
  let t₀ := t.newNode key h (.data ⟨value, ⟨0, 0⟩⟩)
  have hadd : ∀ {t' e p}, insertRecursiveData t.nodes.next timestamp strategy requestFromNode
      (t₀.nodes.next + 1) t₀ ⟨clock, ⟨0⟩⟩ t₀.root = some (t', e, p) →
      t.addData key h value timestamp strategy clock requestFromNode =
        some (t', e.clock, if p ≠ none then some e.result else none) := by
    intro t' e p hins
    simp only [addData, t₀, hins, bind_eq_bind, bind_some]
  cases hv : t.view h with
  | none =>
    -- absent: the new node is linked in
    obtain ⟨t', p, hins, hp, hwf', hview', htree'⟩ := hf.insertRecursive_linked
      (insertDataAtEqual t.nodes.next timestamp strategy requestFromNode) (insertDataAtNull_eq hf)
      hf.type (by rw [hview]; exact hv)
    refine ⟨t', _, _, hadd hins, hwf', .inl ⟨by simp [View.accepts, hv], rfl, if_pos hp, ?_, ?_⟩⟩
    · rw [hview', hview, View.put, View.written, hv]
      rfl
    · rw [htree', htree, heightAt_newCell, if_pos rfl]
      rfl
  | some entry =>
    obtain ⟨c, hc, hfind, hkey, hd, htype, hentry⟩ := hf.holds.exists_cell (hview ▸ hv)
    have hat :
        insertDataAtEqual t.nodes.next timestamp strategy requestFromNode _ ⟨clock, ⟨0⟩⟩ c.addr
      = _ := insertDataAtEqual_eq hf hc hd htype
    cases hrefuses : refuses entry.data timestamp strategy requestFromNode with
    | true =>
      rw [hrefuses] at hat
      obtain ⟨t', p, hins, hp, hwf', hview', htree'⟩ := hf.insertRecursive_refused
        (insertDataAtNull t.nodes.next timestamp strategy requestFromNode) hfind hat
      refine ⟨t', _, _, hadd hins, hwf', .inr ⟨by simp [View.accepts, hv, hrefuses], rfl, ?_,
        by rw [hview', hview], by rw [htree', htree]; rfl⟩⟩
      rw [hroot] at hp
      simp only [ne_eq, hp, ite_not]
      rfl
    | false =>
      -- the data of the node is overwritten
      have htype' : c.nodeType = .DATA := by
        rw [← htype]
        cases hdata : entry.data with
        | counter k => simp [hdata, refuses] at hrefuses
        | data y => rfl
      rw [hrefuses, if_neg Bool.false_ne_true] at hat
      obtain ⟨t', p, hins, hp, hwf', hview', htree'⟩ := hf.insertRecursive_written
        (insertDataAtNull t.nodes.next timestamp strategy requestFromNode) hfind
        (show NodeData.nodeType (.data _) = c.nodeType from htype'.symm) hat
      refine ⟨t', _, _, hadd hins, hwf',
        .inl ⟨by simp [View.accepts, hv, hrefuses], rfl, if_pos hp, ?_,
        by rw [htree', htree, if_neg (by simp)]; rfl⟩⟩
      rw [hview', hview, hkey, View.put, View.written, hv, hentry, hkey]

/-- A counter is stored where its hash is absent; under a hash that is taken nothing changes. -/
theorem addCounter_spec {t : AVLTree} (hwf : WellFormed t) (key : SimpleString) (h : UInt32)
    (selfNodeId : UInt16) (nNodes : UInt32) :
    ∃ t' ok, t.addCounter key h selfNodeId nNodes = some (t', ok) ∧ WellFormed t' ∧
      (t.view h = none ∧ t'.view = update t.view h
          (some ⟨key, h, .COUNTER, .counter (Counter.new selfNodeId nNodes)⟩) ∧
          t'.tree = t.tree.map (·.edit Cell.hash h.toNat
            (SearchTree.link (t.newCell key h (.counter (Counter.new selfNodeId nNodes)), -1))) ∨
        t.view h ≠ none ∧ t'.view = t.view ∧
        t'.tree = t.tree.map (·.edit Cell.hash h.toNat id)) := by
  obtain ⟨s, hs⟩ := hwf
  obtain ⟨hf, hview, htree, -⟩ := hs.fresh key h (.counter (Counter.new selfNodeId nNodes))
  let t₀ := t.newNode key h (.counter (Counter.new selfNodeId nNodes))
  have hadd : ∀ {t' p}, insertRecursiveCounter t.nodes.next (t₀.nodes.next + 1) t₀ () t₀.root =
      some (t', (), p) → t.addCounter key h selfNodeId nNodes = some (t', decide (p ≠ none)) := by
    intro t' p hins
    simp only [addCounter, t₀, hins, bind_eq_bind, bind_some]
  cases hv : t.view h with
  | none =>
    obtain ⟨t', p, hins, -, hwf', hview', htree'⟩ := hf.insertRecursive_linked insertCounterAtEqual
      (show insertCounterAtNull _ () = some (_, ()) by rw [Heap.write_of_read hf.read]; rfl) hf.type
      (by rw [hview]; exact hv)
    refine ⟨t', _, hadd hins, hwf', .inl ⟨rfl, by rw [hview', hview]; rfl, ?_⟩⟩
    rw [htree', htree, heightAt_newCell]
    rfl
  | some entry =>
    obtain ⟨c, -, hfind, -⟩ := hf.holds.exists_cell (hview ▸ hv)
    obtain ⟨t', p, hins, -, hwf', hview', htree'⟩ :=
      hf.insertRecursive_refused insertCounterAtNull hfind
      (show insertCounterAtEqual _ () c.addr = some none from rfl)
    exact ⟨t', _, hadd hins, hwf',
      .inr ⟨by simp, by rw [hview', hview], by rw [htree', htree]; rfl⟩⟩

/-! ### Removal -/

/-- The descent of `removeData`, as a check on the tree before the call: it goes to the left
    until the hash is found or a smaller hash is met; a node with a smaller hash has no child,
    and a node that would be removed lacks a child. -/
def removalSafeLoop (t : AVLTree) (keyHash : UInt32) (timestamp : LamportClock)
    (strategy : UpdateClockStrategy) (checkTimestamps : Bool) : Nat → Ptr → Bool
  | 0, _ => false
  | _ + 1, none => true
  | fuel + 1, some a =>
    match t.node a with
    | none => false
    | some n =>
      if n.keyHash > keyHash then
        removalSafeLoop t keyHash timestamp strategy checkTimestamps fuel n.left
      else if n.keyHash < keyHash then n.left.isNone && n.right.isNone
      else
        n.left.isNone || n.right.isNone ||
          match t.datas.read n.data with
          | none => false
          | some d => refuses d timestamp strategy checkTimestamps

/-- `removeData` stays clear of its wrong turn and of the two-child case. -/
def removalSafe (t : AVLTree) (keyHash : UInt32) (timestamp : LamportClock)
    (strategy : UpdateClockStrategy) (checkTimestamps : Bool) : Bool :=
  t.removalSafeLoop keyHash timestamp strategy checkTimestamps (t.nodes.next + 1) t.root

/-- The data of a node refuses the edit. -/
def cellRefuses (t : AVLTree) (timestamp : LamportClock) (strategy : UpdateClockStrategy)
    (checkTimestamps : Bool) (c : Cell) : Prop :=
  ∃ d, t.datas.read c.data = some d ∧ refuses d timestamp strategy checkTimestamps = true

theorem rootPtr_isNone_iff : (rootPtr s).isNone = true ↔ s = .nil := by
  cases s <;> simp

theorem removalSafe_of_loop (hrep : Rep t s) {keyHash : UInt32} {timestamp : LamportClock}
    {strategy : UpdateClockStrategy} {checkTimestamps : Bool} {fuel : Nat}
    (hsafe : t.removalSafeLoop keyHash timestamp strategy checkTimestamps fuel (rootPtr s) = true) :
    RemovalSafe (t.cellRefuses timestamp strategy checkTimestamps) keyHash.toNat s := by
  induction s generalizing fuel with
  | nil => trivial
  | node l c r ihl _ =>
    obtain ⟨⟨_, _, hc⟩, hl, -⟩ := hrep
    cases fuel with
    | zero => simp [removalSafeLoop] at hsafe
    | succ fuel =>
      simp only [removalSafeLoop, rootPtr_node, hc, gt_iff_lt, lt_iff_toNat_lt,
        ← Cell.hash.eq_1] at hsafe
      rw [RemovalSafe]
      -- the loop asks in the order of `removeRecursiveData`: greater, smaller, equal
      split at hsafe
      · next h => rw [if_pos h]; exact ihl hl hsafe
      · next h =>
        rw [if_neg h]
        split at hsafe
        · next h' =>
          rw [if_pos h']
          simpa only [Bool.and_eq_true, rootPtr_isNone_iff] using hsafe
        · next h' =>
          rw [if_neg h']
          simp only [Bool.or_eq_true, rootPtr_isNone_iff] at hsafe
          rcases hsafe with (hln | hrn) | href
          · exact Or.inr (Or.inl hln)
          · exact Or.inr (Or.inr hrn)
          · refine Or.inl ?_
            split at href
            · simp at href
            · next d hd => exact ⟨d, hd, href⟩

/-- In a tree that holds no other hash the removal of `keyHash` is safe. -/
theorem WellFormed.removalSafe_of_alone (hwf : WellFormed t) {keyHash : UInt32}
    (halone : ∀ h', t.view h' ≠ none → h' = keyHash) (timestamp : LamportClock)
    (strategy : UpdateClockStrategy) (checkTimestamps : Bool) :
    t.removalSafe keyHash timestamp strategy checkTimestamps = true := by
  obtain ⟨s, hs⟩ := hwf
  rw [removalSafe, hs.root]
  cases s with
  | nil => rfl
  | node l c r =>
    have hall : ∀ x ∈ (SearchTree.node l c r).toList, x.hash = keyHash.toNat := by
      intro x hx
      refine congrArg toNat (halone x.keyHash fun hnone => ?_)
      exact hs.view_eq_none_iff.mp hnone x hx rfl
    obtain ⟨-, -, hlc, hcr⟩ := (ordered_node_iff Cell.hash).mp hs.ordered
    -- a child would have the hash of `c` too
    have hl : rootPtr l = none := by
      rw [rootPtr_eq_none_iff, eq_nil_iff_forall_not_mem]
      intro x hx
      have := hlc x hx
      rw [hall x (by simp [hx]), hall c (by simp)] at this
      omega
    have hr : rootPtr r = none := by
      rw [rootPtr_eq_none_iff, eq_nil_iff_forall_not_mem]
      intro x hx
      have := hcr x hx
      rw [hall x (by simp [hx]), hall c (by simp)] at this
      omega
    obtain ⟨⟨_, _, hnode⟩, -, -⟩ := hs.rep
    have hkey : c.keyHash = keyHash := UInt32.toNat_inj.mp (hall c (by simp))
    simp [removalSafeLoop, hnode, hl, hkey]

section removeData

variable {t : AVLTree} (hwf : WellFormed t) {keyHash : UInt32} {timestamp : LamportClock}
  {strategy : UpdateClockStrategy} {checkTimestamps : Bool} (clock : LamportClock)
  (hsafe : t.removalSafe keyHash timestamp strategy checkTimestamps = true)
include hwf hsafe

/-- A safe removal of an entry that gives way erases exactly that entry. -/
theorem removeData_removed {entry : MapEntry} (hv : t.view keyHash = some entry)
    (hacc : refuses entry.data timestamp strategy checkTimestamps = false) :
    ∃ t', t.removeData keyHash timestamp strategy clock checkTimestamps
        = some (t', (clock.update strategy timestamp.counter).1,
          some ⟨(clock.update strategy timestamp.counter).2⟩) ∧
      WellFormed t' ∧ t'.view = t.view.erase keyHash := by
  obtain ⟨s, hs⟩ := hwf
  rw [removalSafe, hs.root] at hsafe
  obtain ⟨c, hc, hfind, hkey, hd, htype, -⟩ := hs.exists_cell hv
  have hnot : ¬ t.cellRefuses timestamp strategy checkTimestamps c := by
    rintro ⟨d', hd', href⟩
    rw [hd] at hd'
    cases hd'
    rw [hacc] at href
    cases href
  obtain ⟨t', s', hrun, -, hspliced, hed⟩ := (removeRecursiveData_descent ⟨clock, ⟨0⟩⟩
    ⟨(clock.update strategy timestamp.counter).1, ⟨(clock.update strategy timestamp.counter).2⟩⟩
      false
    true _).edits [] [c] [] (by simp) (Nat.lt_succ_of_le hs.length_le) hs.placed
    (removalSafe_of_loop hs.rep hsafe) (by simp) (by simp [hfind]) (by
      intro l y r hy heq hplaced hsafe fuel
      obtain rfl : c = y := some.inj (hfind.symm.trans hy)
      rw [RemovalSafe, if_neg (by omega), if_neg (by omega)] at hsafe
      obtain ⟨t', s', hrun, hlist, hed⟩ := removeRecursiveData_removed hplaced heq hd htype hacc
        (hsafe.resolve_left hnot)
      refine ⟨t', s', hrun, trivial, ⟨⟨l.toList, r.toList, rfl, hlist⟩, fun ho => ?_⟩, hed⟩
      unfold SearchTree.Ordered
      rw [hlist]
      exact ho.sublist (List.Sublist.append_left (sublist_cons_self _ _) _))
  obtain ⟨hs', hother⟩ := hs.edited hed hspliced (by simp) hs.data_nodup
  have hperm : s.toList.Perm (c :: s'.toList) := hspliced.perm
  refine ⟨t', ?_, ⟨s', hs'⟩, eq_update_iff.mpr ⟨?_, fun h' hne => hother h' ?_⟩⟩
  · rw [← hs.root] at hrun
    simp [removeData, hrun]
  · rw [hs'.view_eq_none_iff]
    -- a second node with this hash would make the keys of `s` repeat
    intro c' hc' hkey'
    obtain rfl : c' = c := eq_of_key_eq Cell.hash hs.ordered
      (hperm.mem_iff.mpr (mem_cons_of_mem _ hc')) hc (hkey'.trans (congrArg UInt32.toNat hkey).symm)
    have hnd := (hperm.map Cell.addr).nodup_iff.mp hs.nodup
    rw [map_cons, nodup_cons] at hnd
    exact hnd.1 (mem_map_of_mem hc')
  · simpa [hkey] using hne.symm

/-- A safe removal of an absent hash, or of an entry that refuses it, is an error and changes
    nothing. -/
theorem removeData_kept (hkept : ∀ entry, t.view keyHash = some entry →
      refuses entry.data timestamp strategy checkTimestamps = true) :
    ∃ t', t.removeData keyHash timestamp strategy clock checkTimestamps = some (t', clock, none) ∧
      WellFormed t' ∧ t'.view = t.view := by
  obtain ⟨s, hs⟩ := hwf
  rw [removalSafe, hs.root] at hsafe
  obtain ⟨t', s', hrun, -, hspliced, hed⟩ := (removeRecursiveData_descent ⟨clock, ⟨0⟩⟩ ⟨clock, ⟨0⟩⟩
    false false _).edits [] [] [] (by simp) (Nat.lt_succ_of_le hs.length_le) hs.placed
    (removalSafe_of_loop hs.rep hsafe) (by simp)
    (fun _ hplaced _ => ⟨t, .nil, rfl, trivial, spliced_of_eq _ rfl, hplaced.refl.toEdited⟩) (by
      intro l c r hc heq hplaced _ fuel
      obtain ⟨hmem, -⟩ := (find_eq_some_iff Cell.hash hs.ordered).mp hc
      obtain ⟨d, hd, htype⟩ := hs.data c hmem
      have hrefuses := hkept ⟨c.key, c.keyHash, c.nodeType, d⟩ (hs.view_eq_some_iff.mpr
        ⟨c, hmem, UInt32.toNat_inj.mp heq, by simp [cellEntry, hd]⟩)
      exact ⟨t, .node l c r, removeRecursiveData_refused hplaced.rep.1 heq hd htype hrefuses,
        trivial, spliced_of_eq _ rfl, hplaced.refl.toEdited⟩)
  obtain ⟨hs', hview⟩ := hs.rebuilds hed hspliced
  rw [← hs.root] at hrun
  exact ⟨t', by simp [removeData, hrun], ⟨s', hs'⟩, hview⟩

end removeData

end AVLTree

end MemDb

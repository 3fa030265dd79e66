import MemDb.Db.AVLTree
import MemDb.Lib.HeightTree
import Mathlib.Data.List.Nodup
import Mathlib.Data.Nat.Basic

/-! # What a well-formed pointer tree represents

  `Rep t s` says that the nodes of the heap form the binary tree `s`: each node of
  `s` is a live cell whose child pointers are the roots of the subtrees. Heights
  are not part of the shape, only that each stored height is at least `-1`, the
  height of `nullptr`; this is all the rotations rely on. `heights t s` adds the
  heights that the cells store.

  Every operation on pointers is specified by the cells it touches (`Touches`), so a
  subtree that shares no address with them is still represented afterwards
  (`Rep.frame`). Rotations and `rebalance` keep the in-order listing, and what they
  make of the stored heights is what the functions on height trees compute.
-/

namespace MemDb

open Lib SearchTree List Option

/-- A node of the tree without its child pointers and height: what rotations move around
    and never change. -/
structure Cell where
  addr : Nat
  key : SimpleString
  keyHash : UInt32
  data : Nat
  nodeType : NodeType
deriving DecidableEq

/-- The order of the tree. -/
def Cell.hash (c : Cell) : Nat := c.keyHash.toNat

namespace AVLTree

/-- The pointer to the root of a shape. -/
def rootPtr : SearchTree Cell → Ptr
  | .nil => none
  | .node _ c _ => some c.addr

@[simp] theorem rootPtr_nil : rootPtr .nil = none := rfl

@[simp] theorem rootPtr_node (l : SearchTree Cell) (c : Cell) (r : SearchTree Cell) :
    rootPtr (.node l c r) = some c.addr := rfl

/-- The addresses of the nodes of a shape. -/
def addrs (s : SearchTree Cell) : List Nat := s.toList.map (·.addr)

@[simp] theorem addrs_nil : addrs .nil = [] := rfl

@[simp] theorem addrs_node (l : SearchTree Cell) (c : Cell) (r : SearchTree Cell) :
    addrs (.node l c r) = addrs l ++ c.addr :: addrs r := by
  simp [addrs]

variable {s l r : SearchTree Cell} {c : Cell} {A : List Nat} {t t' t1 : AVLTree} {left right : Ptr}
  {side : SearchTree.Side} {s' : SearchTree Cell}

theorem addrs_eq_of_toList_eq (h : s'.toList = s.toList) :
    addrs s' = addrs s := by
  simp [addrs, h]

theorem rootPtr_mem {a : Nat} (h : rootPtr s = some a) : a ∈ addrs s := by
  cases s with
  | nil => simp at h
  | node l c r => simp at h; simp [h]

theorem rootPtr_eq_none_iff : rootPtr s = none ↔ s.toList = [] := by
  cases s <;> simp

theorem rootPtr_ne_none_of_mem (h : c ∈ s.toList) :
    rootPtr s ≠ none := by
  rw [Ne, rootPtr_eq_none_iff]
  exact ne_nil_of_mem h

/-- The cell `c` is live and has the given child pointers. -/
def NodeAt (t : AVLTree) (c : Cell) (left right : Ptr) : Prop :=
  ∃ height : Int, -1 ≤ height ∧
    t.node c.addr = some ⟨c.key, c.keyHash, left, right, c.data, height, c.nodeType⟩

/-- The heap holds the shape `s`. -/
def Rep (t : AVLTree) : SearchTree Cell → Prop
  | .nil => True
  | .node l c r => NodeAt t c (rootPtr l) (rootPtr r) ∧ Rep t l ∧ Rep t r

/-- The height that the cell `c` stores. -/
def heightAt (t : AVLTree) (c : Cell) : Int := ((t.node c.addr).map (·.height)).getD (-1)

/-- A shape with the heights that its cells store. -/
def heights (t : AVLTree) (s : SearchTree Cell) : HeightTree Cell :=
  s.map fun c => (c, t.heightAt c)

@[simp] theorem heights_nil (t : AVLTree) : heights t .nil = .nil := rfl

@[simp] theorem heights_node (t : AVLTree) (l : SearchTree Cell) (c : Cell) (r : SearchTree Cell) :
    heights t (.node l c r) = .node (heights t l) (c, t.heightAt c) (heights t r) := rfl

@[simp] theorem shape_heights (t : AVLTree) (s : SearchTree Cell) : (heights t s).shape = s := by
  induction s with
  | nil => rfl
  | node l c r ihl ihr => rw [heights_node, shape_node, ihl, ihr]

/-! ### Sides -/

section side
variable {side : SearchTree.Side} {child other : SearchTree Cell}

@[simp] theorem rootPtr_side : rootPtr (side.node child c other) = some c.addr := by
  cases side <;> rfl

theorem mem_addrs_side {a : Nat} :
    a ∈ addrs (side.node child c other) ↔ a ∈ addrs child ∨ a = c.addr ∨ a ∈ addrs other := by
  simp only [addrs, List.mem_map, SearchTree.mem_toList_side]
  grind

theorem nodup_side_iff : (addrs (side.node child c other)).Nodup ↔ (addrs child).Nodup ∧
    (addrs other).Nodup ∧ c.addr ∉ addrs child ∧ c.addr ∉ addrs other ∧
      ∀ a ∈ addrs child, a ∉ addrs other := by
  cases side with
  | left =>
    simp only [SearchTree.Side.node, addrs_node, nodup_append, nodup_cons, mem_cons]
    grind
  | right =>
    simp only [SearchTree.Side.node, addrs_node, nodup_append, nodup_cons, mem_cons]
    grind

/-- `NodeAt` with the pointer on the side first. -/
def SideAt (t : AVLTree) (c : Cell) : SearchTree.Side → Ptr → Ptr → Prop
  | .left, child, other => NodeAt t c child other
  | .right, child, other => NodeAt t c other child

theorem rep_side_iff : Rep t (side.node child c other) ↔
    SideAt t c side (rootPtr child) (rootPtr other) ∧ Rep t child ∧ Rep t other := by
  cases side with
  | left => rfl
  | right => exact and_congr_right' and_comm

theorem sideAt_other {p q : Ptr} : SideAt t c side.other q p ↔ SideAt t c side p q := by
  cases side <;> rfl

theorem heights_side : heights t (side.node child c other) =
    side.node (heights t child) (c, t.heightAt c) (heights t other) := by
  cases side <;> rfl

end side

/-! ### Frames -/

/-- Going from `t` to `t'` changed no node outside `A`. -/
structure Touches (A : List Nat) (t t' : AVLTree) : Prop where
  next : t'.nodes.next = t.nodes.next
  node : ∀ a, a ∉ A → t'.node a = t.node a

theorem Touches.refl (A : List Nat) (t : AVLTree) : Touches A t t :=
  ⟨rfl, fun _ _ => rfl⟩

theorem Touches.trans {t'' : AVLTree} (h : Touches A t t') (h' : Touches A t' t'') :
    Touches A t t'' :=
  ⟨h'.next.trans h.next, fun a ha => (h'.node a ha).trans (h.node a ha)⟩

theorem Touches.mono {B : List Nat} (h : Touches A t t') (hsub : ∀ a ∈ A, a ∈ B) : Touches B t t' :=
  ⟨h.next, fun a ha => h.node a (fun hA => ha (hsub a hA))⟩

theorem touches_setNode (t : AVLTree) (a : Nat) (n : AVLNode) :
    Touches [a] t (t.setNode a n) :=
  ⟨Heap.next_write _ _ _, fun b hb => Heap.read_write_ne _ (by simpa using hb) _⟩

theorem node_setNode_self {a : Nat} {n : AVLNode} (ha : t.node a = some n) (m : AVLNode) :
    (t.setNode a m).node a = some m :=
  Heap.read_write_self (Heap.read_lt_next ha) m

theorem SideAt.frame (h : SideAt t c side left right) (ht : Touches A t t')
    (hc : c.addr ∉ A) : SideAt t' c side left right := by
  cases side <;> exact h.imp fun height hnode => ⟨hnode.1, (ht.node _ hc).trans hnode.2⟩

/-- A shape depends on its own cells only. -/
theorem Rep.congr (h : Rep t s) (hs : ∀ a ∈ addrs s, t'.node a = t.node a) : Rep t' s := by
  induction s with
  | nil => trivial
  | node l c r ihl ihr =>
    obtain ⟨⟨height, hge, hc⟩, hl, hr⟩ := h
    simp only [addrs_node, mem_append, mem_cons] at hs
    exact ⟨⟨height, hge, (hs _ (by simp)).trans hc⟩, ihl hl (fun a ha => hs a (by simp [ha])),
      ihr hr (fun a ha => hs a (by simp [ha]))⟩

theorem Rep.frame (h : Rep t s) (ht : Touches A t t') (hs : ∀ a ∈ addrs s, a ∉ A) : Rep t' s :=
  h.congr fun a ha => ht.node a (hs a ha)

theorem heightAt_congr (h : t'.node c.addr = t.node c.addr) :
    t'.heightAt c = t.heightAt c := by
  rw [heightAt, heightAt, h]

theorem heights_congr (hs : ∀ a ∈ addrs s, t'.node a = t.node a) : heights t' s = heights t s := by
  induction s with
  | nil => rfl
  | node l c r ihl ihr =>
    simp only [addrs_node, mem_append, mem_cons] at hs
    rw [heights_node, heights_node, heightAt_congr (hs c.addr (by simp)),
      ihl fun a ha => hs a (by simp [ha]), ihr fun a ha => hs a (by simp [ha])]

theorem Touches.heights (h : Touches A t t') (hs : ∀ a ∈ addrs s, a ∉ A) :
    heights t' s = heights t s :=
  heights_congr fun a ha => h.node a (hs a ha)

theorem Rep.lt_next (h : Rep t s) :
    ∀ a ∈ addrs s, a < t.nodes.next := by
  induction s with
  | nil => simp
  | node l c r ihl ihr =>
    obtain ⟨⟨_, _, hc⟩, hl, hr⟩ := h
    intro a ha
    simp only [addrs_node, mem_append, mem_cons] at ha
    rcases ha with ha | rfl | ha
    · exact ihl hl a ha
    · exact Heap.read_lt_next hc
    · exact ihr hr a ha

theorem Rep.nodeAt_of_mem (h : Rep t s) (hc : c ∈ s.toList) :
    ∃ left right, NodeAt t c left right := by
  induction s with
  | nil => simp at hc
  | node l x r ihl ihr =>
    simp only [toList_node, mem_append, mem_cons] at hc
    rcases hc with hc | rfl | hc
    · exact ihl h.2.1 hc
    · exact ⟨_, _, h.1⟩
    · exact ihr h.2.2 hc

/-! ### Field writes and heights -/

def setChild (t : AVLTree) : SearchTree.Side → Nat → Ptr → Option AVLTree
  | .left, a, p => t.setLeft a p
  | .right, a, p => t.setRight a p

theorem setChild_spec (h : SideAt t c side left right) (p : Ptr) :
    ∃ t', t.setChild side c.addr p = some t' ∧ SideAt t' c side p right ∧ Touches [c.addr] t t' ∧
      t'.root = t.root ∧ t'.datas = t.datas := by
  cases side with
  | left =>
    obtain ⟨height, hge, hnode⟩ := h
    refine ⟨_, by simp only [setChild, setLeft, hnode, bind_eq_bind, bind_some]; rfl,
      ⟨height, hge, ?_⟩, touches_setNode _ _ _, rfl, rfl⟩
    rw [node_setNode_self hnode]
  | right =>
    obtain ⟨height, hge, hnode⟩ := h
    refine ⟨_, by simp only [setChild, setRight, hnode, bind_eq_bind, bind_some]; rfl,
      ⟨height, hge, ?_⟩, touches_setNode _ _ _, rfl, rfl⟩
    rw [node_setNode_self hnode]

theorem setChild_same (h : SideAt t c side left right) :
    t.setChild side c.addr left = some t := by
  cases side <;>
  · obtain ⟨height, -, hnode⟩ := h
    simp [setChild, setLeft, setRight, hnode, setNode, Heap.write_of_read hnode]

theorem NodeAt.heightAt_ge (h : NodeAt t c left right) :
    -1 ≤ t.heightAt c := by
  obtain ⟨height, hge, hnode⟩ := h
  simpa [heightAt, hnode] using hge

theorem Rep.stored_ge (h : Rep t s) :
    -1 ≤ (heights t s).stored := by
  cases s with
  | nil => exact le_refl _
  | node l c r => exact h.1.heightAt_ge

theorem getHeight_spec (h : Rep t s) :
    t.getHeight (rootPtr s) = some (heights t s).stored := by
  cases s with
  | nil => rfl
  | node l c r =>
    obtain ⟨⟨height, -, hnode⟩, -, -⟩ := h
    simp [getHeight, heightAt, hnode]

theorem getHeightFactor_spec (h : Rep t (.node l c r)) :
    t.getHeightFactor (some c.addr) = some ((heights t r).stored - (heights t l).stored) := by
  obtain ⟨⟨height, hge, hnode⟩, hl, hr⟩ := h
  simp [getHeightFactor, hnode, getHeight_spec hl, getHeight_spec hr]

/-! ### Rotations -/

/-- The root pointer points to a node that is not one of `s`. -/
def RootAbove (t : AVLTree) (s : SearchTree Cell) : Prop :=
  ∃ a, t.root = some a ∧ a ∉ addrs s

/-- The heap holds the shape `s`, and the root pointer is the root of `s` or points outside it. -/
structure Placed (t : AVLTree) (s : SearchTree Cell) : Prop where
  rep : Rep t s
  nodup : (addrs s).Nodup
  root : t.root = rootPtr s ∨ RootAbove t s

theorem RootAbove.ne_rootPtr (h : RootAbove t s) :
    t.root ≠ rootPtr s := by
  obtain ⟨a, ha, hnot⟩ := h
  intro heq
  exact hnot (rootPtr_mem (heq.symm.trans ha))

/-- Seen from a subtree of a node, the root pointer is above. -/
theorem Placed.child {child other : SearchTree Cell}
    (h : Placed t (side.node child c other)) : Placed t child ∧ RootAbove t child := by
  have hnd := nodup_side_iff.mp h.nodup
  have habove : RootAbove t child := by
    rcases h.root with hroot | ⟨a, ha, hnot⟩
    · exact ⟨c.addr, hroot.trans rootPtr_side, hnd.2.2.1⟩
    · exact ⟨a, ha, fun hchild => hnot (mem_addrs_side.mpr (.inl hchild))⟩
  exact ⟨⟨(rep_side_iff.mp h.rep).2.1, hnd.1, .inr habove⟩, habove⟩

/-- From `t` to `t'` the shape `s` was edited into `s'`, with nodes from `A` besides its own.
    The root pointer follows if it pointed to the root of `s`. -/
structure Edited (A : List Nat) (t : AVLTree) (s : SearchTree Cell) (t' : AVLTree)
    (s' : SearchTree Cell) : Prop where
  rep : Rep t' s'
  nodup : (addrs s').Nodup
  mem_addrs : ∀ a ∈ addrs s', a ∈ A ++ addrs s
  touches : Touches (A ++ addrs s) t t'
  datas : t'.datas = t.datas
  root : t.root = rootPtr s ∧ t'.root = rootPtr s' ∨
    t'.root = t.root ∧ RootAbove t s ∧ RootAbove t' s'

theorem Edited.placed (h : Edited A t s t' s') : Placed t' s' :=
  ⟨h.rep, h.nodup, h.root.imp And.right fun habove => habove.2.2⟩

theorem Edited.trans {t'' : AVLTree} {s' s'' : SearchTree Cell} (h : Edited A t s t' s')
    (h' : Edited [] t' s' t'' s'') : Edited A t s t'' s'' := by
  refine ⟨h'.rep, h'.nodup, fun a ha => h.mem_addrs a (h'.mem_addrs a ha),
    h.touches.trans (h'.touches.mono h.mem_addrs), h'.datas.trans h.datas, ?_⟩
  rcases h.root with ⟨hs, hs'⟩ | ⟨heq, habove, habove'⟩
  · rcases h'.root with ⟨-, hs''⟩ | ⟨-, habove', -⟩
    · exact .inl ⟨hs, hs''⟩
    · exact absurd hs' habove'.ne_rootPtr
  · rcases h'.root with ⟨hs', -⟩ | ⟨heq', -, habove''⟩
    · exact absurd hs' habove'.ne_rootPtr
    · exact .inr ⟨heq'.trans heq, habove, habove''⟩

/-- An edit that keeps the listing. -/
structure Rebuilds (t : AVLTree) (s : SearchTree Cell) (t' : AVLTree) (s' : SearchTree Cell) : Prop
    extends Edited [] t s t' s' where
  toList : s'.toList = s.toList

theorem Placed.rebuilds (h : Placed t s) (hrep : Rep t' s')
    (hlist : s'.toList = s.toList) (htouches : Touches (addrs s) t t') (hdat : t'.datas = t.datas)
    (hroot : t'.root = if t.root = rootPtr s then rootPtr s' else t.root) : Rebuilds t s t' s' := by
  have haddrs := addrs_eq_of_toList_eq hlist
  refine ⟨⟨hrep, haddrs ▸ h.nodup, by simp [haddrs], htouches, hdat, ?_⟩, hlist⟩
  rcases h.root with heq | habove
  · exact .inl ⟨heq, by rw [hroot, if_pos heq]⟩
  · rw [if_neg habove.ne_rootPtr] at hroot
    obtain ⟨a, ha, hnot⟩ := id habove
    exact .inr ⟨hroot, habove, a, hroot.trans ha, haddrs ▸ hnot⟩

theorem Placed.refl (h : Placed t s) : Rebuilds t s t s :=
  h.rebuilds h.rep rfl (Touches.refl _ _) rfl (by simp)

/-- A node gets the height that its subtrees give it. -/
theorem updateHeight_spec (side : SearchTree.Side) {child other : SearchTree Cell}
    (h : Rep t (side.node child c other)) (hnd : (addrs (side.node child c other)).Nodup) :
    ∃ t', t.updateHeight c.addr = some t' ∧
      heights t' (side.node child c other) = side.update (heights t child) c (heights t other) ∧
      Rep t' (side.node child c other) ∧ Touches [c.addr] t t' ∧ t'.root = t.root ∧
      t'.datas = t.datas := by
  obtain ⟨l, r, hs, hupdate⟩ : ∃ l r, side.node child c other = .node l c r ∧
      side.update (heights t child) c (heights t other) =
        .update (heights t l) c (heights t r) := by
    cases side <;> exact ⟨_, _, rfl, rfl⟩
  rw [hs] at h hnd ⊢
  obtain ⟨⟨height, hge, hnode⟩, hl, hr⟩ := h
  have hlge := hl.stored_ge
  simp only [addrs_node, nodup_append, nodup_cons, mem_cons] at hnd
  have ht := touches_setNode t c.addr ⟨c.key, c.keyHash, rootPtr l, rootPtr r, c.data,
    max (heights t l).stored (heights t r).stored + 1, c.nodeType⟩
  refine ⟨_, by simp only [updateHeight, hnode, getHeight_spec hl, getHeight_spec hr,
    bind_eq_bind, bind_some], ?_,
      ⟨⟨_, ?_, node_setNode_self hnode _⟩, hl.frame ht ?_, hr.frame ht ?_⟩,
    ht, rfl, rfl⟩
  · rw [hupdate, heights_node, ht.heights (by grind), ht.heights (by grind), heightAt,
      node_setNode_self hnode]
    rfl
  · omega
  · grind
  · grind

theorem updateRootReference_eq (t : AVLTree) (p q : Ptr) :
    t.updateRootReferenceIfNeccesary p q = { t with root := if t.root = p then q else t.root } := by
  unfold updateRootReferenceIfNeccesary
  split <;> rfl

/-- The root pointer may follow before the pointers of the nodes or after them. -/
theorem setChild_root {a : Nat} {child : Ptr}
    (h : t.setChild side a child = some t1) (p : Ptr) :
    { t with root := p }.setChild side a child = some { t1 with root := p } := by
  cases side <;>
  · obtain ⟨n, hn, hset⟩ := bind_eq_some_iff.mp h
    cases hset
    exact bind_eq_some_iff.mpr ⟨n, hn, rfl⟩

/-- The rotation that brings the child on the side up. -/
def rotate (t : AVLTree) : SearchTree.Side → Ptr → Option (AVLTree × Ptr)
  | .left, p => t.rotateRight p
  | .right, p => t.rotateLeft p

theorem rotate_spec {a b c : SearchTree Cell} {x y : Cell}
    (h : Placed t (side.node (side.node a x b) y c)) :
    ∃ t', t.rotate side (some y.addr) = some (t', some x.addr) ∧
      heights t' (side.node a x (side.node b y c))
        = side.update (heights t a) x (side.update (heights t b) y (heights t c)) ∧
      Rebuilds t (side.node (side.node a x b) y c) t' (side.node a x (side.node b y c)) := by
  obtain ⟨hy, hchild, hc⟩ := rep_side_iff.mp h.rep
  obtain ⟨hx, ha, hb⟩ := rep_side_iff.mp hchild
  have hlist : (side.node a x (side.node b y c)).toList
      = (side.node (side.node a x b) y c).toList := by
    cases side <;> simp [SearchTree.Side.node]
  have hnd' := addrs_eq_of_toList_eq hlist ▸ h.nodup
  obtain ⟨-, hndb, -, hxb, hab⟩ := nodup_side_iff.mp hnd'
  have hnd := h.nodup
  simp only [nodup_side_iff, mem_addrs_side] at hnd
  have hxy : x.addr ≠ y.addr := by grind
  rw [rootPtr_side] at hy
  -- `y` gives up `x` for `b`, then `x` takes `y` for `b`, and the root pointer follows
  obtain ⟨t1, hset1, hy1, ht1, hroot1, hdat1⟩ := setChild_spec hy (rootPtr b)
  obtain ⟨t2, hset2, hx2, ht2, hroot2, hdat2⟩ :=
    setChild_spec ((sideAt_other.mpr hx).frame ht1 (by simp [hxy])) (some y.addr)
  let root := if t.root = some y.addr then some x.addr else t.root
  have ht3 : Touches [] t2 { t2 with root := root } := ⟨rfl, fun _ _ => rfl⟩
  have ht03 : Touches [x.addr, y.addr] t { t2 with root := root } :=
    ((ht1.mono (by simp)).trans (ht2.mono (by simp))).trans (ht3.mono (by simp))
  have h3 : Rep { t2 with root := root } (side.node b y c) :=
    rep_side_iff.mpr ⟨(hy1.frame ht2 (by simp [hxy.symm])).frame ht3 (by simp),
      hb.frame ht03 (by grind), hc.frame ht03 (by grind)⟩
  obtain ⟨t4, hup4, hh4, hrep4, ht4, hroot4, hdat4⟩ := updateHeight_spec side h3 hndb
  have h4 : Rep t4 (side.node a x (side.node b y c)) := by
    refine rep_side_iff.mpr ⟨?_, (ha.frame ht03 (by grind)).frame ht4 (by grind), hrep4⟩
    rw [rootPtr_side]
    exact ((sideAt_other.mp hx2).frame ht3 (by simp)).frame ht4 (by simp [hxy])
  obtain ⟨t5, hup5, hh5, hrep5, ht5, hroot5, hdat5⟩ := updateHeight_spec side h4 hnd'
  refine ⟨t5, ?_, ?_, h.rebuilds hrep5 hlist ?_ ?_ ?_⟩
  · have hset1' := setChild_root hset1 root
    have hset2' := setChild_root hset2 root
    cases side with
    | left =>
      obtain ⟨⟨ky, -, hky⟩, kx, -, hkx⟩ := And.intro hy hx
      have hkx' : AVLTree.node { t with root := root } x.addr = _ := hkx
      change AVLTree.setLeft _ _ _ = _ at hset1'
      change AVLTree.setRight _ _ _ = _ at hset2'
      simp [rotate, rotateRight, hky, show t.updateRootReferenceIfNeccesary _ _ =
        { t with root := root } from updateRootReference_eq _ _ _, hkx', hset1', hset2', hup4, hup5]
    | right =>
      obtain ⟨⟨ky, -, hky⟩, kx, -, hkx⟩ := And.intro hy hx
      change AVLTree.setRight _ _ _ = _ at hset1
      change AVLTree.setLeft _ _ _ = _ at hset2
      simp [rotate, rotateLeft, updateRootReference_eq, hky, hkx, hset1, hset2, hroot1, hroot2,
        root, hup4, hup5]
  · rw [hh5, hh4, ht4.heights (by grind), ht03.heights (by grind), ht03.heights (by grind),
      ht03.heights (by grind)]
  · refine ((ht03.trans (ht4.mono (by simp))).trans (ht5.mono (by simp))).mono ?_
    simp only [mem_addrs_side]
    grind
  · rw [hdat5, hdat4, ← hdat1, ← hdat2]
  · rw [hroot5, hroot4, rootPtr_side, rootPtr_side]

/-- Storing the root of an edited subtree edits the whole. -/
theorem Edited.setChild {child child' other : SearchTree Cell}
    (h : Placed t (side.node child c other)) (hAc : ∀ a ∈ A, a ≠ c.addr ∧ a ∉ addrs other)
    (hchild : Edited A t child t1 child') :
    ∃ t2, t1.setChild side c.addr (rootPtr child') = some t2 ∧
      (heights t2 child' = heights t1 child' ∧ heights t2 other = heights t other) ∧
      Edited A t (side.node child c other) t2 (side.node child' c other) := by
  obtain ⟨hc, -, hother⟩ := rep_side_iff.mp h.rep
  have hnd := nodup_side_iff.mp h.nodup
  have hcA : c.addr ∉ A ++ addrs child := by
    simp only [mem_append]
    grind
  have hotherA : ∀ a ∈ addrs other, a ∉ A ++ addrs child := by
    simp only [mem_append]
    grind
  have haddrs := hchild.mem_addrs
  obtain ⟨t2, hset, hc2, ht2, hroot2, hdat2⟩ :=
    setChild_spec (hc.frame hchild.touches hcA) (rootPtr child')
  refine ⟨t2, hset, ⟨ht2.heights (by grind),
    (ht2.heights (by grind)).trans (hchild.touches.heights hotherA)⟩,
    rep_side_iff.mpr ⟨hc2, hchild.rep.frame ht2 (by grind),
      (hother.frame hchild.touches hotherA).frame ht2 (by grind)⟩,
    nodup_side_iff.mpr ⟨hchild.nodup, hnd.2.1, fun hmem => hcA (haddrs _ hmem), hnd.2.2.2.1,
      fun a ha hmem => hotherA a hmem (haddrs a ha)⟩, ?_, ?_, hdat2.trans hchild.datas, ?_⟩
  · simp only [mem_append, mem_addrs_side] at haddrs ⊢
    grind
  · refine (hchild.touches.mono fun a ha => ?_).trans (ht2.mono ?_)
    · rw [mem_append, mem_addrs_side]
      exact (mem_append.mp ha).imp_right .inl
    · simp [mem_addrs_side]
  -- the child is not the root, so the root is this node or one above it
  · rcases hchild.root with ⟨heq, -⟩ | ⟨hroot1, -, a, ha, hnot⟩
    · exact absurd heq h.child.2.ne_rootPtr
    · have hroot := hroot2.trans hroot1
      rcases h.root with heq | ⟨b, hb, hnotb⟩
      · exact .inl ⟨heq, by rw [hroot, heq, rootPtr_side, rootPtr_side]⟩
      · obtain rfl : a = b := some.inj (ha.symm.trans (hroot1.trans hb))
        refine .inr ⟨hroot, ⟨a, hb, hnotb⟩, a, hroot.trans hb, ?_⟩
        rw [mem_addrs_side] at hnotb ⊢
        tauto

section rebalance
variable {side : SearchTree.Side} {child other : SearchTree Cell}

/-- A subtree that is higher than `nullptr` has a root. -/
theorem Rep.exists_side (h : -1 < (heights t s).stored) (side : SearchTree.Side) :
    ∃ a x b, s = side.node a x b := by
  cases s with
  | nil => exact absurd h (lt_irrefl _)
  | node l x r =>
    cases side with
    | left => exact ⟨l, x, r, rfl⟩
    | right => exact ⟨r, x, l, rfl⟩

section
variable (hup : t.updateHeight c.addr = some t1)
include hup

/-- `rebalance` at a node that is heavy on the side. -/
theorem rebalance_heavy {a b : SearchTree Cell} {x : Cell}
    (h : Rep t1 (side.node (side.node a x b) c other))
    (hheavy : (heights t1 other).stored + 1 < t1.heightAt x) :
    t.rebalance c.addr = if (heights t1 a).stored < (heights t1 b).stored then
      (t1.rotate side.other (some x.addr)).bind fun r =>
        (r.1.setChild side c.addr r.2).bind (·.rotate side (some c.addr))
      else t1.rotate side (some c.addr) := by
  cases side with
  | left =>
    obtain ⟨⟨k, -, hnode⟩, hchild, -⟩ := id h
    simp only [rebalance, hup, getHeightFactor_spec h, hnode, rootPtr_side,
      getHeightFactor_spec hchild, bind_eq_bind, bind_some]
    rw [heights_side, stored_side_node, if_pos (by omega)]
    simp only [gt_iff_lt, Int.sub_pos]
    split <;> rfl
  | right =>
    obtain ⟨⟨k, -, hnode⟩, -, hchild⟩ := id h
    simp only [rebalance, hup, getHeightFactor_spec h, hnode, rootPtr_side,
      getHeightFactor_spec hchild, bind_eq_bind, bind_some]
    rw [heights_side, stored_side_node, if_neg (by omega), if_pos (by omega)]
    simp only [show (heights t1 a).stored - (heights t1 b).stored < 0 ↔
      (heights t1 a).stored < (heights t1 b).stored by omega]
    split <;> rfl

theorem rebalance_heavy_spec (side : SearchTree.Side) (h1 : Placed t1 (side.node child c other))
    (hheavy : (heights t1 other).stored + 1 < (heights t1 child).stored) :
    ∃ t' s', t.rebalance c.addr = some (t', rootPtr s') ∧
      heights t' s' = side.rebalance (heights t1 child) c (heights t1 other) ∧
      Rebuilds t1 (side.node child c other) t' s' := by
  obtain ⟨-, hchild, hother⟩ := rep_side_iff.mp h1.rep
  have hge := hother.stored_ge
  obtain ⟨a, x, b, rfl⟩ := Rep.exists_side (t := t1) (s := child) (by omega) side
  rw [heights_side, stored_side_node] at hheavy
  rw [rebalance_heavy hup h1.rep hheavy, heights_side]
  by_cases hinner : (heights t1 a).stored < (heights t1 b).stored
  · -- there is an inner grandchild, and it moves up first
    have hage := (rep_side_iff.mp hchild).2.1.stored_ge
    obtain ⟨b1, y, b2, rfl⟩ := Rep.exists_side (t := t1) (s := b) (by omega) side
    have hplaced := h1.child.1
    rw [← side.node_other a, ← side.node_other b1] at hplaced
    obtain ⟨t2, hrot2, hh2, hre2⟩ := rotate_spec hplaced
    simp only [side.node_other, update_other] at hh2 hre2
    obtain ⟨t3, hset3, ⟨hhl3, hhr3⟩, hed3⟩ := Edited.setChild h1 (by simp) hre2.toEdited
    obtain ⟨t4, hrot4, hh4, hre4⟩ := rotate_spec hed3.placed
    obtain ⟨hha, hhb⟩ := children_of_side_eq side ((heights_side.symm.trans hhl3).trans hh2)
    rw [rootPtr_side] at hset3
    refine ⟨t4, _, ?_, ?_, hed3.trans hre4.toEdited,
      hre4.toList.trans (toList_side_congr hre2.toList)⟩
    · rw [if_pos hinner, hrot2, bind_some, hset3, bind_some, hrot4, rootPtr_side]
    · rw [heights_side, stored_side_node] at hinner
      rw [hh4, hha, hhb, hhr3, heights_side, rebalance_side_inner hheavy hinner]
  · obtain ⟨t2, hrot2, hh2, hre2⟩ := rotate_spec h1
    refine ⟨t2, _, ?_, ?_, hre2⟩
    · rw [if_neg hinner, hrot2, rootPtr_side]
    · rw [hh2, rebalance_side_outer hheavy (not_lt.mp hinner)]

end

/-- `rebalance` succeeds on any represented subtree and keeps its listing. -/
theorem rebalance_spec (h : Placed t (.node l c r)) :
    ∃ t' s', t.rebalance c.addr = some (t', rootPtr s') ∧
      heights t' s' = SearchTree.rebalance (heights t l) c (heights t r) ∧
      Rebuilds t (.node l c r) t' s' := by
  obtain ⟨t1, hup, hh1, hrep1, ht1, hroot1, hdat1⟩ := updateHeight_spec .left h.rep h.nodup
  have hre1 : Rebuilds t (.node l c r) t1 (.node l c r) :=
    h.rebuilds hrep1 rfl (ht1.mono (by simp)) hdat1 (by grind)
  obtain ⟨hhl, hhr⟩ : heights t1 l = heights t l ∧ heights t1 r = heights t r :=
    children_of_side_eq .left hh1
  rw [← hhl, ← hhr]
  by_cases hleft : (heights t1 r).stored - (heights t1 l).stored < -1
  · obtain ⟨t', s', hreb, hheights, hre⟩ :=
      rebalance_heavy_spec hup .left hre1.placed (by omega)
    exact ⟨t', s', hreb, hheights, hre1.trans hre.toEdited, hre.toList⟩
  · by_cases hright : (heights t1 r).stored - (heights t1 l).stored > 1
    · obtain ⟨t', s', hreb, hheights, hre⟩ :=
        rebalance_heavy_spec hup .right hre1.placed (by omega)
      exact ⟨t', s', hreb, hheights, hre1.trans hre.toEdited, hre.toList⟩
    · -- nothing rotates, and the height is the one that was stored
      refine ⟨t1, .node l c r, ?_, ?_, hre1⟩
      · simp only [rebalance, hup, getHeightFactor_spec hre1.rep, hleft, hright, if_false,
          bind_eq_bind, bind_some, rootPtr_node]
      · rw [SearchTree.rebalance, if_neg hleft, if_neg hright, hhl, hhr]
        exact hh1

theorem rebalance_side (h : Placed t (side.node child c other)) :
    ∃ t' s', t.rebalance c.addr = some (t', rootPtr s') ∧
      heights t' s' = side.rebalance (heights t child) c (heights t other) ∧
      Rebuilds t (side.node child c other) t' s' := by
  cases side with
  | left => exact rebalance_spec h
  | right => exact rebalance_spec h

end rebalance

end AVLTree

end MemDb

import MemDb.Lib.SearchTree

/-! # Trees that store heights

    Search trees that store a height at each node and are rebalanced by what is stored, as an AVL
    tree is. What is stored need not be the height: a new leaf may come with the number that stands
    for the empty tree. Until it is visited again, such a leaf does not count.

    `AvlExceptNew` says that the stored heights are those of an AVL tree in which these leaves are
    left out. Every edit along a descent keeps it, so the heights of the subtrees of a node never
    differ by more than two. Where such leaves lie decides whether they differ by two somewhere
    (`Settled`).
-/

namespace Lib

namespace SearchTree
variable {α β : Type}

/-- The empty tree has height `-1`. -/
def height : SearchTree α → Int
  | nil => -1
  | node l _ r => max l.height r.height + 1

/-- At every node the heights of the two subtrees differ by at most `k`. -/
def HeightsWithin (k : Int) : SearchTree α → Prop
  | nil => True
  | node l _ r =>
    l.height ≤ r.height + k ∧ r.height ≤ l.height + k ∧ HeightsWithin k l ∧ HeightsWithin k r

instance decidableHeightsWithin (k : Int) : (t : SearchTree α) → Decidable (HeightsWithin k t)
  | nil => isTrue trivial
  | node l _ r =>
    have := decidableHeightsWithin k l
    have := decidableHeightsWithin k r
    inferInstanceAs (Decidable (_ ∧ _ ∧ _ ∧ _))

def map (f : α → β) : SearchTree α → SearchTree β
  | nil => nil
  | node l x r => node (l.map f) (f x) (r.map f)

end SearchTree

/-- Binary trees with a stored height at each node. -/
abbrev HeightTree (α : Type) := SearchTree (α × Int)

namespace SearchTree
variable {α : Type}

/-- The tree without the stored heights. -/
def shape (t : HeightTree α) : SearchTree α := t.map Prod.fst

/-- The height that is stored at the root; `-1` for the empty tree. -/
def stored : HeightTree α → Int
  | .nil => -1
  | .node _ x _ => x.2

/-- A node with the height that its subtrees give it. -/
def update (l : HeightTree α) (x : α) (r : HeightTree α) : HeightTree α :=
  .node l (x, max l.stored r.stored + 1) r

/-- Stored height on the right minus stored height on the left. -/
def factor : HeightTree α → Int
  | .nil => 0
  | .node l _ r => r.stored - l.stored

def rotateRight : HeightTree α → HeightTree α
  | .node (.node a x b) y c => update a x.1 (update b y.1 c)
  | t => t

def rotateLeft : HeightTree α → HeightTree α
  | .node a x (.node b y c) => update (update a x.1 b) y.1 c
  | t => t

/-- The tree with `x` above `l` and `r`, rotated where the stored heights differ by more than
    one. -/
def rebalance (l : HeightTree α) (x : α) (r : HeightTree α) : HeightTree α :=
  if r.stored - l.stored < -1 then
    rotateRight (update (if l.factor > 0 then rotateLeft l else l) x r)
  else if r.stored - l.stored > 1 then
    rotateLeft (update l x (if r.factor < 0 then rotateRight r else r))
  else update l x r

/-- `rebalance` with `child` on the side. -/
def Side.rebalance : Side → HeightTree α → α → HeightTree α → HeightTree α
  | left, child, x, other => SearchTree.rebalance child x other
  | right, child, x, other => SearchTree.rebalance other x child

/-- `update` with `child` on the side. -/
def Side.update : Side → HeightTree α → α → HeightTree α → HeightTree α
  | left, child, x, other => SearchTree.update child x other
  | right, child, x, other => SearchTree.update other x child

@[simp] theorem stored_nil : stored (.nil : HeightTree α) = -1 := rfl

@[simp] theorem stored_node (l : HeightTree α) (x : α × Int) (r : HeightTree α) :
    stored (.node l x r) = x.2 := rfl

@[simp] theorem stored_update (l : HeightTree α) (x : α) (r : HeightTree α) :
    (update l x r).stored = max l.stored r.stored + 1 := rfl

@[simp] theorem shape_nil : shape (.nil : HeightTree α) = .nil := rfl

@[simp] theorem shape_node (l : HeightTree α) (x : α × Int) (r : HeightTree α) :
    shape (.node l x r) = .node l.shape x.1 r.shape := rfl

section side
variable {side : Side}

@[simp] theorem stored_side_node (a : HeightTree α) (x : α × Int) (b : HeightTree α) :
    (side.node a x b).stored = x.2 := by
  cases side <;> rfl

@[simp] theorem stored_side_update (a : HeightTree α) (x : α) (b : HeightTree α) :
    (side.update a x b).stored = max a.stored b.stored + 1 := by
  cases side with
  | left => rfl
  | right => exact congrArg (· + 1) (max_comm _ _)

variable {a b c other : HeightTree α} {y : α × Int}

theorem children_of_side_eq (side : Side) {a' b' : HeightTree α} {x : α}
    (h : side.node a y b = side.update a' x b') : a = a' ∧ b = b' := by
  cases side <;> cases h <;> exact ⟨rfl, rfl⟩

theorem update_other (x : α) : side.other.update b x a = side.update a x b := by
  cases side <;> rfl

/-- A child that is too high comes up. -/
theorem rebalance_side_outer (h : other.stored + 1 < y.2) (hab : b.stored ≤ a.stored) (x : α) :
    side.rebalance (side.node a y b) x other = side.update a y.1 (side.update b x other) := by
  cases side with
  | left =>
    rw [Side.rebalance, rebalance, if_pos (by rw [stored_side_node]; omega),
      if_neg (by show ¬ b.stored - a.stored > 0; omega)]
    rfl
  | right =>
    rw [Side.rebalance, rebalance, if_neg (by rw [stored_side_node]; omega),
      if_pos (by rw [stored_side_node]; omega), if_neg (by show ¬ a.stored - b.stored < 0; omega)]
    rfl

/-- An inner grandchild that is higher than the outer one comes up instead. -/
theorem rebalance_side_inner {z : α × Int} (h : other.stored + 1 < y.2) (haz : a.stored < z.2)
    (x : α) : side.rebalance (side.node a y (side.node b z c)) x other
      = side.update (side.update a y.1 b) z.1 (side.update c x other) := by
  cases side with
  | left =>
    rw [Side.rebalance, rebalance, if_pos (by rw [stored_side_node]; omega),
      if_pos (by show z.2 - a.stored > 0; omega)]
    rfl
  | right =>
    rw [Side.rebalance, rebalance, if_neg (by rw [stored_side_node]; omega),
      if_pos (by rw [stored_side_node]; omega), if_pos (by show a.stored - z.2 < 0; omega)]
    rfl

end side

/-! ### AVL trees with new leaves -/

/-- The stored heights are those of an AVL tree, when leaves with the stored height `-1` are not
    counted. -/
def AvlExceptNew : HeightTree α → Prop
  | .nil => True
  | .node l x r =>
    (x.2 = -1 ∧ l = .nil ∧ r = .nil) ∨
      (x.2 = max l.stored r.stored + 1 ∧ l.stored ≤ r.stored + 1 ∧ r.stored ≤ l.stored + 1 ∧
        AvlExceptNew l ∧ AvlExceptNew r)

variable {t : HeightTree α}

theorem AvlExceptNew.stored_ge (h : t.AvlExceptNew) : -1 ≤ t.stored := by
  induction t with
  | nil => exact le_refl _
  | node l x r ihl ihr =>
    rcases h with ⟨hnew, -, -⟩ | ⟨hx, -, -, hl, hr⟩
    · rw [stored_node, hnew]
    · have := ihl hl
      rw [stored_node, hx]
      omega

/-- A stored height of at least 0 is that of a node that counts. -/
theorem AvlExceptNew.of_stored (h : t.AvlExceptNew) (hstored : 0 ≤ t.stored) (side : Side) :
    ∃ a x b, t = side.node a x b ∧ x.2 = max a.stored b.stored + 1 ∧ a.stored ≤ b.stored + 1 ∧
      b.stored ≤ a.stored + 1 ∧ a.AvlExceptNew ∧ b.AvlExceptNew := by
  cases t with
  | nil => simp at hstored
  | node l x r =>
    rcases h with ⟨hnew, -, -⟩ | ⟨hx, hle, hge, hl, hr⟩
    · rw [stored_node, hnew] at hstored
      omega
    · cases side with
      | left => exact ⟨l, x, r, rfl, hx, hle, hge, hl, hr⟩
      | right => exact ⟨r, x, l, rfl, max_comm l.stored _ ▸ hx, hge, hle, hr, hl⟩

theorem avlExceptNew_update {a b : HeightTree α} (ha : a.AvlExceptNew) (hb : b.AvlExceptNew)
    (hle : a.stored ≤ b.stored + 1) (hge : b.stored ≤ a.stored + 1) (side : Side) (x : α) :
    (side.update a x b).AvlExceptNew := by
  cases side with
  | left => exact Or.inr ⟨rfl, hle, hge, ha, hb⟩
  | right => exact Or.inr ⟨rfl, hge, hle, hb, ha⟩

/-- The stored height is the height, or one less. -/
theorem AvlExceptNew.height_bounds (h : t.AvlExceptNew) :
    t.stored ≤ t.shape.height ∧ t.shape.height ≤ t.stored + 1 := by
  induction t with
  | nil => simp [height]
  | node l x r ihl ihr =>
    rw [stored_node, shape_node, height]
    rcases h with ⟨hnew, rfl, rfl⟩ | ⟨hx, -, -, hl, hr⟩
    · simp [hnew, height]
    · obtain ⟨hl₁, hl₂⟩ := ihl hl
      obtain ⟨hr₁, hr₂⟩ := ihr hr
      omega

/-- New leaves never make the heights of two siblings differ by more than two. -/
theorem AvlExceptNew.heightsWithin_two (h : t.AvlExceptNew) :
    t.shape.HeightsWithin 2 := by
  induction t with
  | nil => trivial
  | node l x r ihl ihr =>
    rw [shape_node, HeightsWithin]
    rcases h with ⟨-, rfl, rfl⟩ | ⟨-, hle, hge, hl, hr⟩
    · simp [HeightsWithin, height]
    · have hlb := hl.height_bounds
      have hrb := hr.height_bounds
      exact ⟨by omega, by omega, ihl hl, ihr hr⟩

/-! ### Where new leaves lie -/

/-- The depths of the leaves that do not count. -/
def newDepths : HeightTree α → List Int
  | .nil => []
  | .node l x r => if x.2 = -1 then [0] else (l.newDepths ++ r.newDepths).map (· + 1)

/-- A leaf that does not count lies below all that count. -/
def Outgrown (t : HeightTree α) : Prop := t.stored + 1 ∈ t.newDepths

/-- Where one subtree of a node has the greater stored height and is outgrown, so is the other
    one. -/
def Settled : HeightTree α → Prop
  | .nil => True
  | .node l _ r => (r.stored < l.stored → l.Outgrown → r.Outgrown) ∧
    (l.stored < r.stored → r.Outgrown → l.Outgrown) ∧ Settled l ∧ Settled r

theorem AvlExceptNew.newDepths_le (h : t.AvlExceptNew) : ∀ d ∈ t.newDepths, d ≤ t.stored + 1 := by
  induction t with
  | nil => simp [newDepths]
  | node l x r ihl ihr =>
    rw [newDepths, stored_node]
    rcases h with ⟨hnew, -, -⟩ | ⟨hx, -, -, hl, hr⟩
    · simp [hnew]
    · have hge := hl.stored_ge
      rw [if_neg (by omega)]
      intro d hd
      obtain ⟨d', hd', rfl⟩ := List.mem_map.mp hd
      rcases List.mem_append.mp hd' with hd' | hd'
      · have := ihl hl d' hd'
        omega
      · have := ihr hr d' hd'
        omega

/-- A node that counts is outgrown together with a subtree that is as high as any. -/
theorem outgrown_node {l r : HeightTree α} {x : α × Int} (hl : l.AvlExceptNew) (hr : r.AvlExceptNew)
    (hx : x.2 = max l.stored r.stored + 1) :
    (SearchTree.node l x r).Outgrown ↔
      (r.stored ≤ l.stored ∧ l.Outgrown) ∨ (l.stored ≤ r.stored ∧ r.Outgrown) := by
  have hge := hl.stored_ge
  have hdepth : ∀ (t : HeightTree α) (k : Int), t.AvlExceptNew → t.stored ≤ k →
      (k + 1 ∈ t.newDepths ↔ k ≤ t.stored ∧ t.Outgrown) := by
    intro t k ht hk
    constructor
    · intro hmem
      have hle := ht.newDepths_le _ hmem
      obtain rfl : k = t.stored := by omega
      exact ⟨le_refl _, hmem⟩
    · rintro ⟨hle, hout⟩
      obtain rfl : k = t.stored := by omega
      exact hout
  unfold Outgrown
  rw [newDepths, stored_node, if_neg (by omega), hx]
  simp only [List.mem_map, List.mem_append, Int.add_left_inj, exists_eq_right]
  rw [hdepth l _ hl (le_max_left _ _), hdepth r _ hr (le_max_right _ _)]
  simp [Outgrown]

/-- The height is the stored one, and one more where a leaf that does not count lies below. -/
theorem AvlExceptNew.height_eq (h : t.AvlExceptNew) :
    (t.Outgrown → t.shape.height = t.stored + 1) ∧ (¬ t.Outgrown → t.shape.height = t.stored) := by
  induction t with
  | nil => simp [Outgrown, newDepths, height]
  | node l x r ihl ihr =>
    rcases h with ⟨hnew, rfl, rfl⟩ | ⟨hx, -, -, hl, hr⟩
    · simp [Outgrown, newDepths, height, hnew]
    · rw [outgrown_node hl hr hx, shape_node, height, stored_node, hx]
      have := ihl hl
      have := ihr hr
      by_cases hlo : l.Outgrown <;> by_cases hro : r.Outgrown <;> simp_all <;> omega

/-- The tree is balanced exactly if no leaf that does not count makes a subtree too high. -/
theorem AvlExceptNew.heightsWithin_one_iff (h : t.AvlExceptNew) :
    t.shape.HeightsWithin 1 ↔ t.Settled := by
  induction t with
  | nil => exact Iff.rfl
  | node l x r ihl ihr =>
    rw [shape_node, HeightsWithin, Settled]
    rcases h with ⟨-, rfl, rfl⟩ | ⟨-, hle, hge, hl, hr⟩
    · simp [HeightsWithin, height, Settled]
    · rw [ihl hl, ihr hr]
      have := hl.height_eq
      have := hr.height_eq
      by_cases hlo : l.Outgrown <;> by_cases hro : r.Outgrown <;> simp_all <;> omega

/-! ### Rebalancing -/

theorem rebalance_eq_update {l r : HeightTree α} (hle : l.stored ≤ r.stored + 1)
    (hge : r.stored ≤ l.stored + 1) (x : α) : rebalance l x r = update l x r := by
  unfold rebalance
  rw [if_neg (by omega), if_neg (by omega)]

/-- A side that is two higher is brought down by one rotation or by two. -/
theorem avlExceptNew_rebalance_side {child other : HeightTree α} (hchild : child.AvlExceptNew)
    (hother : other.AvlExceptNew) (hdiff : child.stored = other.stored + 2) (side : Side) (x : α) :
    (side.rebalance child x other).AvlExceptNew ∧
      child.stored ≤ (side.rebalance child x other).stored ∧
      (side.rebalance child x other).stored ≤ child.stored + 1 := by
  have hge := hother.stored_ge
  obtain ⟨a, y, b, rfl, hy, hab, hba, ha, hb⟩ := hchild.of_stored (by omega) side
  rw [stored_side_node] at hdiff ⊢
  by_cases hinner : a.stored < b.stored
  · -- the inner grandchild moves up
    have haGe := ha.stored_ge
    obtain ⟨b₁, z, b₂, rfl, hz, hb₁₂, hb₂₁, hb₁, hb₂⟩ := hb.of_stored (by omega) side
    rw [stored_side_node] at hy hab hba hinner
    rw [rebalance_side_inner (by omega) hinner]
    have hleft := avlExceptNew_update ha hb₁ (by omega) (by omega) side y.1
    have hright := avlExceptNew_update hb₂ hother (by omega) (by omega) side x
    refine ⟨avlExceptNew_update hleft hright ?_ ?_ side z.1, ?_, ?_⟩ <;>
      simp only [stored_side_update] <;> omega
  · rw [rebalance_side_outer (by omega) (not_lt.mp hinner)]
    have hright := avlExceptNew_update hb hother (by omega) (by omega) side x
    refine ⟨avlExceptNew_update ha hright ?_ ?_ side y.1, ?_, ?_⟩ <;>
      simp only [stored_side_update] <;> omega

section
variable {l r : HeightTree α} (hl : l.AvlExceptNew) (hr : r.AvlExceptNew)
include hl hr

/-- Sides that differ by at most two become a tree whose stored height is that of the higher side,
    or one more; without a rotation it is one more. -/
theorem avlExceptNew_rebalance (hle : l.stored ≤ r.stored + 2) (hge : r.stored ≤ l.stored + 2)
    (x : α) : (rebalance l x r).AvlExceptNew ∧ max l.stored r.stored ≤ (rebalance l x r).stored ∧
      (rebalance l x r).stored ≤ max l.stored r.stored + 1 ∧
      (l.stored ≤ r.stored + 1 → r.stored ≤ l.stored + 1 →
        (rebalance l x r).stored = max l.stored r.stored + 1) := by
  by_cases hleft : l.stored = r.stored + 2
  · obtain ⟨havl, hlow, hhigh⟩ := avlExceptNew_rebalance_side hl hr hleft .left x
    rw [Side.rebalance] at hlow hhigh
    exact ⟨havl, by omega, by omega, by omega⟩
  · by_cases hright : r.stored = l.stored + 2
    · obtain ⟨havl, hlow, hhigh⟩ := avlExceptNew_rebalance_side hr hl hright .right x
      rw [Side.rebalance] at hlow hhigh
      exact ⟨havl, by omega, by omega, by omega⟩
    · rw [rebalance_eq_update (by omega) (by omega), stored_update]
      exact ⟨avlExceptNew_update hl hr (by omega) (by omega) .left x, by omega, le_refl _,
        fun _ _ => rfl⟩

end

/-! ### Edits along a descent -/

section edit
variable {K : Type} [LinearOrder K] (key : α → K)

/-- What stands at the place of `k` is replaced by what `found` makes of it, and every node above is
    rebalanced. -/
def edit (k : K) (found : HeightTree α → HeightTree α) : HeightTree α → HeightTree α
  | .nil => found .nil
  | .node l x r =>
    if k < key x.1 then rebalance (edit k found l) x.1 r
    else if key x.1 < k then rebalance l x.1 (edit k found r)
    else found (.node l x r)

variable {key} in
theorem edit_side {side : Side} {k : K} {x : α × Int} (h : side.Toward k (key x.1))
    (found : HeightTree α → HeightTree α) (child other : HeightTree α) :
    edit key k found (side.node child x other) =
      side.rebalance (edit key k found child) x.1 other := by
  cases side with
  | left => exact if_pos h
  | right => exact (if_neg (lt_asymm h)).trans (if_pos h)

variable {key} in
theorem edit_here {k : K} {x : α × Int} (h : key x.1 = k) (found : HeightTree α → HeightTree α)
    (l r : HeightTree α) : edit key k found (.node l x r) = found (.node l x r) := by
  rw [edit, if_neg (by rw [h]; exact lt_irrefl k), if_neg (by rw [h]; exact lt_irrefl k)]

/-- A new leaf in the place of an empty tree. -/
def link (x : α × Int) : HeightTree α → HeightTree α
  | .nil => .node .nil x .nil
  | t => t

/-- A node whose height is stored anew. -/
def revisit : HeightTree α → HeightTree α
  | .nil => .nil
  | .node l x r => rebalance l x.1 r

/-- What may be done at the place of an edit: the invariant stays, and the stored height grows by at
    most one. In the place of an empty tree nothing is put that counts. -/
structure Replaces (found : HeightTree α → HeightTree α) : Prop where
  nil : (found .nil).AvlExceptNew ∧ (found .nil).stored = -1
  node : ∀ l x r, AvlExceptNew (.node l x r) → (found (.node l x r)).AvlExceptNew ∧
    x.2 ≤ (found (.node l x r)).stored ∧ (found (.node l x r)).stored ≤ x.2 + 1

theorem replaces_id : Replaces (id : HeightTree α → HeightTree α) :=
  ⟨⟨trivial, rfl⟩, fun _ x _ h => ⟨h, le_refl x.2, Int.le_add_one (le_refl x.2)⟩⟩

theorem replaces_link (x : α) : Replaces (link (x, -1)) :=
  ⟨⟨Or.inl ⟨rfl, rfl, rfl⟩, rfl⟩, fun _ y _ h => ⟨h, le_refl y.2, Int.le_add_one (le_refl y.2)⟩⟩

/-- A visit of a node that counts changes nothing; one that is new then counts. -/
theorem replaces_revisit : Replaces (revisit : HeightTree α → HeightTree α) := by
  refine ⟨⟨trivial, rfl⟩, fun l x r h => ?_⟩
  rw [revisit]
  rcases h with ⟨hnew, rfl, rfl⟩ | ⟨hx, hle, hge, hl, hr⟩
  · obtain ⟨havl, -, -, hstored⟩ := avlExceptNew_rebalance (l := .nil) (r := .nil)
      trivial trivial (by simp) (by simp) x.1
    rw [hstored (by simp) (by simp), hnew]
    exact ⟨havl, by simp, by simp⟩
  · obtain ⟨havl, -, -, hstored⟩ := avlExceptNew_rebalance hl hr (by omega) (by omega) x.1
    rw [hstored hle hge, hx]
    exact ⟨havl, le_refl _, by omega⟩

variable {key}

/-- An edit keeps the invariant, and the stored height at the root grows by at most one. -/
theorem AvlExceptNew.edit {found : HeightTree α → HeightTree α} (hfound : Replaces found) (k : K)
    {t : HeightTree α} (h : t.AvlExceptNew) :
    (t.edit key k found).AvlExceptNew ∧ t.stored ≤ (t.edit key k found).stored ∧
      (t.edit key k found).stored ≤ t.stored + 1 := by
  induction t with
  | nil =>
    obtain ⟨havl, hstored⟩ := hfound.nil
    rw [SearchTree.edit, hstored, stored_nil]
    exact ⟨havl, le_refl _, by decide⟩
  | node l x r ihl ihr =>
    have hhere := hfound.node l x r h
    unfold SearchTree.edit
    rcases h with ⟨hnew, rfl, rfl⟩ | ⟨hx, hle, hge, hl, hr⟩
    · -- below a new leaf only another new leaf can be put, so the sides stay level
      have hnil : (SearchTree.edit key k found .nil).AvlExceptNew ∧
          (SearchTree.edit key k found .nil).stored = -1 := hfound.nil
      obtain ⟨havl, hstored⟩ := hnil
      have hleft :=
        avlExceptNew_rebalance havl (show (.nil : HeightTree α).AvlExceptNew from trivial)
        (by simp [hstored]) (by simp [hstored]) x.1
      have hright :=
        avlExceptNew_rebalance (show (.nil : HeightTree α).AvlExceptNew from trivial) havl
        (by simp [hstored]) (by simp [hstored]) x.1
      simp only [stored_nil, stored_node, hstored] at hleft hright ⊢
      split_ifs
      · exact ⟨hleft.1, by omega, by omega⟩
      · exact ⟨hright.1, by omega, by omega⟩
      · exact hhere
    · obtain ⟨hl', hlow, hhigh⟩ := ihl hl
      obtain ⟨hr', hrow, hrigh⟩ := ihr hr
      have hleft := avlExceptNew_rebalance hl' hr (by omega) (by omega) x.1
      have hright := avlExceptNew_rebalance hl hr' (by omega) (by omega) x.1
      rw [stored_node]
      split_ifs
      · exact ⟨hleft.1, by omega, by omega⟩
      · exact ⟨hright.1, by omega, by omega⟩
      · exact hhere

end edit

end SearchTree

end Lib

import MemDb.Db.Represents

/-! # The recursive edits on represented trees

  What `insertRecursive` and `removeRecursiveData` do to the shape a subtree
  represents. Both descend to one node and rebalance on the way back, so one induction
  (`Descent.edits`) carries what is done there to the whole tree.
-/

namespace MemDb

open Lib SearchTree List Option UInt32

namespace AVLTree

variable {s s' : SearchTree Cell} {t t' : AVLTree} {A : List Nat}

section descent
variable {k : Nat} {Ret : Nat → Ptr → AVLTree → Ptr → Prop} {Safe : SearchTree Cell → Prop}
  {H : HeightTree Cell → HeightTree Cell → Prop}

/-- A recursion on `t` that goes towards the hash `k` and rebalances on the way back.
    `Ret fuel p t' q` says that a call at `p` leaves `t'` and that its caller stores `q`, `Safe`
    where that is right, and `H` what becomes of the stored heights. -/
structure Descent (t : AVLTree) (k : Nat) (Ret : Nat → Ptr → AVLTree → Ptr → Prop)
    (Safe : SearchTree Cell → Prop) (H : HeightTree Cell → HeightTree Cell → Prop) : Prop where
  step : ∀ {side : SearchTree.Side} {child other : SearchTree Cell} {c : Cell} {fuel : Nat}
    {t1 t2 t3 : AVLTree} {p q : Ptr}, side.Toward k c.hash → Safe (side.node child c other) →
    SideAt t c side (rootPtr child) (rootPtr other) → Ret fuel (rootPtr child) t1 p →
    t1.setChild side c.addr p = some t2 → t2.rebalance c.addr = some (t3, q) → q ≠ none →
    Ret (fuel + 1) (some c.addr) t3 q
  safe : ∀ {side : SearchTree.Side} {child other : SearchTree Cell} {c : Cell},
    side.Toward k c.hash → Safe (side.node child c other) → Safe child
  heights : ∀ {side : SearchTree.Side} {a a' b : HeightTree Cell} {x : Cell × Int},
    side.Toward k x.1.hash → H a a' → H (side.node a x b) (side.rebalance a' x.1 b)

/-- A call edits the shape `s`, and `mid'` takes the place of `mid` in its listing. -/
def Edits (Ret : Nat → Ptr → AVLTree → Ptr → Prop) (H : HeightTree Cell → HeightTree Cell → Prop)
    (A : List Nat) (mid mid' : List Cell) (t : AVLTree) (fuel : Nat) (s : SearchTree Cell) : Prop :=
  ∃ t' s', Ret fuel (rootPtr s) t' (rootPtr s') ∧ H (heights t s) (heights t' s') ∧
    Spliced Cell.hash mid mid' s s' ∧ Edited A t s t' s'

/-- What is done at the place of `k` is done to the tree. -/
theorem Descent.edits (hd : Descent t k Ret Safe H) (A : List Nat) (mid mid' : List Cell)
    (hmid : ∀ y ∈ mid', y.hash = k) {fuel : Nat} (hfuel : s.toList.length < fuel) (hs : Placed t s)
    (hsafe : Safe s) (hA : ∀ a ∈ A, a ∉ addrs s)
    (hnil : s.find Cell.hash k = none → Placed t .nil →
      ∀ fuel, Edits Ret H A mid mid' t (fuel + 1) .nil)
    (hhere : ∀ l c r, s.find Cell.hash k = some c → c.hash = k → Placed t (.node l c r) →
      Safe (.node l c r) → ∀ fuel, Edits Ret H A mid mid' t (fuel + 1) (.node l c r)) :
    Edits Ret H A mid mid' t fuel s := by
  obtain ⟨fuel, rfl⟩ : ∃ n, fuel = n + 1 := ⟨fuel - 1, by omega⟩
  induction s using descent Cell.hash k generalizing fuel with
  | nil => exact hnil rfl hs fuel
  | here l c r heq => exact hhere l c r (if_pos heq) heq hs hsafe fuel
  | below side child c other hside ih =>
    have hlength := (toList_side_perm side child c other).length_eq
    rw [length_cons, length_append] at hlength
    obtain ⟨fuel, rfl⟩ : ∃ n, fuel = n + 1 := ⟨fuel - 1, by omega⟩
    simp only [mem_addrs_side, not_or] at hA
    simp only [find_side Cell.hash hside] at hnil hhere
    -- below: edit the child, write the pointer back, rebalance the node
    obtain ⟨t1, child', hret, hheights, hspliced, hed⟩ := ih hs.child.1 (hd.safe hside hsafe)
      (fun a ha => (hA a ha).1) hnil hhere fuel (by omega)
    obtain ⟨t2, hset, ⟨hhchild, hhother⟩, hed2⟩ := hed.setChild hs fun a ha => (hA a ha).2
    obtain ⟨t', s', hreb, hheights', hre⟩ := rebalance_side hed2.placed
    have hne : rootPtr s' ≠ none := by
      rw [Ne, rootPtr_eq_none_iff, hre.toList, ← rootPtr_eq_none_iff, rootPtr_side]
      simp
    refine ⟨t', s',
      rootPtr_side ▸ hd.step hside hsafe (rep_side_iff.mp hs.rep).1 hret hset hreb hne,
      ?_, hspliced.side hmid hside hre.toList, hed2.trans hre.toEdited⟩
    rw [hheights', hhchild, hhother, heights_side]
    exact hd.heights hside hheights

end descent

/-- The stored data refuses an edit under the same hash: it is a counter, or timestamps are
    checked and it has the greater one. Insertions and removals ask the same question. -/
def refuses (d : NodeData) (timestamp : LamportClock) (strategy : UpdateClockStrategy)
    (checkTimestamps : Bool) : Bool :=
  match d with
  | .counter _ => true
  | .data x => !(strategy == .NONE || !checkTimestamps) && x.timestamp.gt timestamp

/-! ### Insertion -/

section insertion

variable {σ : Type} {atNull : AVLTree → σ → Option (AVLTree × σ)}
  {atEqual : AVLTree → σ → Nat → Option (Option (AVLTree × σ))}
  {t t1 : AVLTree} {x x1 : σ} {new c : Cell} {left right : Ptr} {q : Ptr} {t2 : AVLTree}

section
variable (hnew : NodeAt t new none none)
include hnew

theorem insertRecursive_side {side : SearchTree.Side} (hc : SideAt t c side left right)
    (hside : side.Toward new.hash c.hash) {fuel : Nat} {p : Ptr} {t3 : AVLTree}
    (hrec : insertRecursive atNull atEqual new.addr fuel t x left = some (t1, x1, p))
    (hset : (if p ≠ none then t1.setChild side c.addr p else some t1) = some t2)
    (hreb : t2.rebalance c.addr = some (t3, q)) :
    insertRecursive atNull atEqual new.addr (fuel + 1) t x (some c.addr)
      = some (t3, x1, q) := by
  obtain ⟨_, _, hnew⟩ := hnew
  cases side with
  | left =>
    obtain ⟨_, _, hc⟩ := hc
    have hgt : new.keyHash < c.keyHash := lt_iff_toNat_lt.mpr hside
    by_cases hp : p = none <;>
      simp_all [insertRecursive, setChild]
  | right =>
    obtain ⟨_, _, hc⟩ := hc
    have hlt : c.keyHash < new.keyHash := lt_iff_toNat_lt.mpr hside
    have hngt : ¬ new.keyHash < c.keyHash := UInt32.lt_asymm hlt
    by_cases hp : p = none <;>
      simp_all [insertRecursive, setChild]

variable (hc : NodeAt t c left right)
include hc

theorem insertRecursive_equal (heq : c.hash = new.hash) (fuel : Nat) :
    insertRecursive atNull atEqual new.addr (fuel + 1) t x (some c.addr) =
      (atEqual t x c.addr).bind fun accepted => accepted.elim (some (t, x, none)) fun (t, x) =>
        (t.rebalance c.addr).bind fun (t, q) => some (t, x, q) := by
  obtain ⟨_, _, hc⟩ := hc
  obtain ⟨_, _, hnew⟩ := hnew
  have heq' : c.keyHash = new.keyHash := UInt32.toNat_inj.mp heq
  simp only [insertRecursive, hc, hnew, heq', gt_iff_lt, UInt32.lt_irrefl, if_false,
    bind_eq_bind, bind_some]
  rcases atEqual t x c.addr with _ | _ | ⟨t1, x1⟩ <;> rfl

end

/-- A call of `insertRecursive` at `p` returns what its caller stores, or `nullptr` at the node that
    refuses; then the caller keeps what it has. -/
def InsertReturns (atNull : AVLTree → σ → Option (AVLTree × σ))
    (atEqual : AVLTree → σ → Nat → Option (Option (AVLTree × σ))) (toInsert : Nat) (t : AVLTree)
    (x x1 : σ) (refusing : Nat) (fuel : Nat) (p : Ptr) (t' : AVLTree) (q : Ptr) : Prop :=
  ∃ r, insertRecursive atNull atEqual toInsert fuel t x p = some (t', x1, r) ∧
    (p ≠ some refusing ∧ r = q ∧ q ≠ none ∨ p = some refusing ∧ r = none ∧ q = p ∧ t' = t)

/-- Along the descent only the data of `t` has changed, to `datas`. -/
theorem insertReturns_descent (hnew : NodeAt t new none none) (hc : NodeAt t c left right)
    (heq : c.hash = new.hash) (datas : Heap NodeData) (found : HeightTree Cell → HeightTree Cell) :
    Descent { t with datas := datas } new.hash
      (InsertReturns atNull atEqual new.addr t x x1 c.addr) (fun _ => True)
      fun a b => b = a.edit Cell.hash new.hash found := by
  refine ⟨?_, fun _ h => h, fun hside h => by rw [h, edit_side hside]⟩
  rintro side child other y fuel t2 t3 t4 p q hside - hy ⟨r, hrun, hr⟩ hset hreb hq
  replace hy : SideAt t y side (rootPtr child) (rootPtr other) := by cases side <;> exact hy
  refine ⟨q, insertRecursive_side hnew hy hside hrun ?_ hreb, .inl ⟨fun haddr => ?_, rfl, hq⟩⟩
  · rcases hr with ⟨-, rfl, hne⟩ | ⟨-, rfl, rfl, rfl⟩
    · rw [if_pos hne, hset]
    · rw [if_neg (by simp), ← hset, setChild_same hy]
  · -- the node that refuses has the hash that is looked for
    obtain ⟨_, _, hc⟩ := hc
    rw [← some.inj haddr] at hc
    cases side <;>
    · obtain ⟨_, _, hy⟩ := hy
      have hkey : y.keyHash = c.keyHash := congrArg AVLNode.keyHash (some.inj (hy.symm.trans hc))
      rw [← heq, Cell.hash, Cell.hash, hkey] at hside
      exact lt_irrefl _ hside

/-- At `nullptr` the new node is the whole subtree. -/
theorem insertReturns_nil (atEqual : AVLTree → σ → Nat → Option (Option (AVLTree × σ)))
    (hnull : atNull t x = some (t1, x1)) (hnew : NodeAt t1 new none none)
    (hroot : t1.root ≠ some new.addr)
    (refusing fuel : Nat) :
    Edits (InsertReturns atNull atEqual new.addr t x x1 refusing)
      (fun a b => b = a.edit Cell.hash new.hash (SearchTree.link (new, t1.heightAt new)))
      [new.addr] [] [new] t1 (fuel + 1) .nil := by
  let t' := if t1.root = none then { t1 with root := some new.addr } else t1
  have hnode : ∀ a, t'.node a = t1.node a := by
    intro a
    simp only [t']
    split <;> rfl
  refine ⟨t', .node .nil new .nil,
    ⟨some new.addr, by simp [insertRecursive, hnull, t'], .inl (by simp)⟩, ?_,
    ⟨⟨[], [], rfl, rfl⟩, fun _ => by simp [ordered_node_iff]⟩, ⟨?_, trivial, trivial⟩, by simp,
    by simp,
    ⟨by simp only [t']; split <;> rfl, fun a _ => hnode a⟩, by simp only [t']; split <;> rfl, ?_⟩
  · rw [heights_node, heightAt_congr (hnode new.addr)]
    rfl
  · obtain ⟨height, hge, hn⟩ := hnew
    exact ⟨height, hge, (hnode _).trans hn⟩
  · -- an empty tree has no root pointer to keep, so the new node becomes the root
    cases hr : t1.root with
    | none => simp [t', hr]
    | some a => simpa [t', hr, RootAbove] using fun heq => hroot (hr.trans (congrArg some heq))

end insertion

/-! ### Removal -/

section removal

variable {t t1 t2 t3 : AVLTree} {e e1 : Edit} {removed removed1 : Bool} {c : Cell}
  {left right p q : Ptr} {keyHash : UInt32} {timestamp : LamportClock}
  {strategy : UpdateClockStrategy} {checkTimestamps : Bool} {fuel : Nat}

/-- The descent of a removal meets no node with a smaller hash and a child, and a node it
    would remove lacks a child. -/
def RemovalSafe (refused : Cell → Prop) (h : Nat) : SearchTree Cell → Prop
  | .nil => True
  | .node l c r =>
    if h < c.hash then RemovalSafe refused h l
    else if c.hash < h then l = .nil ∧ r = .nil
    else refused c ∨ l = .nil ∨ r = .nil

theorem unlink_spec (t : AVLTree) (a : Nat) (child : Ptr) :
    Touches [a] t (t.unlink a child) ∧ (t.unlink a child).datas = t.datas ∧
      (t.unlink a child).root = if t.root = some a then child else t.root := by
  refine ⟨⟨?_, fun b hb => ?_⟩, ?_, ?_⟩
  · simp only [unlink, deleteNode, Heap.next_free]
    split <;> rfl
  · have hne : b ≠ a := by simpa using hb
    simp only [unlink, deleteNode, node, Heap.read_free_ne _ hne]
    split <;> rfl
  · simp only [unlink, deleteNode]
    split <;> rfl
  · simp only [unlink, deleteNode]
    split
    · rfl
    · rfl

/-- A greater hash is looked for in the left child too, and what came back is stored as the
    right one. -/
theorem removeRecursiveData_side (side : SearchTree.Side) (hc : NodeAt t c left right)
    (hside : side.Toward keyHash.toNat c.hash)
    (hrec : removeRecursiveData fuel t e removed left keyHash timestamp strategy checkTimestamps
      = some (t1, e1, removed1, p))
    (hset : t1.setChild side c.addr p = some t2) (hreb : t2.rebalance c.addr = some (t3, q)) :
    removeRecursiveData (fuel + 1) t e removed (some c.addr) keyHash timestamp strategy
      checkTimestamps = some (t3, e1, removed1, q) := by
  obtain ⟨_, _, hc⟩ := hc
  cases side with
  | left =>
    have hgt : keyHash < c.keyHash := lt_iff_toNat_lt.mpr hside
    have hset' : t1.setLeft c.addr p = some t2 := hset
    simp [removeRecursiveData, hc, hgt, hrec, hset', hreb]
  | right =>
    have hlt : c.keyHash < keyHash := lt_iff_toNat_lt.mpr hside
    have hngt : ¬ keyHash < c.keyHash := UInt32.lt_asymm hlt
    have hset' : t1.setRight c.addr p = some t2 := hset
    simp [removeRecursiveData, hc, hngt, hlt, hrec, hset', hreb]

variable {d : NodeData}

theorem removeRecursiveData_refused (hc : NodeAt t c left right) (heq : c.hash = keyHash.toNat)
    (hd : t.datas.read c.data = some d) (htype : d.nodeType = c.nodeType)
    (hrefuse : refuses d timestamp strategy checkTimestamps = true) :
    removeRecursiveData (fuel + 1) t e removed (some c.addr) keyHash timestamp strategy
      checkTimestamps = some (t, { e with result := ⟨0⟩ }, false, some c.addr) := by
  obtain ⟨_, _, hc⟩ := hc
  have heq' : c.keyHash = keyHash := UInt32.toNat_inj.mp heq
  cases d with
  | counter k =>
    have htype' : c.nodeType ≠ .DATA := by rw [← htype]; simp [NodeData.nodeType]
    simp [removeRecursiveData, hc, heq', htype']
  | data x =>
    have htype' : c.nodeType = .DATA := htype.symm
    have hdata : t.dataNode c.data = some x := by simp [dataNode, hd]
    simp only [refuses] at hrefuse
    simp only [removeRecursiveData, hc, heq', gt_iff_lt, UInt32.lt_irrefl, htype', ne_eq,
      not_true_eq_false, hdata, hrefuse, if_true, if_false, bind_eq_bind,
      bind_some]

/-- A node that is removed and lacks a child is unlinked, and the other child rebalanced. -/
theorem removeRecursiveData_unlink (fuel : Nat) (e : Edit) (removed : Bool)
    (hc : NodeAt t c left right) (heq : c.hash = keyHash.toNat) (hd : t.datas.read c.data = some d)
    (htype : d.nodeType = c.nodeType)
    (haccept : refuses d timestamp strategy checkTimestamps = false)
    (hchild : left = none ∨ right = none) (hp : (if left = none then right else left) = p) :
    removeRecursiveData (fuel + 1) t e removed (some c.addr) keyHash timestamp strategy
        checkTimestamps
      = p.elim (some (t.unlink c.addr p, ⟨(e.clock.update strategy timestamp.counter).1,
            ⟨(e.clock.update strategy timestamp.counter).2⟩⟩, true, none))
          fun a => ((t.unlink c.addr p).rebalance a).bind fun q =>
            some (q.1, ⟨(e.clock.update strategy timestamp.counter).1,
              ⟨(e.clock.update strategy timestamp.counter).2⟩⟩, true, q.2) := by
  obtain ⟨_, _, hc⟩ := hc
  have heq' : c.keyHash = keyHash := UInt32.toNat_inj.mp heq
  cases d with
  | counter k => simp [refuses] at haccept
  | data x =>
    have htype' : c.nodeType = .DATA := htype.symm
    have hdata : t.dataNode c.data = some x := by simp [dataNode, hd]
    simp only [refuses] at haccept
    simp only [removeRecursiveData, hc, heq', gt_iff_lt, UInt32.lt_irrefl, htype', ne_eq,
      not_true_eq_false, hdata, haccept, if_false, bind_eq_bind, bind_some]
    rw [← hp]
    rcases hchild with rfl | rfl
    · cases right <;> rfl
    · cases left <;> rfl

/-- Unlink a node with at most one child: its child takes its place. -/
theorem removeRecursiveData_removed {l r : SearchTree Cell} (h : Placed t (.node l c r))
    (heq : c.hash = keyHash.toNat) (hd : t.datas.read c.data = some d)
    (htype : d.nodeType = c.nodeType)
    (haccept : refuses d timestamp strategy checkTimestamps = false)
    (hchild : l = .nil ∨ r = .nil) :
    ∃ t' s', removeRecursiveData (fuel + 1) t e removed (some c.addr) keyHash timestamp strategy
        checkTimestamps = some (t', ⟨(e.clock.update strategy timestamp.counter).1,
          ⟨(e.clock.update strategy timestamp.counter).2⟩⟩, true, rootPtr s') ∧
      s'.toList = l.toList ++ r.toList ∧ Edited [] t (.node l c r) t' s' := by
  obtain ⟨hc, hl, hr⟩ := h.rep
  -- the child that takes the place of `c`
  obtain ⟨child, hchildrep, hlist, hptr⟩ : ∃ child, Rep t child ∧
      child.toList = l.toList ++ r.toList ∧
      (if rootPtr l = none then rootPtr r else rootPtr l) = rootPtr child := by
    rcases hchild with rfl | rfl
    · exact ⟨r, hr, rfl, rfl⟩
    · refine ⟨l, hl, by simp, ?_⟩
      split
      · next h => rw [h]; rfl
      · rfl
  have hnone : rootPtr l = none ∨ rootPtr r = none :=
    hchild.imp (fun h => by rw [h, rootPtr_nil]) (fun h => by rw [h, rootPtr_nil])
  have hrun := removeRecursiveData_unlink fuel e removed hc heq hd htype haccept hnone hptr
  have haddrs : addrs child = addrs l ++ addrs r := by simp [addrs, hlist]
  obtain ⟨ht1, hdat1, hroot1⟩ := unlink_spec t c.addr (rootPtr child)
  have hed : Edited [] t (.node l c r) (t.unlink c.addr (rootPtr child)) child := by
    have hnd := h.nodup
    simp only [addrs_node, nodup_append, nodup_cons, mem_cons] at hnd
    refine ⟨hchildrep.frame ht1 (by rw [haddrs]; grind), ?_, ?_, ht1.mono (by simp), hdat1, ?_⟩
    · rw [haddrs, nodup_append]
      grind
    · rw [haddrs]
      simp only [addrs_node, nil_append, mem_append, mem_cons]
      grind
    · rcases h.root with hroot | habove
      · exact .inl ⟨hroot, hroot1.trans (if_pos hroot)⟩
      · replace hroot1 := hroot1.trans (if_neg habove.ne_rootPtr)
        obtain ⟨a, ha, hnot⟩ := id habove
        refine .inr ⟨hroot1, habove, a, hroot1.trans ha, fun hmem => hnot ?_⟩
        simp only [haddrs, addrs_node, mem_append, mem_cons] at hmem ⊢
        tauto
  cases child with
  | nil => exact ⟨_, .nil, hrun, hlist, hed⟩
  | node a x b =>
    obtain ⟨t', s', hreb, -, hre⟩ := rebalance_spec hed.placed
    refine ⟨t', s', ?_, hre.toList.trans hlist, hed.trans hre.toEdited⟩
    rw [hrun, rootPtr_node, elim_some, ← rootPtr_node a x b, hreb, bind_some]

theorem removeRecursiveData_descent (e e1 : Edit) (removed removed1 : Bool)
    (refused : Cell → Prop) :
    Descent t keyHash.toNat
      (fun fuel p t' q => removeRecursiveData fuel t e removed p keyHash timestamp
      strategy checkTimestamps = some (t', e1, removed1, q)) (RemovalSafe refused keyHash.toNat)
      fun _ _ => True := by
  -- to the right there is no child
  have hright : ∀ {child other : SearchTree Cell} {c : Cell}, c.hash < keyHash.toNat →
      RemovalSafe refused keyHash.toNat (.node other c child) → other = .nil ∧ child = .nil := by
    intro child other c hlt hsafe
    rwa [RemovalSafe, if_neg (lt_asymm hlt), if_pos hlt] at hsafe
  refine ⟨?_, ?_, fun _ _ => trivial⟩
  · intro side child other c fuel t1 t2 t3 p q hside hsafe hc hrec hset hreb _
    cases side with
    | left => exact removeRecursiveData_side .left hc hside hrec hset hreb
    | right =>
      obtain ⟨rfl, rfl⟩ := hright hside hsafe
      exact removeRecursiveData_side .right hc hside hrec hset hreb
  · intro side child other c hside hsafe
    cases side with
    | left =>
      have hlt : keyHash.toNat < c.hash := hside
      rwa [SearchTree.Side.node, RemovalSafe, if_pos hlt] at hsafe
    | right =>
      rw [(hright hside hsafe).2]
      trivial

end removal

end AVLTree

end MemDb

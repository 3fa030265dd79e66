import MemDb.Db.Removal
import MemDb.Lib.Run

/-! # Sequences of insertions

  A bucket that is only written to: every sequence of `addData` and `addCounter` calls from
  the empty tree. All of them return, so no rotation is applied to a node without
  the child it rotates up, and what they leave is a search tree that holds the
  hashes of the calls: `lookup` finds them and `getOrderedByHash` lists them.

  What the caller is told is another matter. A refusal travels up as a null pointer, and the
  first node above the refusing one replaces it by a pointer of its own; only a
  refusal by the root reaches the caller.
-/

namespace MemDb

open Lib Option List

namespace AVLTree

/-! ### Listing a tree -/

theorem getOrderedByHashRecursive_spec {t : AVLTree} {s : SearchTree Cell} (hrep : Rep t s)
    (hdata : ∀ c ∈ s.toList, ∃ d, t.datas.read c.data = some d) {fuel : Nat}
    (hfuel : s.toList.length < fuel) (toReturn : List MapEntry) :
    t.getOrderedByHashRecursive fuel (rootPtr s) toReturn
      = some (toReturn ++ s.toList.filterMap (cellEntry t)) := by
  induction s generalizing fuel toReturn with
  | nil =>
    obtain ⟨fuel, rfl⟩ : ∃ k, fuel = k + 1 := ⟨fuel - 1, by omega⟩
    simp [getOrderedByHashRecursive]
  | node l c r ihl ihr =>
    obtain ⟨fuel, rfl⟩ : ∃ k, fuel = k + 1 := ⟨fuel - 1, by omega⟩
    simp only [SearchTree.toList_node, length_append, length_cons] at hfuel
    simp only [SearchTree.toList_node, mem_append, mem_cons] at hdata
    obtain ⟨⟨height, -, hnode⟩, hl, hr⟩ := hrep
    obtain ⟨d, hd⟩ := hdata c (by simp)
    have hleft := @ihl hl (fun c hc => hdata c (by simp [hc])) fuel (by omega) toReturn
    have hright := @ihr hr (fun c hc => hdata c (by simp [hc])) fuel (by omega)
    have hentry : cellEntry t c = some ⟨c.key, c.keyHash, c.nodeType, d⟩ := by simp [cellEntry, hd]
    simp [getOrderedByHashRecursive, hnode, hleft, hd, hright, hentry]

variable {s : SearchTree Cell} {t : AVLTree}

theorem Holds.getOrderedByHash (hs : Holds t s) :
    t.getOrderedByHash = some (s.toList.filterMap (cellEntry t)) := by
  rw [AVLTree.getOrderedByHash, hs.root, getOrderedByHashRecursive_spec hs.rep _
    (Nat.lt_succ_of_le hs.length_le) [], nil_append]
  intro c hc
  obtain ⟨d, hd, -⟩ := hs.data c hc
  exact ⟨d, hd⟩

/-- The listing of a well-formed tree has the entries that lookups find, with increasing hashes. -/
theorem WellFormed.getOrderedByHash (hwf : WellFormed t) :
    ∃ entries, t.getOrderedByHash = some entries ∧
      entries.Pairwise (fun e e' => e.keyHash < e'.keyHash) ∧
      ∀ e, e ∈ entries ↔ t.view e.keyHash = some e := by
  obtain ⟨s, hs⟩ := hwf
  refine ⟨_, hs.getOrderedByHash, ?_, ?_⟩
  · refine Pairwise.filterMap (R := fun c c' : Cell => c.hash < c'.hash) _ ?_ hs.ordered
    intro c c' hlt e he e' he'
    obtain ⟨d, -, rfl⟩ := map_eq_some_iff.mp he
    obtain ⟨d', -, rfl⟩ := map_eq_some_iff.mp he'
    exact UInt32.lt_iff_toNat_lt.mpr hlt
  · intro e
    rw [mem_filterMap, hs.view_eq_some_iff]
    constructor
    · rintro ⟨c, hc, he⟩
      obtain ⟨d, -, rfl⟩ := map_eq_some_iff.mp he
      exact ⟨c, hc, rfl, he⟩
    · rintro ⟨c, hc, -, he⟩
      exact ⟨c, hc, he⟩

/-! ### Calls -/

/-- A call that inserts. -/
inductive InsertCall where
  | addData (key : SimpleString) (keyHash : UInt32) (value : SimpleString)
    (timestamp : LamportClock)
      (strategy : UpdateClockStrategy) (clock : LamportClock) (requestFromNode : Bool)
  | addCounter (key : SimpleString) (keyHash : UInt32) (selfNodeId : UInt16) (nNodes : UInt32)
deriving DecidableEq

namespace InsertCall

def keyHash : InsertCall → UInt32
  | addData _ keyHash _ _ _ _ _ => keyHash
  | addCounter _ keyHash _ _ => keyHash

/-- The call on a tree. -/
def apply : InsertCall → AVLTree → Option AVLTree
  | addData key keyHash value timestamp strategy clock requestFromNode, t =>
    (t.addData key keyHash value timestamp strategy clock requestFromNode).map (·.1)
  | addCounter key keyHash selfNodeId nNodes, t =>
    (t.addCounter key keyHash selfNodeId nNodes).map (·.1)

/-- Every call returns. The tree is edited at the place of the hash, which is held afterwards; of
    the other hashes the same are held as before. -/
theorem apply_spec {t : AVLTree} (hwf : WellFormed t) (call : InsertCall) :
    ∃ t' found, call.apply t = some t' ∧ WellFormed t' ∧
      (∀ h, t'.view h ≠ none ↔ h = call.keyHash ∨ t.view h ≠ none) ∧
      SearchTree.Replaces found ∧
      t'.tree = t.tree.map (·.edit Cell.hash call.keyHash.toNat found) := by
  obtain ⟨t', found, hrun, hwf', hview, hreplaces, htree⟩ : ∃ t' found, call.apply t = some t' ∧
      WellFormed t' ∧ ((∃ entry, t'.view = Function.update t.view call.keyHash (some entry)) ∨
        t.view call.keyHash ≠ none ∧ t'.view = t.view) ∧ SearchTree.Replaces found ∧
      t'.tree = t.tree.map (·.edit Cell.hash call.keyHash.toNat found) := by
    cases call with
    | addData key h value timestamp strategy clock requestFromNode =>
      obtain ⟨t', clock', result, hrun, hwf', hcases⟩ :=
        addData_spec hwf key h value timestamp strategy clock requestFromNode
      rcases hcases with ⟨hacc, -, -, hview, htree⟩ | ⟨hacc, -, -, hview, htree⟩
      · refine ⟨t', _, by simp [apply, hrun], hwf', .inl ⟨_, hview⟩, ?_, htree⟩
        -- a new node is linked in, an old one gets other data
        by_cases habs : t.view h = none
        · rw [if_pos habs]
          exact SearchTree.replaces_link _
        · rw [if_neg habs]
          exact SearchTree.replaces_revisit
      · have hpres : t.view h ≠ none := by
          intro habs
          simp [View.accepts, habs] at hacc
        exact ⟨t', _, by simp [apply, hrun], hwf', .inr ⟨hpres, hview⟩, SearchTree.replaces_id,
          htree⟩
    | addCounter key h selfNodeId nNodes =>
      obtain ⟨t', ok, hrun, hwf', hcases⟩ := addCounter_spec hwf key h selfNodeId nNodes
      rcases hcases with ⟨habs, hview, htree⟩ | ⟨hpres, hview, htree⟩
      · exact ⟨t', _, by simp [apply, hrun], hwf', .inl ⟨_, hview⟩, SearchTree.replaces_link _,
          htree⟩
      · -- a counter that exists stays, and so does a value under the same hash
        exact ⟨t', _, by simp [apply, hrun], hwf', .inr ⟨hpres, hview⟩, SearchTree.replaces_id,
          htree⟩
  refine ⟨t', found, hrun, hwf', fun h => ?_, hreplaces, htree⟩
  rcases hview with ⟨entry, hview⟩ | ⟨hpres, hview⟩
  · rw [hview, Function.update_apply]
    split <;> simp_all
  · rw [hview]
    constructor
    · exact Or.inr
    · rintro (rfl | hpres')
      · exact hpres
      · exact hpres'

end InsertCall

/-- The calls, one after another. -/
def inserts (calls : List InsertCall) (t : AVLTree) : Option AVLTree :=
  Run.run InsertCall.apply calls t

theorem inserts_spec (hwf : WellFormed t) (calls : List InsertCall) :
    ∃ t', inserts calls t = some t' ∧ WellFormed t' ∧
      ∀ h, t'.view h ≠ none ↔ h ∈ calls.map InsertCall.keyHash ∨ t.view h ≠ none := by
  induction calls generalizing t with
  | nil => exact ⟨t, rfl, hwf, by simp⟩
  | cons call calls ih =>
    obtain ⟨t₁, -, hcall, hwf₁, hview₁, -, -⟩ := call.apply_spec hwf
    obtain ⟨t', hrun, hwf', hview'⟩ := ih hwf₁
    refine ⟨t', Run.run_cons_eq_some.mpr ⟨t₁, hcall, hrun⟩, hwf', ?_⟩
    intro h
    rw [hview', hview₁, map_cons, mem_cons]
    tauto

/-- The tree from the root is a search tree that holds exactly the given hashes. -/
structure SearchTreeOf (hashes : List UInt32) (t : AVLTree) : Prop where
  /-- The nodes from the root down are strictly ordered by hash. -/
  ordered : ∃ nodes, t.tree = some nodes ∧ nodes.shape.Ordered Cell.hash
  /-- `get` finds a node with the hash, for these hashes and for no other. -/
  get : ∀ h, ∃ p, t.get h = some p ∧ (p ≠ none ↔ h ∈ hashes) ∧
    ∀ a, p = some a → ∃ n, t.node a = some n ∧ n.keyHash = h
  /-- `getOrderedByHash` lists the entries once each, by increasing hash. -/
  listed : ∃ entries, t.getOrderedByHash = some entries ∧
    entries.Pairwise (fun e e' => e.keyHash < e'.keyHash) ∧
    (∀ h, h ∈ entries.map MapEntry.keyHash ↔ h ∈ hashes) ∧
    ∀ h e, e ∈ entries ∧ e.keyHash = h ↔ t.lookup h = some (some e)

theorem Holds.get_node (hs : Holds t s) {h : UInt32} {a : Nat} (hget : t.get h = some (some a)) :
    ∃ n, t.node a = some n ∧ n.keyHash = h := by
  rw [hs.get, some.injEq, map_eq_some_iff] at hget
  obtain ⟨c, hfind, rfl⟩ := hget
  obtain ⟨hmem, hkey⟩ := (SearchTree.find_eq_some_iff Cell.hash hs.ordered).mp hfind
  obtain ⟨left, right, height, -, hnode⟩ := hs.rep.nodeAt_of_mem hmem
  exact ⟨_, hnode, UInt32.toNat_inj.mp hkey⟩

theorem Holds.get_ne_none_iff (hs : Holds t s) (h : UInt32) :
    (s.find Cell.hash h.toNat).map (·.addr) ≠ none ↔ t.view h ≠ none := by
  rw [Ne, map_eq_none_iff, hs.find_eq_none_iff]

theorem Holds.keyHash_of_view (hs : Holds t s) {h : UInt32} {e : MapEntry}
    (he : t.view h = some e) : e.keyHash = h := by
  obtain ⟨c, -, hkey, hce⟩ := hs.view_eq_some_iff.mp he
  obtain ⟨d, -, rfl⟩ := map_eq_some_iff.mp hce
  exact hkey

theorem WellFormed.searchTreeOf (hwf : WellFormed t) {hashes : List UInt32}
    (hview : ∀ h, t.view h ≠ none ↔ h ∈ hashes) : SearchTreeOf hashes t := by
  obtain ⟨entries, hlist, hsorted, hmem⟩ := hwf.getOrderedByHash
  have hlookup := hwf.lookup
  obtain ⟨s, hs⟩ := hwf
  refine ⟨⟨heights t s, hs.tree, ?_⟩, ?_, entries, hlist, hsorted, ?_, ?_⟩
  · rw [shape_heights]
    exact hs.ordered
  · intro h
    refine ⟨_, hs.get h, (hs.get_ne_none_iff h).trans (hview h), ?_⟩
    intro a ha
    exact hs.get_node ((hs.get h).trans (congrArg some ha))
  · intro h
    rw [List.mem_map, ← hview, ne_none_iff_exists']
    constructor
    · rintro ⟨e, he, rfl⟩
      exact ⟨e, (hmem e).mp he⟩
    · rintro ⟨e, he⟩
      have hkey := hs.keyHash_of_view he
      exact ⟨e, (hmem e).mpr (hkey ▸ he), hkey⟩
  · intro h e
    rw [hlookup, some.injEq]
    constructor
    · rintro ⟨he, rfl⟩
      exact (hmem e).mp he
    · intro he
      have hkey := hs.keyHash_of_view he
      exact ⟨(hmem e).mpr (hkey ▸ he), hkey⟩

/-- After any sequence of insertions the tree is a search tree that holds the hashes of the calls.
    That the sequence returns says that each rotation found the child it rotates up. -/
theorem inserts_searchTree (calls : List InsertCall) :
    ∃ t, inserts calls empty = some t ∧ SearchTreeOf (calls.map InsertCall.keyHash) t := by
  obtain ⟨t, hrun, hwf, hview⟩ := inserts_spec wellFormed_empty calls
  refine ⟨t, hrun, hwf.searchTreeOf ?_⟩
  intro h
  have hnone : empty.view h = none := rfl
  simpa [hnone] using hview h

/-! ### What the caller is told -/

/-- The entry refuses a write from a node: it is a counter, or a value with a greater timestamp. -/
def holdsAgainst (timestamp : LamportClock) : Option MapEntry → Prop
  | none => False
  | some e => e.type = .COUNTER ∨ ∃ d, e.data = .data d ∧ d.timestamp.gt timestamp = true

/-- A write from a node is an error exactly when the entry under its hash refuses it, and then no
    lookup changes; a success carries the counter of the request, and the value is there. -/
def ReportsTruth (t : AVLTree) (key : SimpleString) (keyHash : UInt32) (value : SimpleString)
    (timestamp clock : LamportClock) : Prop :=
  ∃ e t' clock' r, t.lookup keyHash = some e ∧
    t.addData key keyHash value timestamp .SET_MAX clock true = some (t', clock', r) ∧
    (r = none ↔ holdsAgainst timestamp e) ∧
    (r = none → ∀ h, t'.lookup h = t.lookup h) ∧
    ∀ result, r = some result → result.timestampOfOperation = timestamp.counter ∧
      ∃ e', t'.lookup keyHash = some (some e') ∧ e'.data = .data ⟨value, timestamp⟩

/-- Removals are not made. -/
def noRemoval : AVLTree → UInt32 → LamportClock → UpdateClockStrategy → Bool → Prop :=
  fun _ _ _ _ _ => False

theorem Reachable.wellFormed_inserts (h : Reachable noRemoval t) : WellFormed t := by
  induction h with
  | empty => exact wellFormed_empty
  | addData _ hcall ih => exact wellFormed_addData ih hcall
  | addCounter _ hcall ih => exact wellFormed_addCounter ih hcall
  | removeData _ hallowed _ _ => exact hallowed.elim

theorem WellFormed.accepts_eq_false_iff (hwf : WellFormed t) (h : UInt32)
    (timestamp : LamportClock) :
    t.view.accepts h timestamp .SET_MAX true = false ↔ holdsAgainst timestamp (t.view h) := by
  obtain ⟨s, hs⟩ := hwf
  unfold View.accepts
  cases hv : t.view h with
  | none => simp [holdsAgainst]
  | some e =>
    obtain ⟨c, hc, -, hce⟩ := hs.view_eq_some_iff.mp hv
    obtain ⟨d, hd, htype⟩ := hs.data c hc
    obtain rfl : ⟨c.key, c.keyHash, c.nodeType, d⟩ = e := by simpa [cellEntry, hd] using hce
    -- the type of a node says what its data is
    cases d with
    | data x =>
      have hne : c.nodeType ≠ .COUNTER := by
        rw [← htype]
        simp [NodeData.nodeType]
      simp [holdsAgainst, refuses, hne]
    | counter k => simp [holdsAgainst, refuses, ← htype, NodeData.nodeType]

/-- In trees built by insertions `addData` reports the truth where the entry under the hash gives
    way, or is at the root of the tree. -/
theorem addData_reports_truth_iff {t : AVLTree} (hreach : Reachable noRemoval t)
    (key : SimpleString) (keyHash : UInt32) (value : SimpleString)
    (timestamp clock : LamportClock) :
    ReportsTruth t key keyHash value timestamp clock ↔
      t.view.accepts keyHash timestamp .SET_MAX true = true ∨ t.rootHash = some keyHash := by
  have hwf := hreach.wellFormed_inserts
  have hholds := hwf.accepts_eq_false_iff keyHash timestamp
  unfold ReportsTruth
  rw [hwf.lookup]
  obtain ⟨t', clock', result, hrun, hwf', hcases⟩ :=
    addData_spec hwf key keyHash value timestamp .SET_MAX clock true
  rcases hcases with ⟨hacc, rfl, rfl, hview, -⟩ | ⟨hacc, rfl, rfl, hview, -⟩
  · have hgives : ¬ holdsAgainst timestamp (t.view keyHash) := by simp [← hholds, hacc]
    refine iff_of_true ⟨_, t', _, _, rfl, hrun, ?_, by simp, ?_⟩ (Or.inl hacc)
    · simp [hgives]
    · rintro result hresult
      cases hresult
      refine ⟨rfl, t.view.written key keyHash ⟨value, timestamp⟩, ?_, by simp⟩
      rw [hwf'.lookup, hview]
      simp [stamped, stamp]
  · have hrefuses : holdsAgainst timestamp (t.view keyHash) := hholds.mp hacc
    constructor
    · rintro ⟨e, t'', clock', r, he, hcall, hreport, -, -⟩
      cases he
      -- the refusal is reported as an error, so the refusing node is the root
      rw [hrun] at hcall
      cases hcall
      right
      by_contra hroot
      rw [if_neg hroot] at hreport
      simpa using hreport.mpr hrefuses
    · rintro (htrue | hroot)
      · simp [hacc] at htrue
      · rw [if_pos hroot] at hrun
        refine ⟨_, t', _, _, rfl, hrun, by simp [hrefuses], ?_, by simp⟩
        intro _ h
        rw [hwf'.lookup, hview, hwf.lookup]

/-- The root of the nodes `2` and `1` refuses a write with a smaller timestamp, and the caller is
    told. -/
theorem addData_reports_refusing_root :
    ∃ t, twoNodes 2 1 = some t ∧ ReportsTruth t [2] 2 [9] ⟨0, 1⟩ ⟨1, 1⟩ := by
  obtain ⟨t, ht⟩ : ∃ t, twoNodes 2 1 = some t := ⟨_, rfl⟩
  have hroot : (twoNodes 2 1).bind rootHash = some 2 := by decide
  rw [ht, bind_some] at hroot
  exact ⟨t, ht, (addData_reports_truth_iff (reachable_twoNodes ht) [2] 2 [9] ⟨0, 1⟩ ⟨1, 1⟩).mpr
    (Or.inr hroot)⟩

/-- The same write to the node `1` below it is refused as well, and reported as a success with
    timestamp `0`. -/
theorem addData_hides_refusal_below_root :
    ¬ ∀ t, Reachable noRemoval t → ∀ key keyHash value timestamp clock,
      ReportsTruth t key keyHash value timestamp clock := by
  intro hall
  obtain ⟨t, ht⟩ : ∃ t, twoNodes 2 1 = some t := ⟨_, rfl⟩
  obtain ⟨e, t', clock', r, -, hcall, -, -, hsuccess⟩ :=
    hall t (reachable_twoNodes ht) [1] 1 [9] ⟨0, 1⟩ ⟨1, 1⟩
  have hreport : ((twoNodes 2 1).bind (·.addData [1] 1 [9] ⟨0, 1⟩ .SET_MAX ⟨1, 1⟩ true)).map (·.2.2)
      = some (some ⟨0⟩) := by decide
  rw [ht, bind_some, hcall, map_some, some.injEq] at hreport
  exact absurd (hsuccess ⟨0⟩ hreport).1 (by decide)

end AVLTree

end MemDb

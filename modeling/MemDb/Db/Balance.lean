import MemDb.Db.Insertion

/-! # Balance after insertions

    A new node is created with height `-1`, the height of an empty subtree, and keeps it until the
    recursion passes through it again. Until then the nodes above it are rebalanced as if it were
    not there: after inserting `1`, `2` and `3` the tree is a chain.

    The stored heights are those of an AVL tree in which the leaves that were not visited since they
    were added do not count. So siblings never differ by more than two in height, and where these
    leaves lie decides whether they differ by two somewhere.
-/

namespace MemDb

open Lib SearchTree

namespace AVLTree

/-- At every node the heights of the two subtrees differ by at most one. -/
def Balanced (t : AVLTree) : Prop :=
  ∃ nodes, t.tree = some nodes ∧ nodes.shape.HeightsWithin 1

/-- The heights that the tree stores are those of an AVL tree, except for leaves that were not
    visited since they were added. -/
def StoresAvl (t : AVLTree) : Prop :=
  WellFormed t ∧ ∃ nodes, t.tree = some nodes ∧ nodes.AvlExceptNew

theorem StoresAvl.step {call : InsertCall} {t t' : AVLTree} (h : StoresAvl t)
    (hstep : call.apply t = some t') : StoresAvl t' := by
  obtain ⟨hwf, nodes, htree, havl⟩ := h
  obtain ⟨after, found, hcall, hwf', -, hreplaces, htree'⟩ := call.apply_spec hwf
  cases hcall.symm.trans hstep
  rw [htree, Option.map_some] at htree'
  exact ⟨hwf', _, htree', (havl.edit hreplaces _).1⟩

theorem inserts_storesAvl (calls : List InsertCall) :
    ∃ t nodes, inserts calls empty = some t ∧ t.tree = some nodes ∧ nodes.AvlExceptNew := by
  obtain ⟨t, hrun, -, -⟩ := inserts_spec wellFormed_empty calls
  have hguarded : Run.Guarded InsertCall.apply (fun _ _ => True) calls empty :=
    Run.Guarded.of_forall (fun _ _ _ => trivial) _
  obtain ⟨-, nodes, htree, havl⟩ := Run.invariant (fun _ _ _ h _ hstep => StoresAvl.step h hstep)
    ⟨wellFormed_empty, .nil, rfl, trivial⟩ hguarded hrun
  exact ⟨t, nodes, hrun, htree, havl⟩

/-- After any sequence of insertions the heights of two siblings differ by at most two. -/
theorem inserts_heightsWithin_two (calls : List InsertCall) :
    ∃ t nodes, inserts calls empty = some t ∧ t.tree = some nodes ∧
      nodes.shape.HeightsWithin 2 := by
  obtain ⟨t, nodes, hrun, htree, havl⟩ := inserts_storesAvl calls
  exact ⟨t, nodes, hrun, htree, havl.heightsWithin_two⟩

/-- After any sequence of insertions the tree is balanced exactly if at every node, where one
    subtree has the greater stored height and a leaf that was not visited since it was added lies
    one level below that, so does one in the other subtree. -/
theorem inserts_balanced_iff (calls : List InsertCall) :
    ∃ t nodes, inserts calls empty = some t ∧ t.tree = some nodes ∧
      (Balanced t ↔ nodes.Settled) := by
  obtain ⟨t, nodes, hrun, htree, havl⟩ := inserts_storesAvl calls
  refine ⟨t, nodes, hrun, htree, ?_⟩
  rw [← havl.heightsWithin_one_iff]
  constructor
  · rintro ⟨nodes', htree', hwithin⟩
    cases htree.symm.trans htree'
    exact hwithin
  · intro hwithin
    exact ⟨nodes, htree, hwithin⟩

/-- A write of one byte under the hash of the same number. -/
def writeByte (b : UInt8) : InsertCall :=
  .addData [b] b.toUInt32 [b] ⟨1, 1⟩ .SET_MAX ⟨1, 0⟩ true

/-- Three hashes written once: the tree is a chain. -/
theorem inserts_leave_chain :
    ¬ ∀ calls, ∃ t, inserts calls empty = some t ∧ Balanced t := by
  intro hall
  obtain ⟨t, hrun, nodes, htree, hwithin⟩ := hall [writeByte 1, writeByte 2, writeByte 3]
  have hchain : ((inserts [writeByte 1, writeByte 2, writeByte 3] empty).bind tree).any
      (fun nodes => !decide (nodes.shape.HeightsWithin 1)) = true := by decide
  rw [hrun, Option.bind_some, htree] at hchain
  simp [hwithin] at hchain

end AVLTree

end MemDb

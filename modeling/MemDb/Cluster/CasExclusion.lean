import MemDb.Cluster.CasRace
import MemDb.Lib.Run
import Mathlib.Tactic.FinCases

/-! # At most one `CAS` succeeds

    Runs in which clients call `CAS` with one expected value at several nodes. A node that runs a
    call of its own accepts another one without looking at it, a last write that comes too late is
    refused without an error below the root of a bucket, and an `ACCEPT` that could not be sent may
    count as accepted. Two calls can therefore both succeed; in a run without such steps at most one
    does.
-/

namespace MemDb

open Lib.Run CasCluster Option Function

section runs
variable {n : Nat} {configs : Fin n → Configuration} {key expected : SimpleString}
  {base : LamportClock} {cluster cluster' : CasCluster n}

/-- All nodes store the expected value under `base`, and no call has been made. -/
structure CasCluster.Starts (configs : Fin n → Configuration) (key expected : SimpleString)
    (base : LamportClock) (cluster : CasCluster n) : Prop where
  ready : ∀ i, (cluster.nodes i).Ready
  nodeId : ∀ i, (cluster.nodes i).clock.nodeId = (configs i).nodeId
  /-- A node that stores a value has raised its clock to the timestamp. -/
  clock : ∀ i, base.counter.toNat ≤ (cluster.nodes i).clock.counter.toNat
  stored : ∀ i, (cluster.nodes i).Stores ((configs i).calculateHash key) ⟨expected, base⟩
  calls : ∀ i, cluster.calls i = none
  exchanges : ∀ p b t, cluster.exchanges p b t = .unsent

end runs

/-! ### Three nodes -/

/-- The copy of `SET k 0` that node 1 has broadcast. -/
def copyOfZero : Request :=
  { userSet [0] with
    operation := { (userSet [0]).operation with timestamp := 1 }
    authenticationType := .NODE }

/-- A node that has executed the copy. -/
def zeroNode (n : Nat) (i : Fin n) : Node :=
  ((dispatch (numberedNodes n i) (fun _ => none) copyOfZero ((emptyCluster n).nodes i)).map
    (·.1.flush)).getD ((emptyCluster n).nodes i)

def zeroCluster (n : Nat) : CasCluster n where
  nodes := zeroNode n
  calls _ := none
  exchanges _ _ _ := .unsent

/-- `CAS k 0 value`. -/
def casOfZero (value : SimpleString) : OperationBody where
  args := some [[107], [0], value]
  timestamp := 0
  nodeId := 1
  operatorNumber := OperatorNumbers.CAS
  flag1 := false
  flag2 := false

theorem starts_zeroCluster (n : Nat) :
    (zeroCluster n).Starts (numberedNodes n) [107] [0] ⟨1, 1⟩ := by
  have hnode : ∀ i, ∃ node, zeroNode n i = node ∧ node.Ready ∧
      node.view = ((emptyCluster n).nodes i).view.put [107] (shortKeyHash [107]) ⟨[0], ⟨1, 1⟩⟩ ∧
      node.clock = ⟨UInt16.ofNat (i + 1), 1⟩ := by
    intro i
    have hset : copyOfZero.IsSet [107] [0] := ⟨rfl, [], rfl⟩
    have hempty := view_emptyCluster n i (shortKeyHash [107])
    have haccepts : ((emptyCluster n).nodes i).acceptsSet (numberedNodes n i) copyOfZero [107] =
        true := by
      refine accepts_eq_true_iff.mpr ?_
      intro entry hentry
      cases hempty.symm.trans hentry
    obtain ⟨node, response, hdispatch, hready, ⟨-, hview, hclock, -⟩ | ⟨hrefused, -⟩⟩ :=
      dispatch_set_spec (fun _ => none) ((replicated_numberedNodes n).useReplication i)
        ((replicated_numberedNodes n).usePartitions i) (ready_emptyCluster n i) hset
    swap
    · cases haccepts.symm.trans hrefused
    refine ⟨node.flush, ?_, hready, hview, hclock⟩
    rw [zeroNode, hdispatch]
    rfl
  constructor
  · intro i
    obtain ⟨node, rfl, hready, -, -⟩ := hnode i
    exact hready
  · intro i
    obtain ⟨node, rfl, -, -, hclock⟩ := hnode i
    exact congrArg LamportClock.nodeId hclock
  · intro i
    obtain ⟨node, rfl, -, -, hclock⟩ := hnode i
    exact (congrArg (·.counter.toNat) hclock).ge
  · intro i
    obtain ⟨node, rfl, -, hview, -⟩ := hnode i
    refine ⟨_, (congrFun hview _).trans (View.put_self _ _ _ _), ?_, View.written_data _ _ _ _⟩
    rw [View.written, view_emptyCluster]
  · intro i
    rfl
  · intro p b t
    rfl

end MemDb

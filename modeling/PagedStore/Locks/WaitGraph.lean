import PagedStore.Ident
import Std.Data.ExtTreeSet

/-!
# Who waits for whom

A graph with an edge from each waiting transaction to every transaction that
stands in its way.  A cycle means that none of the transactions on it can ever
go on.

Cycles are found by pruning.  A transaction that waits for nobody cannot be on
a cycle, so edges to it can be dropped, and with its last edge a transaction
stops waiting.  A round of pruning drops such edges.  After as many rounds as
there are waiting transactions nothing more can be dropped, and what is left
is empty exactly if there is no cycle.
-/

namespace PagedStore

open Std (ExtTreeMap ExtTreeSet)

/-- The transactions that wait, and those that they wait for. -/
@[ext] structure WaitGraph where
  /-- For each waiting transaction the ones in its way.  None of these sets is
  empty, and no transaction stands in its own way. -/
  edges : ExtTreeMap TransactionId (ExtTreeSet TransactionId) := ∅
deriving DecidableEq

namespace WaitGraph

instance : Inhabited WaitGraph := ⟨{}⟩

instance : EmptyCollection WaitGraph := ⟨{}⟩

/-- The transactions that a transaction waits for. -/
def targets (g : WaitGraph) (t : TransactionId) : ExtTreeSet TransactionId := g.edges.getD t ∅

/-- The transactions that a transaction waits for, in ascending order. -/
def waitsOn (g : WaitGraph) (t : TransactionId) : List TransactionId := (g.targets t).toList

/-- Nobody waits. -/
def isEmpty (g : WaitGraph) : Bool := g.edges.isEmpty

/-- Gives a transaction new targets.  It is not its own target, and without
targets it does not wait. -/
def setWaits (g : WaitGraph) (t : TransactionId) (holders : List TransactionId) : WaitGraph :=
  let others := holders.filter fun s => s ≠ t
  if others.isEmpty then ⟨g.edges.erase t⟩
  else ⟨g.edges.insert t (ExtTreeSet.ofList others)⟩

/-- Ends the waiting of a transaction. -/
def clearWaits (g : WaitGraph) (t : TransactionId) : WaitGraph := ⟨g.edges.erase t⟩

/-- The graph with only those targets that `p` accepts. -/
def restrict (g : WaitGraph) (p : TransactionId → Bool) : WaitGraph :=
  ⟨g.edges.filterMap fun _ targets =>
    let kept := targets.filter p
    if kept.isEmpty then none else some kept⟩

/-- Drops every edge that leads into or out of a transaction. -/
def removeTransaction (g : WaitGraph) (t : TransactionId) : WaitGraph :=
  (g.clearWaits t).restrict fun s => s ≠ t

/-- One round of pruning: the edges to transactions that wait for nobody go. -/
def prune (g : WaitGraph) : WaitGraph := g.restrict fun t => g.edges.contains t

/-- Some transactions wait for each other in a circle. -/
def hasCycle (g : WaitGraph) : Bool := !(Nat.repeat prune g.edges.size g).isEmpty

/-- Transaction `s` waits for transaction `t`. -/
def Waits (g : WaitGraph) (s t : TransactionId) : Prop := t ∈ g.targets s

theorem mem_waitsOn {g : WaitGraph} {s t : TransactionId} : t ∈ g.waitsOn s ↔ g.Waits s t := by
  simp [waitsOn, Waits, ExtTreeSet.mem_toList]

example : (((∅ : WaitGraph).setWaits ⟨1⟩ [⟨2⟩]).setWaits ⟨2⟩ [⟨3⟩, ⟨1⟩]).hasCycle = true := by
  decide +kernel

example : (((∅ : WaitGraph).setWaits ⟨1⟩ [⟨2⟩]).setWaits ⟨2⟩ [⟨3⟩, ⟨2⟩]).hasCycle = false := by
  decide +kernel

end WaitGraph

end PagedStore

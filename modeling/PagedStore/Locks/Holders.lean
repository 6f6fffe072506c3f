import PagedStore.Ident

/-!
# The holders of a page

A page is held by transactions, each in one of two modes.  Any number of
transactions may hold it in shared mode, and one that holds it in exclusive
mode holds it alone.

A request for the page *conflicts* with holders that stand in its way
(`Holders.conflicts`).  A shared request conflicts with an exclusive holder,
unless the requester holds the page already.  An exclusive request conflicts
with every other holder.  A request without conflicts can be granted
(`Holders.grant`).  A grant never weakens what the transaction has.

`Holders.attempt` evaluates a request once, under the eye of an observer who
sees the conflicts and may refuse the request.
-/

namespace PagedStore

open Std (ExtTreeMap)

/-- The mode in which a page is held or asked for. -/
inductive LockMode where
  /-- For reading. -/
  | shared
  /-- For writing. -/
  | exclusive
deriving DecidableEq, Repr

/-- The transactions that hold one page. -/
@[ext] structure Holders where
  /-- The mode of each holder. -/
  modes : ExtTreeMap TransactionId LockMode := ∅
deriving DecidableEq

namespace Holders

instance : Inhabited Holders := ⟨{}⟩

instance : EmptyCollection Holders := ⟨{}⟩

/-! ## Reading -/

/-- The mode in which a transaction holds the page. -/
def modeOf? (h : Holders) (t : TransactionId) : Option LockMode := h.modes[t]?

/-- The transaction holds the page. -/
def holds (h : Holders) (t : TransactionId) : Bool := (h.modeOf? t).isSome

/-- The transaction may write the page. -/
def canWrite (h : Holders) (t : TransactionId) : Bool := h.modeOf? t = some .exclusive

/-- The holders in ascending order. -/
def transactions (h : Holders) : List TransactionId := h.modes.keys

/-- Nobody holds the page. -/
def isEmpty (h : Holders) : Bool := h.modes.isEmpty

/-- The holders that stand in the way of a request, in ascending order. -/
def conflicts (h : Holders) (t : TransactionId) : LockMode → List TransactionId
  | .shared =>
      if h.holds t then []
      else h.transactions.filter fun s => h.modeOf? s = some .exclusive
  | .exclusive => h.transactions.filter fun s => s ≠ t

/-- A request would have to wait. -/
def wouldBlock (h : Holders) (t : TransactionId) (mode : LockMode) : Bool :=
  !(h.conflicts t mode).isEmpty

/-! ## Granting and releasing -/

/-- The holders after a grant.  An exclusive holder that asks for shared mode
stays exclusive. -/
def grant (h : Holders) (t : TransactionId) : LockMode → Holders
  | .shared => ⟨h.modes.insertIfNew t .shared⟩
  | .exclusive => ⟨h.modes.insert t .exclusive⟩

/-- The holders without a transaction. -/
def release (h : Holders) (t : TransactionId) : Holders := ⟨h.modes.erase t⟩

/-- Releases the page if the transaction holds it in exactly this mode, and says
whether it did. -/
def releaseMode (h : Holders) (t : TransactionId) (mode : LockMode) : Bool × Holders :=
  if h.modeOf? t = some mode then (true, h.release t) else (false, h)

/-- What became of a request. -/
inductive Attempt (ε : Type) where
  /-- The observer refused it. -/
  | refused (reason : ε)
  /-- It was granted, and these are the holders now. -/
  | granted (holders : Holders)
  /-- It has to wait. -/
  | waits
deriving DecidableEq

/-- Evaluates a request once.  The observer is shown the conflicts first, and
nothing changes if it refuses. -/
def attempt {ε : Type} (h : Holders) (t : TransactionId) (mode : LockMode)
    (observe : List TransactionId → Except ε Unit) : Attempt ε :=
  let blockers := h.conflicts t mode
  match observe blockers with
  | .error reason => .refused reason
  | .ok _ => if blockers.isEmpty then .granted (h.grant t mode) else .waits

/-! ## The modes after each operation -/

@[simp] theorem modeOf?_empty (t : TransactionId) : (∅ : Holders).modeOf? t = none := by
  show (∅ : ExtTreeMap TransactionId LockMode)[t]? = none
  simp

theorem modeOf?_grant_exclusive (h : Holders) (s t : TransactionId) :
    (h.grant t .exclusive).modeOf? s = if t = s then some .exclusive else h.modeOf? s := by
  simp only [modeOf?, grant, ExtTreeMap.getElem?_insert, Std.LawfulEqCmp.compare_eq_iff_eq]

theorem modeOf?_grant_shared (h : Holders) (s t : TransactionId) :
    (h.grant t .shared).modeOf? s =
      if t = s ∧ h.modeOf? t = none then some .shared else h.modeOf? s := by
  simp only [modeOf?, grant, ExtTreeMap.getElem?_insertIfNew, Std.LawfulEqCmp.compare_eq_iff_eq]
  simp

theorem modeOf?_release (h : Holders) (s t : TransactionId) :
    (h.release t).modeOf? s = if t = s then none else h.modeOf? s := by
  simp only [modeOf?, release, ExtTreeMap.getElem?_erase, Std.LawfulEqCmp.compare_eq_iff_eq]

theorem isEmpty_iff {h : Holders} : h.isEmpty = true ↔ h = ∅ := by
  rw [isEmpty, ExtTreeMap.isEmpty_iff, Holders.ext_iff]
  rfl

theorem mem_transactions {h : Holders} {t : TransactionId} :
    t ∈ h.transactions ↔ h.holds t = true := by
  simp only [transactions, holds, modeOf?, ExtTreeMap.mem_keys, ExtTreeMap.mem_iff_isSome_getElem?]

end Holders

end PagedStore

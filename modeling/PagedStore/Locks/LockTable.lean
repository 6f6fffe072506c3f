import PagedStore.Locks.Holders
import PagedStore.Locks.WaitGraph
import Std.Data.ExtTreeSet

/-!
# The lock table

The lock table knows the holders of every page, the pages that each
transaction holds, who waits for whom, and the requests that are *parked*,
that is, wait to be granted.  A transaction has at most one parked request.

A request is evaluated by `LockTable.consider`.  It is granted if no holder of
the page conflicts with it.  Otherwise its transaction has to wait for the
conflicting holders.  If that closes a circle of waiting the request is
refused, and only this request: the others keep waiting.  If not, the request
is parked.

A parked request is *woken* when its page is released by someone, or gets a
new holder.  A woken request is evaluated again, and may be granted, refused
or parked again.  Which woken request comes first is not said here.

`sizes_consider` bounds the evaluations.  An answer takes a request out, and
without an answer there is one woken request less.
-/

namespace PagedStore

open Std (ExtTreeMap ExtTreeSet)

/-- What a transaction asks for. -/
structure LockRequest where
  /-- The page. -/
  page : PageId
  /-- The mode in which to hold it. -/
  mode : LockMode
deriving DecidableEq

/-- What became of a request. -/
inductive Verdict where
  /-- The transaction holds the page now. -/
  | granted
  /-- Waiting would have closed a circle. -/
  | refused
  /-- The request is parked. -/
  | waits
deriving DecidableEq

/-- The locks of all pages. -/
@[ext] structure LockTable where
  /-- The holders of each page that is held. -/
  holders : ExtTreeMap PageId Holders := ∅
  /-- The pages of each transaction that holds some. -/
  held : ExtTreeMap TransactionId (ExtTreeSet PageId) := ∅
  /-- Who waits for whom. -/
  waits : WaitGraph := ∅
  /-- The parked requests. -/
  parked : ExtTreeMap TransactionId LockRequest := ∅
  /-- The transactions whose parked request has to be evaluated again. -/
  woken : ExtTreeSet TransactionId := ∅
  /-- The number of requests refused so far. -/
  deadlocks : Nat := 0
deriving DecidableEq

namespace LockTable

instance : Inhabited LockTable := ⟨{}⟩

instance : EmptyCollection LockTable := ⟨{}⟩

/-! ## Reading -/

/-- The holders of a page. -/
def holdersAt (l : LockTable) (page : PageId) : Holders := l.holders.getD page ∅

/-- The mode in which a transaction holds a page. -/
def modeOf? (l : LockTable) (page : PageId) (t : TransactionId) : Option LockMode :=
  (l.holdersAt page).modeOf? t

/-- The transaction holds the page. -/
def holds (l : LockTable) (page : PageId) (t : TransactionId) : Bool := (l.holdersAt page).holds t

/-- The transactions that hold a page, in ascending order. -/
def holdersOf (l : LockTable) (page : PageId) : List TransactionId :=
  (l.holdersAt page).transactions

/-- The pages that a transaction holds. -/
def heldBy (l : LockTable) (t : TransactionId) : ExtTreeSet PageId := l.held.getD t ∅

/-- The pages that a transaction holds, in page order. -/
def pagesHeldBy (l : LockTable) (t : TransactionId) : List PageId := (l.heldBy t).toList

/-- The transactions that a transaction waits for, in ascending order. -/
def waitingOn (l : LockTable) (t : TransactionId) : List TransactionId := l.waits.waitsOn t

/-- The transaction has a parked request. -/
def isParked (l : LockTable) (t : TransactionId) : Bool := l.parked.contains t

/-- Each transaction with a parked request and those it waits for, in ascending
order. -/
def waiting (l : LockTable) : List (TransactionId × List TransactionId) :=
  l.parked.keys.map fun t => (t, l.waitingOn t)

/-- The transactions with a parked request for a page. -/
def parkedOn (l : LockTable) (page : PageId) : List TransactionId :=
  (l.parked.filter fun _ r => r.page = page).keys

/-- Every page that is held, with its holders, in page order. -/
def entries (l : LockTable) : List (PageId × TransactionId × LockMode) :=
  l.holders.toList.flatMap fun (page, h) => h.modes.toList.map fun (t, mode) => (page, t, mode)

/-! ## Steps on one part -/

/-- Gives a page new holders.  A page without holders is forgotten. -/
def setHolders (l : LockTable) (page : PageId) (h : Holders) : LockTable :=
  { l with holders := if h.isEmpty then l.holders.erase page else l.holders.insert page h }

/-- Gives a transaction a new set of pages.  An empty set is forgotten. -/
def setHeld (l : LockTable) (t : TransactionId) (pages : ExtTreeSet PageId) : LockTable :=
  { l with held := if pages.isEmpty then l.held.erase t else l.held.insert t pages }

/-- Wakes every request that is parked on a page. -/
def wake (l : LockTable) (page : PageId) : LockTable :=
  { l with woken := l.woken.insertMany (l.parkedOn page) }

/-- The table without the parked request of a transaction. -/
def unpark (l : LockTable) (t : TransactionId) : LockTable :=
  { l with parked := l.parked.erase t, woken := l.woken.erase t }

/-! ## Requests -/

/-- What the request of a transaction looks at: the graph as it would be if the
transaction waited for the blockers must not have a cycle. -/
def observe (l : LockTable) (t : TransactionId) (blockers : List TransactionId) :
    Except Unit Unit :=
  if !blockers.isEmpty && (l.waits.setWaits t blockers).hasCycle then .error () else .ok ()

/-- Evaluates a request of a transaction, be it new or parked. -/
def consider (l : LockTable) (t : TransactionId) (r : LockRequest) : Verdict × LockTable :=
  let h := l.holdersAt r.page
  let l := l.unpark t
  match h.attempt t r.mode (l.observe t) with
  | .refused _ =>
      (.refused, { l with waits := l.waits.clearWaits t, deadlocks := l.deadlocks + 1 })
  | .waits =>
      (.waits, { l with
        waits := l.waits.setWaits t (h.conflicts t r.mode)
        parked := l.parked.insert t r })
  | .granted h' =>
      let l := { l with waits := l.waits.clearWaits t }
      let l := (l.setHolders r.page h').setHeld t ((l.heldBy t).insert r.page)
      (.granted, if h.holds t then l else l.wake r.page)

/-- A transaction with a woken request, and the request. -/
def nextWoken? (l : LockTable) : Option (TransactionId × LockRequest) :=
  l.woken.toList.findSome? fun t => l.parked[t]?.map fun r => (t, r)

/-! ## Releases -/

/-- Takes a page from a transaction, wakes the requests parked on the page, and
says whether the transaction held it. -/
def release (l : LockTable) (page : PageId) (t : TransactionId) : Bool × LockTable :=
  let h := l.holdersAt page
  (h.holds t,
    ((l.setHolders page (h.release t)).setHeld t ((l.heldBy t).erase page)).wake page)

/-- Takes some pages from a transaction and wakes the requests parked on
them. -/
def releasePages (l : LockTable) (t : TransactionId) (pages : List PageId) : LockTable :=
  pages.foldl (fun l page => (l.setHolders page ((l.holdersAt page).release t)).wake page) l

/-- Takes all pages from a transaction and forgets whom it waits for and who
waits for it.  The pages are returned in page order. -/
def releaseAll (l : LockTable) (t : TransactionId) : List PageId × LockTable :=
  let pages := l.pagesHeldBy t
  (pages,
    { l with held := l.held.erase t, waits := l.waits.removeTransaction t }.releasePages t pages)

/-! ## The parts after each step -/

theorem holdersAt_setHolders (l : LockTable) (p q : PageId) (h : Holders) :
    (l.setHolders p h).holdersAt q = if p = q then h else l.holdersAt q := by
  unfold holdersAt setHolders
  by_cases he : h.isEmpty
  · simp only [he, if_true, ExtTreeMap.getD_erase, Std.LawfulEqCmp.compare_eq_iff_eq]
    rw [Holders.isEmpty_iff.1 he]
  · simp [he, ExtTreeMap.getD_insert]

theorem heldBy_setHeld (l : LockTable) (t u : TransactionId) (pages : ExtTreeSet PageId) :
    (l.setHeld t pages).heldBy u = if t = u then pages else l.heldBy u := by
  unfold heldBy setHeld
  by_cases he : pages.isEmpty
  · simp only [he, if_true, ExtTreeMap.getD_erase, Std.LawfulEqCmp.compare_eq_iff_eq]
    rw [ExtTreeSet.isEmpty_iff.1 he]
  · simp [he, ExtTreeMap.getD_insert]

theorem mem_parkedOn {l : LockTable} {page : PageId} {t : TransactionId} :
    t ∈ l.parkedOn page ↔ ∃ r, l.parked[t]? = some r ∧ r.page = page := by
  rw [parkedOn, ExtTreeMap.mem_keys, ExtTreeMap.mem_iff_isSome_getElem?,
    ExtTreeMap.getElem?_filter']
  cases l.parked[t]? <;> simp [Option.filter]

theorem mem_woken_wake {l : LockTable} {page : PageId} {t : TransactionId} :
    t ∈ (l.wake page).woken ↔ t ∈ l.woken ∨ t ∈ l.parkedOn page := by
  simp [wake, ExtTreeSet.mem_insertMany_list]

/-! ## Evaluations end -/

@[simp] theorem parked_wake (l : LockTable) (page : PageId) : (l.wake page).parked = l.parked := rfl

@[simp] theorem parked_setHolders (l : LockTable) (page : PageId) (h : Holders) :
    (l.setHolders page h).parked = l.parked := rfl

@[simp] theorem parked_setHeld (l : LockTable) (t : TransactionId) (pages : ExtTreeSet PageId) :
    (l.setHeld t pages).parked = l.parked := rfl

theorem parked_consider_of_ne_waits {l : LockTable} {t : TransactionId} {r : LockRequest}
    (h : (l.consider t r).1 ≠ .waits) : (l.consider t r).2.parked = l.parked.erase t := by
  unfold consider at h ⊢
  dsimp only at h ⊢
  split at h
  · rfl
  · exact absurd rfl h
  · dsimp only
    split <;> rfl

theorem consider_of_waits {l : LockTable} {t : TransactionId} {r : LockRequest}
    (h : (l.consider t r).1 = .waits) :
    (l.consider t r).2.parked = (l.parked.erase t).insert t r ∧
      (l.consider t r).2.woken = l.woken.erase t := by
  unfold consider at h ⊢
  dsimp only at h ⊢
  split at h
  · cases h
  · exact ⟨rfl, rfl⟩
  · cases h

theorem mem_of_nextWoken? {l : LockTable} {t : TransactionId} {r : LockRequest}
    (h : l.nextWoken? = some (t, r)) : t ∈ l.woken ∧ l.parked[t]? = some r := by
  obtain ⟨s, hs, h⟩ := List.exists_of_findSome?_eq_some h
  obtain ⟨q, hq, h⟩ := Option.map_eq_some_iff.1 h
  cases h
  exact ⟨ExtTreeSet.mem_toList.1 hs, hq⟩

/-- The measure of the evaluations that are left. -/
def evaluationsLeft (l : LockTable) : Nat × Nat := (l.parked.size, l.woken.size)

theorem size_erase_lt {t : TransactionId} {set : ExtTreeSet TransactionId} (h : t ∈ set) :
    (set.erase t).size < set.size := by
  have hc := ExtTreeSet.contains_iff_mem.2 h
  have hp : set.size ≠ 0 := by
    intro h0
    rw [ExtTreeSet.eq_empty_iff_size_eq_zero.2 h0] at h
    exact ExtTreeSet.not_mem_empty h
  rw [ExtTreeSet.size_erase, if_pos hc]
  omega

/-- Each evaluation of a woken request brings their end nearer. -/
theorem sizes_consider {l : LockTable} {t : TransactionId} {r : LockRequest}
    (h : l.nextWoken? = some (t, r)) :
    Prod.Lex (· < ·) (· < ·) (l.consider t r).2.evaluationsLeft l.evaluationsLeft := by
  obtain ⟨hw, hp⟩ := mem_of_nextWoken? h
  have hm : t ∈ l.parked := ExtTreeMap.mem_iff_isSome_getElem?.2 (by simp [hp])
  have hc := ExtTreeMap.contains_iff_mem.2 hm
  have hps : l.parked.size ≠ 0 := by
    intro h0
    rw [ExtTreeMap.eq_empty_iff_size_eq_zero.2 h0] at hm
    exact ExtTreeMap.not_mem_empty hm
  by_cases hv : (l.consider t r).1 = .waits
  · obtain ⟨h1, h2⟩ := consider_of_waits hv
    have hs : ((l.parked.erase t).insert t r).size = l.parked.size := by
      rw [ExtTreeMap.size_insert, ExtTreeMap.size_erase]
      simp [hm]
      omega
    simp only [evaluationsLeft, h1, h2, hs]
    exact Prod.Lex.right _ (size_erase_lt hw)
  · refine Prod.Lex.left _ _ ?_
    rw [parked_consider_of_ne_waits hv, ExtTreeMap.size_erase, if_pos hc]
    omega

end LockTable

end PagedStore

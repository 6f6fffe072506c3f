import PagedStore.Proofs.Cycles
import PagedStore.Proofs.LockModes
import PagedStore.Locks.Service

/-!
# Waiting for locks

The wait graph is brought up to date for one transaction at a time, when a request of
this transaction is evaluated.  In between holders join, leave or change their mode,
and the graph says less than the holders do.  This module shows that it never matters:
every change that could matter wakes the requests that it matters to.

The transactions of a table take steps (`LockTable.Step`).  One without a parked request
sends a command, or a parked request is evaluated, in any order and as often as one likes.
Every step keeps the invariant `LockTable.Tracked`: there is no circle, only parked
transactions wait, and a parked request that is not woken waits for exactly those that
stand in its way.

So there is no deadlock in any table that steps lead to (`LockTable.deadlock_free`).
Serving commands comes to such steps (`LockTable.reachable_serve`).
-/

namespace PagedStore

open Std (ExtTreeMap ExtTreeSet)
open Relation (TransGen ReflTransGen)

namespace Holders

variable {h h' : Holders} {s t u : TransactionId} {mode : LockMode}

/-- Who stands in the way of a request. -/
theorem mem_conflicts :
    s ∈ h.conflicts t mode ↔
      match mode with
      | .shared => h.modeOf? t = none ∧ h.modeOf? s = some .exclusive
      | .exclusive => s ≠ t ∧ h.modeOf? s ≠ none := by
  cases mode with
  | shared =>
      rw [conflicts]
      split
      · rename_i ht
        simp [holds_eq_true_iff.1 ht]
      · rename_i ht
        rw [holds_eq_true_iff, not_not] at ht
        rw [List.mem_filter, mem_transactions, holds_eq_true_iff, decide_eq_true_eq]
        constructor
        · rintro ⟨-, hs⟩
          exact ⟨ht, hs⟩
        · rintro ⟨-, hs⟩
          exact ⟨by simp [hs], hs⟩
  | exclusive =>
      rw [conflicts, List.mem_filter, mem_transactions, holds_eq_true_iff, decide_eq_true_eq]
      exact And.comm

/-- Whoever stands in the way holds the page, and is someone else. -/
theorem ne_and_holds_of_mem_conflicts (hs : s ∈ h.conflicts t mode) :
    s ≠ t ∧ h.modeOf? s ≠ none := by
  rw [mem_conflicts] at hs
  cases mode with
  | shared =>
      obtain ⟨ht, hs⟩ := hs
      refine ⟨?_, by simp [hs]⟩
      rintro rfl
      simp [ht] at hs
  | exclusive => exact hs

theorem mem_conflicts_congr (hs : h'.modeOf? s = h.modeOf? s) (ht : h'.modeOf? t = h.modeOf? t) :
    s ∈ h'.conflicts t mode ↔ s ∈ h.conflicts t mode := by
  cases mode <;> simp only [mem_conflicts, hs, ht]

/-- A transaction that holds the page already and is granted more stands in nobody's way that it
did not stand in before. -/
theorem mem_conflicts_grant_of_holds {mode' : LockMode} (ht : h.modeOf? t ≠ none)
    (hc : h.conflicts t mode = []) (hu : t ≠ u) (hw : h.conflicts u mode' ≠ []) :
    s ∈ (h.grant t mode).conflicts u mode' ↔ s ∈ h.conflicts u mode' := by
  have hmode := h.modeOf?_grant t
  by_cases hs : t = s
  · subst hs
    cases mode' with
    | exclusive => simp [mem_conflicts, hmode, ht]
    | shared =>
        have hself : mode.joined (h.modeOf? t) = .exclusive ↔ h.modeOf? t = some .exclusive := by
          cases mode with
          | shared =>
              obtain ⟨m, hm⟩ := Option.ne_none_iff_exists'.1 ht
              simp [hm, LockMode.joined]
          | exclusive =>
              -- whoever stands in the way of `u` holds the page beside `t`, so it is `t`
              obtain ⟨v, hv⟩ := List.exists_mem_of_ne_nil _ hw
              have hx := (mem_conflicts.1 hv).2
              have hvt : v = t := by
                by_contra hne
                rw [modeOf?_eq_none_of_conflicts hc hne] at hx
                cases hx
              rw [← hvt, hx]
              simp [LockMode.joined]
        simp [mem_conflicts, hmode, hu, hself]
  · exact mem_conflicts_congr (by rw [hmode, if_neg hs]) (by rw [hmode, if_neg hu])

end Holders

namespace LockTable

variable {l l' : LockTable} {s t u : TransactionId} {r q : LockRequest} {p : PageId}

theorem isParked_iff : l.isParked t = true ↔ ∃ r, l.parked[t]? = some r := by
  rw [isParked, ExtTreeMap.contains_iff_mem, ExtTreeMap.mem_iff_isSome_getElem?,
    Option.isSome_iff_exists]

theorem isParked_eq_false_iff : l.isParked t = false ↔ l.parked[t]? = none := by
  rw [← Bool.not_eq_true, isParked_iff, not_exists, Option.eq_none_iff_forall_ne_some]

/-! ## What an evaluation does -/

/-- The holders that stand in the way of a request of a transaction. -/
def blockers (l : LockTable) (t : TransactionId) (r : LockRequest) : List TransactionId :=
  (l.holdersAt r.page).conflicts t r.mode

/-- The table after a request is refused. -/
def refuse (l : LockTable) (t : TransactionId) : LockTable :=
  { l.unpark t with waits := l.waits.clearWaits t, deadlocks := l.deadlocks + 1 }

/-- The table after a request is parked. -/
def park (l : LockTable) (t : TransactionId) (r : LockRequest) : LockTable :=
  { l.unpark t with
    waits := l.waits.setWaits t (l.blockers t r), parked := (l.parked.erase t).insert t r }

/-- The table after a request is granted.  Those that wait for the page are woken if it has a new
holder. -/
def give (l : LockTable) (t : TransactionId) (r : LockRequest) : LockTable :=
  let h := l.holdersAt r.page
  let l := { l.unpark t with waits := l.waits.clearWaits t }
  let l := (l.setHolders r.page (h.grant t r.mode)).setHeld t ((l.heldBy t).insert r.page)
  if h.holds t then l else l.wake r.page

/-- A request without blockers is granted. -/
theorem consider_of_free (h : l.blockers t r = []) : l.consider t r = (.granted, l.give t r) := by
  have hc : (l.holdersAt r.page).conflicts t r.mode = [] := h
  have ha : (l.holdersAt r.page).attempt t r.mode ((l.unpark t).observe t) =
      .granted ((l.holdersAt r.page).grant t r.mode) := by
    simp [Holders.attempt, observe, hc]
  simp only [consider, ha]
  rfl

theorem attempt_of_ne_nil (h : l.blockers t r ≠ []) :
    (l.holdersAt r.page).attempt t r.mode ((l.unpark t).observe t) =
      if (l.waits.setWaits t (l.blockers t r)).hasCycle then .refused () else .waits := by
  have hne : (l.blockers t r).isEmpty = false := by simpa using h
  have ho : (l.unpark t).observe t (l.blockers t r) =
      if (l.waits.setWaits t (l.blockers t r)).hasCycle then .error () else .ok () := by
    rw [observe, hne]
    rfl
  simp only [Holders.attempt]
  rw [show (l.holdersAt r.page).conflicts t r.mode = l.blockers t r from rfl, ho, hne]
  split
  · simp_all
  · simp_all

/-- A request that would close a circle is refused. -/
theorem consider_of_circle (h : l.blockers t r ≠ [])
    (hc : ¬ NoCircle (l.waits.setWaits t (l.blockers t r)).Waits) :
    l.consider t r = (.refused, l.refuse t) := by
  have ha := attempt_of_ne_nil h
  rw [if_pos (WaitGraph.hasCycle_eq_true_iff.2 hc)] at ha
  simp only [consider, ha]
  rfl

/-- Any other request is parked. -/
theorem consider_of_wait (h : l.blockers t r ≠ [])
    (hc : NoCircle (l.waits.setWaits t (l.blockers t r)).Waits) :
    l.consider t r = (.waits, l.park t r) := by
  have ha := attempt_of_ne_nil h
  rw [WaitGraph.hasCycle_eq_false_iff.2 hc] at ha
  simp only [consider, ha]
  rfl

/-- One of the three happens. -/
theorem consider_eq (l : LockTable) (t : TransactionId) (r : LockRequest) :
    (l.blockers t r = [] ∧ l.consider t r = (.granted, l.give t r)) ∨
      (l.blockers t r ≠ [] ∧ ¬ NoCircle (l.waits.setWaits t (l.blockers t r)).Waits ∧
        l.consider t r = (.refused, l.refuse t)) ∨
      (l.blockers t r ≠ [] ∧ NoCircle (l.waits.setWaits t (l.blockers t r)).Waits ∧
        l.consider t r = (.waits, l.park t r)) := by
  by_cases h : l.blockers t r = []
  · exact Or.inl ⟨h, consider_of_free h⟩
  · by_cases hc : NoCircle (l.waits.setWaits t (l.blockers t r)).Waits
    · exact Or.inr (Or.inr ⟨h, hc, consider_of_wait h hc⟩)
    · exact Or.inr (Or.inl ⟨h, hc, consider_of_circle h hc⟩)

/-! ## The parts after an evaluation -/

theorem modeOf?_give (h : l.blockers t r = []) (p : PageId) (u : TransactionId) :
    (l.give t r).modeOf? p u =
      if r.page = p ∧ t = u then some (r.mode.joined (l.modeOf? p t)) else l.modeOf? p u := by
  have hv := consider_of_free h
  have hg := modeOf?_of_granted (l := l) (t := t) (r := r) (by rw [hv]) p u
  rwa [hv] at hg

@[simp] theorem parked_give (l : LockTable) (t : TransactionId) (r : LockRequest) :
    (l.give t r).parked = l.parked.erase t := by
  unfold give
  dsimp only
  split <;> rfl

@[simp] theorem waits_give (l : LockTable) (t : TransactionId) (r : LockRequest) :
    (l.give t r).waits = l.waits.clearWaits t := by
  unfold give
  dsimp only
  split <;> rfl

theorem getElem?_parked_unpark (l : LockTable) (t u : TransactionId) :
    (l.unpark t).parked[u]? = if t = u then none else l.parked[u]? := by
  show (l.parked.erase t)[u]? = _
  simp [ExtTreeMap.getElem?_erase]

theorem getElem?_parked_park (l : LockTable) (t : TransactionId) (r : LockRequest)
    (u : TransactionId) : (l.park t r).parked[u]? = if t = u then some r else l.parked[u]? := by
  show ((l.parked.erase t).insert t r)[u]? = _
  simp only [ExtTreeMap.getElem?_insert, ExtTreeMap.getElem?_erase,
    Std.LawfulEqCmp.compare_eq_iff_eq]
  split <;> rfl

theorem getElem?_parked_give (l : LockTable) (t : TransactionId) (r : LockRequest)
    (u : TransactionId) : (l.give t r).parked[u]? = if t = u then none else l.parked[u]? := by
  rw [parked_give]
  exact l.getElem?_parked_unpark t u

theorem mem_woken_unpark : u ∈ (l.unpark t).woken ↔ t ≠ u ∧ u ∈ l.woken := by
  show u ∈ l.woken.erase t ↔ _
  simp [ExtTreeSet.mem_erase]

/-- Those that a grant wakes, or leaves woken, are parked. -/
theorem woken_of_give (hw : u ∈ (l.give t r).woken) :
    t ≠ u ∧ (u ∈ l.woken ∨ l.parked[u]? ≠ none) := by
  unfold give at hw
  dsimp only at hw
  split at hw
  · obtain ⟨hu, hw⟩ := mem_woken_unpark.1 hw
    exact ⟨hu, Or.inl hw⟩
  · rcases mem_woken_wake.1 hw with hw | hp
    · obtain ⟨hu, hw⟩ := mem_woken_unpark.1 hw
      exact ⟨hu, Or.inl hw⟩
    · obtain ⟨q, hq, -⟩ := mem_parkedOn.1 hp
      have hq : (l.unpark t).parked[u]? = some q := hq
      rw [getElem?_parked_unpark] at hq
      obtain ⟨hu, hq⟩ := Option.ite_none_left_eq_some.1 hq
      exact ⟨hu, Or.inr (by simp [hq])⟩

/-- A parked request that a grant does not wake was not woken before, and is not for the page if
this has a new holder. -/
theorem not_woken_of_give (hw : u ∉ (l.give t r).woken) (hu : t ≠ u) (hq : l.parked[u]? = some q) :
    u ∉ l.woken ∧ (r.page = q.page → l.modeOf? r.page t ≠ none) := by
  have hpq : (l.unpark t).parked[u]? = some q := by rw [getElem?_parked_unpark, if_neg hu, hq]
  unfold give at hw
  dsimp only at hw
  split at hw
  · rename_i hh
    exact ⟨fun hm => hw (mem_woken_unpark.2 ⟨hu, hm⟩), fun _ => Holders.holds_eq_true_iff.1 hh⟩
  · rw [mem_woken_wake, not_or, mem_parkedOn] at hw
    refine ⟨fun hm => hw.1 (mem_woken_unpark.2 ⟨hu, hm⟩), fun hp => ?_⟩
    exact absurd ⟨q, hpq, hp.symm⟩ hw.2

/-! ## The invariant -/

/-- A transaction waits for exactly those that stand in the way of its request, and for one at
least. -/
structure Stuck (l : LockTable) (t : TransactionId) (r : LockRequest) : Prop where
  waits : ∀ u, l.waits.Waits t u ↔ u ∈ l.blockers t r
  blocked : l.blockers t r ≠ []

/-- The wait graph keeps track of the parked requests. -/
structure Tracked (l : LockTable) : Prop where
  /-- The pages of each transaction are known. -/
  indexed : l.Indexed
  /-- Nobody waits for itself, however far around. -/
  noCircle : NoCircle l.waits.Waits
  /-- Only parked transactions wait. -/
  parked : ∀ t u, l.waits.Waits t u → l.parked[t]? ≠ none
  /-- Only parked transactions are woken. -/
  woken : ∀ t, t ∈ l.woken → l.parked[t]? ≠ none
  /-- What is not woken need not be evaluated. -/
  stuck : ∀ t r, l.parked[t]? = some r → t ∉ l.woken → l.Stuck t r

/-- A request stays stuck if the same holders stand in its way and its transaction has the same
edges. -/
theorem Stuck.congr (h : l.Stuck u q) (hb : ∀ v, v ∈ l'.blockers u q ↔ v ∈ l.blockers u q)
    (hw : ∀ v, l'.waits.Waits u v ↔ l.waits.Waits u v) : l'.Stuck u q := by
  refine ⟨fun v => by rw [hw, hb, h.waits], ?_⟩
  obtain ⟨v, hv⟩ := List.exists_mem_of_ne_nil _ h.blocked
  exact List.ne_nil_of_mem ((hb v).2 hv)

/-- The same holders stand in the way while the modes on the page are the same. -/
theorem mem_blockers_congr (h : ∀ v, l'.modeOf? q.page v = l.modeOf? q.page v) (v : TransactionId) :
    v ∈ l'.blockers u q ↔ v ∈ l.blockers u q := Holders.mem_conflicts_congr (h v) (h u)

theorem not_waits_empty (t u : TransactionId) : ¬ (∅ : LockTable).waits.Waits t u := by
  intro h
  exact ExtTreeMap.not_mem_empty (WaitGraph.mem_edges_of_waits h)

theorem tracked_empty : (∅ : LockTable).Tracked := by
  refine ⟨indexed_empty, ?_, fun t u h => absurd h (not_waits_empty t u),
    fun t h => absurd h ExtTreeSet.not_mem_empty, fun t r h => ?_⟩
  · intro t ht
    obtain ⟨u, htu, -⟩ := TransGen.head'_iff.1 ht
    exact not_waits_empty t u htu
  · have hnone : (∅ : LockTable).parked[t]? = none := ExtTreeMap.getElem?_empty
    rw [hnone] at h
    cases h

/-! ## Evaluations -/

theorem Tracked.refuse (hl : l.Tracked) (t : TransactionId) : (l.refuse t).Tracked := by
  have hparked : ∀ u, (l.refuse t).parked[u]? = if t = u then none else l.parked[u]? :=
    l.getElem?_parked_unpark t
  refine ⟨hl.indexed, ?_, fun s u h => ?_, fun u h => ?_, fun u q hq hw => ?_⟩
  · exact hl.noCircle.mono fun _ _ h => (WaitGraph.waits_clearWaits.1 h).2
  · obtain ⟨hs, h⟩ := WaitGraph.waits_clearWaits.1 h
    rw [hparked, if_neg hs.symm]
    exact hl.parked s u h
  · obtain ⟨hu, h⟩ := mem_woken_unpark.1 h
    rw [hparked, if_neg hu]
    exact hl.woken u h
  · rw [hparked] at hq
    obtain ⟨hu, hq⟩ := (Option.ite_none_left_eq_some).1 hq
    have hw' : u ∉ l.woken := fun hm => hw (mem_woken_unpark.2 ⟨hu, hm⟩)
    refine (hl.stuck u q hq hw').congr (fun _ => Iff.rfl) fun v => ?_
    show (l.waits.clearWaits t).Waits u v ↔ _
    rw [WaitGraph.waits_clearWaits]
    exact and_iff_right (Ne.symm hu)

theorem Tracked.park (hl : l.Tracked) (hb : l.blockers t r ≠ [])
    (hc : NoCircle (l.waits.setWaits t (l.blockers t r)).Waits) : (l.park t r).Tracked := by
  have hparked := l.getElem?_parked_park t r
  refine ⟨hl.indexed, hc, fun s u h => ?_, fun u h => ?_, fun u q hq hw => ?_⟩
  · rw [hparked]
    split
    · simp
    · rename_i hs
      have h : (l.waits.setWaits t (l.blockers t r)).Waits s u := h
      rw [WaitGraph.waits_setWaits, if_neg (Ne.symm hs)] at h
      exact hl.parked s u h
  · obtain ⟨hu, h⟩ := mem_woken_unpark.1 h
    rw [hparked, if_neg hu]
    exact hl.woken u h
  · rw [hparked] at hq
    split at hq
    · rename_i htu
      subst htu
      cases hq
      refine ⟨fun v => ?_, hb⟩
      show (l.waits.setWaits t (l.blockers t r)).Waits t v ↔ v ∈ l.blockers t r
      rw [WaitGraph.waits_setWaits, if_pos rfl]
      exact and_iff_left_of_imp fun hv => (Holders.ne_and_holds_of_mem_conflicts hv).1
    · rename_i hu
      have hw' : u ∉ l.woken := fun hm => hw (mem_woken_unpark.2 ⟨hu, hm⟩)
      refine (hl.stuck u q hq hw').congr (fun _ => Iff.rfl) fun v => ?_
      show (l.waits.setWaits t (l.blockers t r)).Waits u v ↔ _
      rw [WaitGraph.waits_setWaits, if_neg (Ne.symm hu)]

/-- Those that a grant does not wake have the same blockers as before. -/
theorem mem_blockers_give (hb : l.blockers t r = []) (hu : t ≠ u) (hq : l.blockers u q ≠ [])
    (hpage : r.page = q.page → l.modeOf? r.page t ≠ none) (v : TransactionId) :
    v ∈ (l.give t r).blockers u q ↔ v ∈ l.blockers u q := by
  by_cases hp : r.page = q.page
  · have hgrant : ∀ w, ((l.give t r).holdersAt q.page).modeOf? w =
        ((l.holdersAt r.page).grant t r.mode).modeOf? w := by
      intro w
      have := modeOf?_give hb q.page w
      rw [modeOf?] at this
      rw [this, Holders.modeOf?_grant]
      simp [hp, modeOf?]
    refine (Holders.mem_conflicts_congr (hgrant v) (hgrant u)).trans ?_
    rw [Holders.mem_conflicts_grant_of_holds (hpage hp) hb hu]
    · rw [blockers, hp]
    · rwa [blockers, ← hp] at hq
  · refine mem_blockers_congr (fun w => ?_) v
    rw [modeOf?_give hb, if_neg fun h => hp h.1]

theorem Tracked.give (hl : l.Tracked) (hb : l.blockers t r = []) : (l.give t r).Tracked := by
  have hparked := l.getElem?_parked_give t r
  refine ⟨?_, ?_, fun s u h => ?_, fun u h => ?_, fun u q hq hw => ?_⟩
  · have h := hl.indexed.consider t r
    rwa [consider_of_free hb] at h
  · rw [waits_give]
    exact hl.noCircle.mono fun _ _ h => (WaitGraph.waits_clearWaits.1 h).2
  · rw [waits_give, WaitGraph.waits_clearWaits] at h
    rw [hparked, if_neg h.1.symm]
    exact hl.parked s u h.2
  · obtain ⟨hu, h⟩ := woken_of_give h
    rw [hparked, if_neg hu]
    exact h.elim (hl.woken u) id
  · rw [hparked] at hq
    obtain ⟨hu, hq⟩ := Option.ite_none_left_eq_some.1 hq
    obtain ⟨hw', hpage⟩ := not_woken_of_give hw hu hq
    have hstuck := hl.stuck u q hq hw'
    refine hstuck.congr (mem_blockers_give hb hu hstuck.blocked hpage) fun v => ?_
    rw [waits_give, WaitGraph.waits_clearWaits]
    exact and_iff_right (Ne.symm hu)

/-- Every evaluation keeps track, of a new request as of a parked one. -/
theorem Tracked.consider (hl : l.Tracked) (t : TransactionId) (r : LockRequest) :
    (l.consider t r).2.Tracked := by
  rcases l.consider_eq t r with ⟨hb, h⟩ | ⟨hb, hc, h⟩ | ⟨hb, hc, h⟩
  · rw [h]
    exact hl.give hb
  · rw [h]
    exact hl.refuse t
  · rw [h]
    exact hl.park hb hc

/-! ## Releases -/

theorem Tracked.release (hl : l.Tracked) (p : PageId) (t : TransactionId) :
    (l.release p t).2.Tracked := by
  refine ⟨hl.indexed.release p t, hl.noCircle, hl.parked, fun u h => ?_, fun u q hq hw => ?_⟩
  · rcases mem_woken_wake.1 h with h | h
    · exact hl.woken u h
    · obtain ⟨q, hq, -⟩ := mem_parkedOn.1 h
      have hq : l.parked[u]? = some q := hq
      exact ne_of_eq_of_ne hq (by simp)
  · have hq : l.parked[u]? = some q := hq
    rw [LockTable.release, mem_woken_wake, not_or, mem_parkedOn] at hw
    have hpage : p ≠ q.page := by
      rintro rfl
      exact hw.2 ⟨q, hq, rfl⟩
    refine (hl.stuck u q hq hw.1).congr (mem_blockers_congr fun v => ?_) fun _ => Iff.rfl
    rw [modeOf?_release, if_neg fun h => hpage h.1]

theorem mem_woken_releasePages {u : TransactionId} (t : TransactionId) :
    ∀ (pages : List PageId) (l : LockTable),
      u ∈ (l.releasePages t pages).woken ↔ u ∈ l.woken ∨ ∃ p ∈ pages, u ∈ l.parkedOn p
  | [], l => by simp [releasePages]
  | p :: pages, l => by
      have h := mem_woken_releasePages (u := u) t pages
        ((l.setHolders p ((l.holdersAt p).release t)).wake p)
      show u ∈ (((l.setHolders p ((l.holdersAt p).release t)).wake p).releasePages
        t pages).woken ↔ _
      rw [h, mem_woken_wake]
      show (u ∈ l.woken ∨ u ∈ l.parkedOn p) ∨ (∃ q ∈ pages, u ∈ l.parkedOn q) ↔ _
      simp [or_assoc]

theorem waits_releasePages (t : TransactionId) :
    ∀ (pages : List PageId) (l : LockTable), (l.releasePages t pages).waits = l.waits
  | [], _ => rfl
  | _ :: pages, _ => waits_releasePages t pages _

theorem waits_releaseAll (l : LockTable) (t : TransactionId) :
    (l.releaseAll t).2.waits = l.waits.removeTransaction t := waits_releasePages t ..

/-- A transaction that is not parked can give all its pages back. -/
theorem Tracked.releaseAll (hl : l.Tracked) (ht : l.parked[t]? = none) :
    (l.releaseAll t).2.Tracked := by
  refine ⟨hl.indexed.releaseAll t, ?_, fun s u h => ?_, fun u h => ?_, fun u q hq hw => ?_⟩
  · rw [waits_releaseAll]
    exact hl.noCircle.mono fun _ _ h => (WaitGraph.waits_removeTransaction.1 h).2.2
  · rw [waits_releaseAll] at h
    rw [parked_releaseAll]
    exact hl.parked s u (WaitGraph.waits_removeTransaction.1 h).2.2
  · rw [parked_releaseAll]
    rcases (mem_woken_releasePages t _ _).1 h with h | ⟨p, -, h⟩
    · exact hl.woken u h
    · obtain ⟨q, hq, -⟩ := mem_parkedOn.1 h
      have hq : l.parked[u]? = some q := hq
      exact ne_of_eq_of_ne hq (by simp)
  · rw [parked_releaseAll] at hq
    rw [LockTable.releaseAll, mem_woken_releasePages, not_or] at hw
    have hu : u ≠ t := by
      rintro rfl
      rw [ht] at hq
      cases hq
    -- the request was not woken, so its page is none of those that were given back
    have hnone : l.modeOf? q.page t = none := by
      by_contra hmode
      have hheld := ExtTreeSet.mem_toList.2 ((hl.indexed t q.page).2 hmode)
      exact hw.2 ⟨q.page, hheld, mem_parkedOn.2 ⟨q, hq, rfl⟩⟩
    have hstuck := hl.stuck u q hq hw.1
    refine hstuck.congr (mem_blockers_congr fun v => ?_) fun v => ?_
    · rw [modeOf?_releaseAll hl.indexed]
      split
      · rename_i htv
        rw [← htv, hnone]
      · rfl
    · rw [waits_releaseAll, WaitGraph.waits_removeTransaction]
      refine ⟨fun h => h.2.2, fun h => ⟨hu, ?_, h⟩⟩
      rintro rfl
      exact (Holders.ne_and_holds_of_mem_conflicts ((hstuck.waits v).1 h)).2 hnone

theorem Tracked.perform (hl : l.Tracked) (c : LockCommand) (hc : l.isParked c.transaction = false) :
    (l.perform c).2.Tracked := by
  cases c with
  | acquire t r => exact hl.consider t r
  | release t p => exact hl.release p t
  | releaseAll t => exact hl.releaseAll (isParked_eq_false_iff.1 hc)

/-! ## Runs -/

/-- One step of the transactions of a table. -/
inductive Step : LockTable → LockTable → Prop where
  /-- A transaction without a parked request sends a command. -/
  | command {l : LockTable} (c : LockCommand) (h : l.isParked c.transaction = false) :
      Step l (l.perform c).2
  /-- A parked request is evaluated again. -/
  | evaluate {l : LockTable} {t : TransactionId} {r : LockRequest} (h : l.parked[t]? = some r) :
      Step l (l.consider t r).2

theorem Tracked.step (hl : l.Tracked) (h : Step l l') : l'.Tracked := by
  cases h with
  | command c hc => exact hl.perform c hc
  | evaluate h => exact hl.consider _ _

theorem Tracked.run (hl : l.Tracked) (h : ReflTransGen Step l l') : l'.Tracked := by
  induction h with
  | refl => exact hl
  | tail _ hstep ih => exact ih.step hstep

/-- Settling evaluates parked requests. -/
theorem reachable_settleFrom (answers : ExtTreeMap TransactionId Verdict) (l : LockTable) :
    ReflTransGen Step l (settleFrom answers l).2 := by
  fun_induction settleFrom answers l with
  | case1 answers l h => exact .refl
  | case2 answers l t r h ih => exact .head (.evaluate (mem_of_nextWoken? h).2) ih

/-- Serving a command comes to steps. -/
theorem reachable_serve (l : LockTable) (c : LockCommand) :
    ReflTransGen Step l (l.serve c).2.2 := by
  rw [serve]
  split
  · exact .refl
  · rename_i hc
    exact .head (.command c (by simpa using hc)) (reachable_settleFrom _ _)

/-- Carries out commands one after the other, as long as no transaction with a parked request sends
one and none wakes a request. -/
def performAll : List LockCommand → LockTable → Option LockTable
  | [], l => some l
  | c :: commands, l =>
      if l.isParked c.transaction = false ∧ (l.perform c).2.woken = ∅ then
        performAll commands (l.perform c).2
      else none

theorem reachable_performAll :
    ∀ {commands : List LockCommand} {l l' : LockTable}, performAll commands l = some l' →
      ReflTransGen Step l l'
  | [], l, l', h => by
      cases h
      exact .refl
  | c :: commands, l, l', h => by
      rw [performAll] at h
      split at h
      · rename_i hc
        exact .head (.command c hc.1) (reachable_performAll h)
      · cases h

/-! ## No deadlock -/

/-- The edges lead from a parked transaction to one that is not parked, and stands in the way of
the last one before it. -/
theorem Tracked.leads_to_holder (hl : l.Tracked) (hw : l.woken = ∅) :
    ∀ t, l.parked[t]? ≠ none → ∃ s r u, ReflTransGen l.waits.Waits t s ∧ l.parked[s]? = some r ∧
      l.waits.Waits s u ∧ l.parked[u]? = none ∧ l.modeOf? r.page u ≠ none := by
  intro t
  induction t using (WaitGraph.wellFounded_waits hl.noCircle).induction with
  | _ t ih =>
      intro ht
      obtain ⟨r, hr⟩ := Option.ne_none_iff_exists'.1 ht
      have hstuck := hl.stuck t r hr (by rw [hw]; exact ExtTreeSet.not_mem_empty)
      obtain ⟨u, hu⟩ := List.exists_mem_of_ne_nil _ hstuck.blocked
      have htu := (hstuck.waits u).2 hu
      by_cases hparked : l.parked[u]? = none
      · exact ⟨t, r, u, .refl, hr, htu, hparked, (Holders.ne_and_holds_of_mem_conflicts hu).2⟩
      · obtain ⟨s, q, v, hus, rest⟩ := ih u htu hparked
        exact ⟨s, q, v, .head htu hus, rest⟩

/-- There is no deadlock, in whatever order commands come and requests are evaluated.  There is
never a circle.  Once no request is woken, each parked request waits for exactly those that
stand in its way, of whom there is at least one, so it could not be granted; who is not parked
waits for nobody; and from every parked transaction the edges lead to one that is not parked and
holds a page that is waited for. -/
theorem deadlock_free (h : ReflTransGen Step ∅ l) :
    NoCircle l.waits.Waits ∧
      (l.woken = ∅ →
        (∀ t r, l.parked[t]? = some r →
          (∀ u, l.waits.Waits t u ↔ u ∈ (l.holdersAt r.page).conflicts t r.mode) ∧
            (l.holdersAt r.page).conflicts t r.mode ≠ [] ∧ (l.consider t r).1 ≠ .granted) ∧
        (∀ t u, l.isParked t = false → ¬ l.waits.Waits t u) ∧
        ∀ t, l.isParked t = true →
          ∃ s r u, ReflTransGen l.waits.Waits t s ∧ l.parked[s]? = some r ∧ l.waits.Waits s u ∧
            l.isParked u = false ∧ l.holds r.page u = true) := by
  have hl := tracked_empty.run h
  refine ⟨hl.noCircle, fun hw => ⟨fun t r hr => ?_, fun t u ht htu => ?_, fun t ht => ?_⟩⟩
  · have hstuck := hl.stuck t r hr (by rw [hw]; exact ExtTreeSet.not_mem_empty)
    refine ⟨hstuck.waits, hstuck.blocked, ?_⟩
    rcases l.consider_eq t r with ⟨hb, -⟩ | ⟨-, -, hc⟩ | ⟨-, -, hc⟩
    · exact absurd hb hstuck.blocked
    · simp [hc]
    · simp [hc]
  · exact hl.parked t u htu (isParked_eq_false_iff.1 ht)
  · have ht : l.parked[t]? ≠ none := by
      rw [Ne, ← isParked_eq_false_iff, ht]
      simp
    obtain ⟨s, r, u, hts, hr, hsu, hu, hmode⟩ := hl.leads_to_holder hw t ht
    exact ⟨s, r, u, hts, hr, hsu, isParked_eq_false_iff.2 hu, Holders.holds_eq_true_iff.2 hmode⟩

namespace Line

/-- A page. -/
def page (number : Nat) : PageId := { table := ⟨1⟩, number }

/-- Transactions 0 and 1 hold a page each.  Transaction 1 asks for the page of 0, and 2 for the page
of 1. -/
def commands : List LockCommand :=
  [.acquire ⟨0⟩ ⟨page 0, .exclusive⟩, .acquire ⟨1⟩ ⟨page 1, .exclusive⟩,
    .acquire ⟨1⟩ ⟨page 0, .shared⟩, .acquire ⟨2⟩ ⟨page 1, .shared⟩]

/-- Transaction 2 waits for 1, which waits for 0. -/
def table : LockTable := (performAll commands ∅).getD ∅

theorem performAll_eq : performAll commands ∅ = some table := by
  have h : (performAll commands ∅).isSome = true := by decide +kernel
  obtain ⟨l, hl⟩ := Option.isSome_iff_exists.1 h
  rw [table, hl, Option.getD_some]

end Line

theorem deadlock_free_line :
    Line.table.woken = ∅ ∧ Line.table.isParked ⟨2⟩ = true ∧
      ∃ s r u, ReflTransGen Line.table.waits.Waits ⟨2⟩ s ∧ Line.table.parked[s]? = some r ∧
        Line.table.waits.Waits s u ∧ Line.table.isParked u = false ∧
        Line.table.holds r.page u = true := by
  have hw : Line.table.woken = ∅ := by decide +kernel
  have hp : Line.table.isParked ⟨2⟩ = true := by decide +kernel
  exact ⟨hw, hp, ((deadlock_free (reachable_performAll Line.performAll_eq)).2 hw).2.2 _ hp⟩

end LockTable

end PagedStore

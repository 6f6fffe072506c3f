import PagedStore.Proofs.Exclusivity
import PagedStore.Proofs.LeavingLocks
import PagedStore.Proofs.Refusals
import Mathlib.Logic.Function.Basic

/-!
# The list of held pages mirrors the locks

The pages that each transaction holds are listed apart from the locks, and the list is brought up
to date when a lock has been granted or given back already.  Other transactions may come in
between.  A lock table at such a moment is a `LockWork`: it says what is left to do of the call of
each transaction (`Errand`).  A call that nobody comes into is carried out as `LockTable.perform`
does it (`LockWork.run_perform`).

While a transaction has an errand its list differs from its locks by just this errand
(`Errand.Explains`).  Every step keeps it so, since a step is of one transaction
(`LockWork.Only`), and so does a run (`LockWork.Mirrored.run`).  When all errands are done the
list is exact, and so are the answers that are read off it (`LockWork.index_mirrors_locks`).
-/

namespace PagedStore

open Std (ExtTreeMap ExtTreeSet)
open Relation (ReflTransGen)

/-- What is left to do of a call. -/
inductive Errand where
  /-- A lock was granted, and the page is to be listed. -/
  | list (page : PageId)
  /-- A lock was given back, and the page is to be struck off the list. -/
  | strike (page : PageId)
  /-- The list was taken out, and its transaction is to leave the wait graph. -/
  | depart (pages : List PageId)
  /-- These pages of the list that was taken out are to be given back. -/
  | giveBack (pages : List PageId)

/-- A lock table with calls under way. -/
structure LockWork where
  /-- The locks and the list. -/
  table : LockTable := ∅
  /-- What is left to do of the call of each transaction. -/
  doing : TransactionId → Option Errand := fun _ => none

namespace LockWork

variable {w w' : LockWork} {s t u : TransactionId} {r q : LockRequest} {p : PageId} {e : Errand}
  {may : TransactionId → Prop}

/-! ## Steps -/

/-- A request is evaluated.  The list is not touched yet. -/
def evaluate (w : LockWork) (t : TransactionId) (r : LockRequest) : LockWork where
  table := { (w.table.consider t r).2 with held := w.table.held }
  doing :=
    if (w.table.consider t r).1 = .granted then Function.update w.doing t (some (.list r.page))
    else w.doing

/-- A call begins. -/
def call (w : LockWork) : LockCommand → LockWork
  | .acquire t r => w.evaluate t r
  | .release t p =>
      { table := w.table.releasePages t [p]
        doing := Function.update w.doing t (some (.strike p)) }
  | .releaseAll t =>
      { table := { w.table with held := w.table.held.erase t }
        doing := Function.update w.doing t (some (.depart (w.table.pagesHeldBy t))) }

/-- A call goes on. -/
def proceed (w : LockWork) (t : TransactionId) : Errand → LockWork
  | .list p =>
      { table := w.table.setHeld t ((w.table.heldBy t).insert p)
        doing := Function.update w.doing t none }
  | .strike p =>
      { table := w.table.setHeld t ((w.table.heldBy t).erase p)
        doing := Function.update w.doing t none }
  | .depart pages =>
      { table := { w.table with waits := w.table.waits.removeTransaction t }
        doing := Function.update w.doing t (some (.giveBack pages)) }
  | .giveBack [] => { w with doing := Function.update w.doing t none }
  | .giveBack (p :: pages) =>
      { table := w.table.releasePages t [p]
        doing := Function.update w.doing t (some (.giveBack pages)) }

/-- One step.  Transactions with the property may begin calls. -/
inductive Step (may : TransactionId → Prop) : LockWork → LockWork → Prop where
  /-- A transaction that is about nothing begins a call. -/
  | call {w : LockWork} (c : LockCommand) (hmay : may c.transaction)
      (hidle : w.doing c.transaction = none) (hparked : w.table.isParked c.transaction = false) :
      Step may w (w.call c)
  /-- A parked request is evaluated again. -/
  | evaluate {w : LockWork} {t : TransactionId} {r : LockRequest}
      (h : w.table.parked[t]? = some r) : Step may w (w.evaluate t r)
  /-- A call goes on. -/
  | proceed {w : LockWork} {t : TransactionId} {e : Errand} (h : w.doing t = some e) :
      Step may w (w.proceed t e)

/-- No call is under way, and no parked request has to be evaluated. -/
structure Settled (w : LockWork) : Prop where
  doing : ∀ t, w.doing t = none
  woken : w.table.woken = ∅

/-! ## What a step leaves alone -/

/-- At most one transaction is touched. -/
structure Only (t : TransactionId) (w w' : LockWork) : Prop where
  doing : ∀ u, t ≠ u → w'.doing u = w.doing u
  listed : ∀ u, t ≠ u → w'.table.heldBy u = w.table.heldBy u
  modes : ∀ u, t ≠ u → ∀ p, w'.table.modeOf? p u = w.table.modeOf? p u
  parked : ∀ u, t ≠ u → w'.table.parked[u]? = w.table.parked[u]?

theorem only_evaluate (w : LockWork) (t : TransactionId) (r : LockRequest) :
    Only t w (w.evaluate t r) := by
  refine ⟨fun u hu => ?_, fun u _ => rfl, fun u hu p => ?_, fun u hu => ?_⟩
  · unfold evaluate
    dsimp only
    split
    · exact Function.update_of_ne hu.symm _ _
    · rfl
  · show (w.table.consider t r).2.modeOf? p u = _
    by_cases hg : (w.table.consider t r).1 = .granted
    · rw [LockTable.modeOf?_of_granted hg, if_neg fun h => hu h.2]
    · exact LockTable.modeOf?_of_not_granted hg p u
  · exact w.table.parked_consider_of_ne r hu

theorem only_releasePages (w : LockWork) (t : TransactionId) (pages : List PageId)
    (e : Option Errand) :
    Only t w { table := w.table.releasePages t pages, doing := Function.update w.doing t e } where
  doing u hu := Function.update_of_ne hu.symm _ _
  listed u _ := w.table.heldBy_releasePages t u pages
  modes u hu p := by
    show (w.table.releasePages t pages).modeOf? p u = _
    rw [LockTable.modeOf?_releasePages, if_neg fun h => hu h.2]
  parked u _ := by
    show (w.table.releasePages t pages).parked[u]? = _
    rw [LockTable.parked_releasePages]

theorem only_setHeld (w : LockWork) (t : TransactionId) (pages : ExtTreeSet PageId)
    (e : Option Errand) :
    Only t w { table := w.table.setHeld t pages, doing := Function.update w.doing t e } where
  doing u hu := Function.update_of_ne hu.symm _ _
  listed u hu := by
    show (w.table.setHeld t pages).heldBy u = _
    rw [LockTable.heldBy_setHeld, if_neg hu]
  modes u _ p := rfl
  parked u _ := rfl

theorem only_call (w : LockWork) (c : LockCommand) : Only c.transaction w (w.call c) := by
  cases c with
  | acquire t r => exact w.only_evaluate t r
  | release t p => exact w.only_releasePages t [p] _
  | releaseAll t =>
      refine ⟨fun u hu => Function.update_of_ne hu.symm _ _, fun u hu => ?_, fun _ _ _ => rfl,
        fun _ _ => rfl⟩
      have hu : ¬ compare t u = .eq := fun h => hu (Std.LawfulEqCmp.compare_eq_iff_eq.1 h)
      show (w.table.held.erase t).getD u ∅ = w.table.held.getD u ∅
      rw [ExtTreeMap.getD_erase, if_neg hu]

theorem only_proceed (w : LockWork) (t : TransactionId) (e : Errand) :
    Only t w (w.proceed t e) := by
  have hdoing : ∀ e' u, t ≠ u → Function.update w.doing t e' u = w.doing u :=
    fun e' u hu => Function.update_of_ne hu.symm _ _
  cases e with
  | list p => exact w.only_setHeld t _ none
  | strike p => exact w.only_setHeld t _ none
  | depart pages => exact ⟨hdoing _, fun _ _ => rfl, fun _ _ _ => rfl, fun _ _ => rfl⟩
  | giveBack pages =>
      cases pages with
      | nil => exact ⟨hdoing _, fun _ _ => rfl, fun _ _ _ => rfl, fun _ _ => rfl⟩
      | cons p pages => exact w.only_releasePages t [p] _

/-! ## The invariant -/

end LockWork

/-- What is listed for a transaction and what it holds differ by its errand. -/
def Errand.Explains (listed : ExtTreeSet PageId) (Holds : PageId → Prop) : Option Errand → Prop
  | none => ∀ p, Holds p ↔ p ∈ listed
  | some (.list q) => ∀ p, Holds p ↔ p = q ∨ p ∈ listed
  | some (.strike q) => ∀ p, Holds p ↔ p ≠ q ∧ p ∈ listed
  | some (.depart pages) | some (.giveBack pages) =>
      listed = ∅ ∧ pages.Nodup ∧ ∀ p, Holds p ↔ p ∈ pages

theorem LockMode.covers_self (mode : LockMode) : mode.Covers mode := by
  cases mode with
  | shared => exact Or.inr rfl
  | exclusive => exact Or.inl rfl

/-- A grant never makes a lock weaker. -/
theorem LockMode.covers_held (mode held : LockMode) : (mode.joined (some held)).Covers held := by
  cases mode with
  | shared => exact held.covers_self
  | exclusive => exact Or.inl rfl

namespace LockTable

/-- Every parked request that is not woken has someone in its way. -/
def Blocked (l : LockTable) : Prop :=
  ∀ t r, l.parked[t]? = some r → t ∉ l.woken → l.blockers t r ≠ []

variable {l : LockTable} {t : TransactionId} {r : LockRequest}

theorem Blocked.consider (hl : l.Blocked) (t : TransactionId) (r : LockRequest) :
    (l.consider t r).2.Blocked := by
  intro u q hq hw
  by_cases hu : t = u
  · subst hu
    rcases l.consider_eq t r with ⟨-, h⟩ | ⟨-, -, h⟩ | ⟨hb, -, h⟩
    · rw [h, getElem?_parked_give, if_pos rfl] at hq
      cases hq
    · rw [h] at hq
      have hq : (l.unpark t).parked[t]? = some q := hq
      rw [getElem?_parked_unpark, if_pos rfl] at hq
      cases hq
    · rw [h, getElem?_parked_park, if_pos rfl] at hq
      cases hq
      rw [h]
      exact hb
  · rw [l.parked_consider_of_ne r hu] at hq
    rcases l.consider_eq t r with ⟨hb, h⟩ | ⟨-, -, h⟩ | ⟨hb, -, h⟩
    · rw [h] at hw ⊢
      obtain ⟨hw, hpage⟩ := not_woken_of_give hw hu hq
      obtain ⟨v, hv⟩ := List.exists_mem_of_ne_nil _ (hl u q hq hw)
      exact List.ne_nil_of_mem ((mem_blockers_give hb hu (hl u q hq hw) hpage v).2 hv)
    · rw [h] at hw ⊢
      exact hl u q hq fun hm => hw (mem_woken_unpark.2 ⟨hu, hm⟩)
    · rw [h] at hw ⊢
      exact hl u q hq fun hm => hw (mem_woken_unpark.2 ⟨hu, hm⟩)

theorem Blocked.releasePages (hl : l.Blocked) (t : TransactionId) (pages : List PageId) :
    (l.releasePages t pages).Blocked := by
  intro u q hq hw
  rw [parked_releasePages] at hq
  rw [mem_woken_releasePages, not_or] at hw
  have hpage : q.page ∉ pages := fun h => hw.2 ⟨q.page, h, mem_parkedOn.2 ⟨q, hq, rfl⟩⟩
  obtain ⟨v, hv⟩ := List.exists_mem_of_ne_nil _ (hl u q hq hw.1)
  refine List.ne_nil_of_mem ((mem_blockers_congr (fun v => ?_) v).2 hv)
  rw [modeOf?_releasePages, if_neg fun h => hpage h.1]

end LockTable

namespace LockWork

variable {w w' : LockWork} {s t u : TransactionId} {r q : LockRequest} {p : PageId} {e : Errand}
  {may : TransactionId → Prop}

/-- The list mirrors the locks but for the errands. -/
structure Mirrored (w : LockWork) : Prop where
  /-- Each transaction is about what its list lacks or has too much. -/
  explained : ∀ t,
    Errand.Explains (w.table.heldBy t) (fun p => w.table.modeOf? p t ≠ none) (w.doing t)
  /-- No empty set of pages is stored. -/
  nonempty : ∀ t : TransactionId, w.table.held[t]? ≠ some ∅
  /-- A transaction with a parked request is about nothing else. -/
  parked : ∀ t : TransactionId, w.table.parked[t]? ≠ none → w.doing t = none
  /-- Whoever is parked and not woken is blocked. -/
  blocked : w.table.Blocked

theorem mirrored_empty : ({} : LockWork).Mirrored where
  explained t p := (LockTable.indexed_empty t p).symm
  nonempty t := by
    have h : (∅ : LockTable).held[t]? = none := ExtTreeMap.getElem?_empty
    exact ne_of_eq_of_ne h (by simp)
  parked t h := rfl
  blocked t r h := by
    have hnone : (∅ : LockTable).parked[t]? = none := ExtTreeMap.getElem?_empty
    exact absurd (hnone.symm.trans h) (by simp)

/-- What is enough for a step of one transaction to keep the list in order. -/
theorem Mirrored.only (hw : w.Mirrored) (h : Only t w w')
    (hexplained : Errand.Explains (w'.table.heldBy t) (fun p => w'.table.modeOf? p t ≠ none)
      (w'.doing t))
    (hnonempty : ∀ t : TransactionId, w'.table.held[t]? ≠ some ∅)
    (hparked : w'.table.parked[t]? ≠ none → w'.doing t = none) (hblocked : w'.table.Blocked) :
    w'.Mirrored := by
  refine ⟨fun u => ?_, hnonempty, fun u hu => ?_, hblocked⟩
  · by_cases htu : t = u
    · exact htu ▸ hexplained
    · have hu := hw.explained u
      simp only [← h.modes u htu] at hu
      rwa [h.doing u htu, h.listed u htu]
  · by_cases htu : t = u
    · subst htu
      exact hparked hu
    · rw [h.doing u htu]
      exact hw.parked u (by rwa [← h.parked u htu])

/-! ## Steps keep the invariant -/

theorem nonempty_setHeld {l : LockTable} (hl : ∀ t : TransactionId, l.held[t]? ≠ some ∅)
    (t : TransactionId) (pages : ExtTreeSet PageId) (u : TransactionId) :
    (l.setHeld t pages).held[u]? ≠ some ∅ := by
  rw [LockTable.getElem?_held_setHeld]
  split
  · split
    · simp
    · rename_i hne
      rintro h
      cases h
      exact hne ExtTreeSet.isEmpty_empty
  · exact hl u

theorem Mirrored.idle (hw : w.Mirrored) (ht : w.doing t = none) (p : PageId) :
    w.table.modeOf? p t ≠ none ↔ p ∈ w.table.heldBy t := by
  have h := hw.explained t
  rw [ht] at h
  exact h p

theorem Mirrored.evaluate (hw : w.Mirrored) (ht : w.doing t = none) (r : LockRequest) :
    (w.evaluate t r).Mirrored := by
  refine hw.only (w.only_evaluate t r) ?_ hw.nonempty ?_ (hw.blocked.consider t r)
  · by_cases hg : (w.table.consider t r).1 = .granted
    · have hdoing : (w.evaluate t r).doing t = some (.list r.page) := by
        simp [LockWork.evaluate, hg]
      rw [hdoing]
      intro p
      show (w.table.consider t r).2.modeOf? p t ≠ none ↔ p = r.page ∨ p ∈ w.table.heldBy t
      rw [LockTable.modeOf?_of_granted hg, ← hw.idle ht]
      by_cases hp : r.page = p
      · simp [hp]
      · simp [hp, Ne.symm hp]
    · have hdoing : (w.evaluate t r).doing t = none := by
        simp [LockWork.evaluate, hg, ht]
      rw [hdoing]
      intro p
      show (w.table.consider t r).2.modeOf? p t ≠ none ↔ p ∈ w.table.heldBy t
      rw [LockTable.modeOf?_of_not_granted hg]
      exact hw.idle ht p
  · intro hparked
    -- a granted request is not parked
    have hg : (w.table.consider t r).1 ≠ .granted := by
      intro hg
      refine hparked ?_
      show (w.table.consider t r).2.parked[t]? = none
      rw [LockTable.parked_consider_of_ne_waits (by simp [hg])]
      exact ExtTreeMap.getElem?_erase_self
    simp [LockWork.evaluate, hg, ht]

theorem Mirrored.call (hw : w.Mirrored) (c : LockCommand) (hidle : w.doing c.transaction = none)
    (hparked : w.table.isParked c.transaction = false) : (w.call c).Mirrored := by
  have hnone := LockTable.isParked_eq_false_iff.1 hparked
  cases c with
  | acquire t r => exact hw.evaluate hidle r
  | release t p =>
      have hidle : w.doing t = none := hidle
      refine hw.only (w.only_call (.release t p)) ?_ hw.nonempty ?_
        (hw.blocked.releasePages t [p])
      · show Errand.Explains _ _ (Function.update w.doing t (some (.strike p)) t)
        rw [Function.update_self]
        intro q
        show (w.table.releasePages t [p]).modeOf? q t ≠ none ↔ q ≠ p ∧ q ∈ w.table.heldBy t
        rw [LockTable.modeOf?_releasePages, ← hw.idle hidle]
        by_cases hq : q = p
        · simp [hq]
        · simp [hq]
      · exact fun h => absurd hnone h
  | releaseAll t =>
      refine hw.only (w.only_call (.releaseAll t)) ?_ ?_ ?_ hw.blocked
      · show Errand.Explains _ _ (Function.update w.doing t _ t)
        rw [Function.update_self]
        refine ⟨?_, ?_, fun p => ?_⟩
        · show (w.table.held.erase t).getD t ∅ = ∅
          simp
        · exact ExtTreeSet.distinct_toList.imp
            fun h heq => h (Std.LawfulEqCmp.compare_eq_iff_eq.2 heq)
        · exact (hw.idle hidle p).trans ExtTreeSet.mem_toList.symm
      · intro u
        show (w.table.held.erase t)[u]? ≠ some ∅
        rw [ExtTreeMap.getElem?_erase]
        split
        · simp
        · exact hw.nonempty u
      · exact fun h => absurd hnone h

theorem Mirrored.proceed (hw : w.Mirrored) (he : w.doing t = some e) :
    (w.proceed t e).Mirrored := by
  have hexplained := hw.explained t
  rw [he] at hexplained
  have hparked : ¬ w.table.parked[t]? ≠ none := by
    intro h
    rw [hw.parked t h] at he
    cases he
  cases e with
  | list q =>
      refine hw.only (w.only_proceed t (.list q)) ?_ (nonempty_setHeld hw.nonempty t _)
        (fun h => absurd h hparked) hw.blocked
      show Errand.Explains _ _ (Function.update w.doing t none t)
      rw [Function.update_self]
      intro p
      show w.table.modeOf? p t ≠ none ↔ p ∈ (w.table.setHeld t _).heldBy t
      rw [LockTable.heldBy_setHeld, if_pos rfl, ExtTreeSet.mem_insert,
        Std.LawfulEqCmp.compare_eq_iff_eq, eq_comm]
      exact hexplained p
  | strike q =>
      refine hw.only (w.only_proceed t (.strike q)) ?_ (nonempty_setHeld hw.nonempty t _)
        (fun h => absurd h hparked) hw.blocked
      show Errand.Explains _ _ (Function.update w.doing t none t)
      rw [Function.update_self]
      intro p
      show w.table.modeOf? p t ≠ none ↔ p ∈ (w.table.setHeld t _).heldBy t
      rw [LockTable.heldBy_setHeld, if_pos rfl, ExtTreeSet.mem_erase, ne_eq (compare q p),
        Std.LawfulEqCmp.compare_eq_iff_eq, eq_comm]
      exact hexplained p
  | depart pages =>
      refine hw.only (w.only_proceed t (.depart pages)) ?_ hw.nonempty
        (fun h => absurd h hparked) hw.blocked
      show Errand.Explains _ _ (Function.update w.doing t _ t)
      rw [Function.update_self]
      exact hexplained
  | giveBack pages =>
      obtain ⟨hlisted, hnodup, hholds⟩ := hexplained
      cases pages with
      | nil =>
          refine hw.only (w.only_proceed t (.giveBack [])) ?_ hw.nonempty
            (fun h => absurd h hparked) hw.blocked
          show Errand.Explains _ _ (Function.update w.doing t none t)
          rw [Function.update_self]
          intro p
          refine iff_of_false (fun h => List.not_mem_nil ((hholds p).1 h)) fun h => ?_
          have h : p ∈ w.table.heldBy t := h
          rw [hlisted] at h
          exact ExtTreeSet.not_mem_empty h
      | cons q pages =>
          obtain ⟨hq, hnodup⟩ := List.nodup_cons.1 hnodup
          refine hw.only (w.only_proceed t (.giveBack (q :: pages))) ?_ hw.nonempty
            (fun h => ?_) (hw.blocked.releasePages t [q])
          · show Errand.Explains _ _ (Function.update w.doing t _ t)
            rw [Function.update_self]
            refine ⟨hlisted, hnodup, fun p => ?_⟩
            show (w.table.releasePages t [q]).modeOf? p t ≠ none ↔ p ∈ pages
            rw [LockTable.modeOf?_releasePages]
            by_cases hp : p = q
            · simp [hp, hq]
            · have := hholds p
              simpa [hp] using this
          · exact absurd h hparked

theorem Mirrored.step (hw : w.Mirrored) (h : Step may w w') : w'.Mirrored := by
  cases h with
  | call c _ hidle hparked => exact hw.call c hidle hparked
  | evaluate h => exact hw.evaluate (hw.parked _ (by simp [h])) _
  | proceed h => exact hw.proceed h

theorem Mirrored.run (hw : w.Mirrored) (h : ReflTransGen (Step may) w w') : w'.Mirrored := by
  induction h with
  | refl => exact hw
  | tail _ hstep ih => exact ih.step hstep

/-! ## Calls that nobody comes into -/

theorem run_giveBack (t : TransactionId) : ∀ (pages : List PageId) (w : LockWork),
    w.doing t = some (.giveBack pages) →
      ReflTransGen (Step may) w
        { table := w.table.releasePages t pages, doing := Function.update w.doing t none }
  | [], _, h => .single (.proceed h)
  | p :: pages, w, h => by
      have hrest := run_giveBack t pages (w.proceed t (.giveBack (p :: pages)))
        (Function.update_self t _ _)
      have hdoing : Function.update (w.proceed t (.giveBack (p :: pages))).doing t none =
          Function.update w.doing t none := Function.update_idem ..
      rw [hdoing] at hrest
      exact .head (.proceed h) hrest

/-- A transaction that was about nothing is about nothing again. -/
theorem update_update_none (ht : w.doing t = none) (e : Option Errand) :
    Function.update (Function.update w.doing t e) t none = w.doing := by
  rw [Function.update_idem, ← ht, Function.update_eq_self]

/-- If nobody comes into an evaluation, the page of a granted request is listed at once. -/
theorem run_evaluate (ht : w.doing t = none) (r : LockRequest) :
    ReflTransGen (Step may) (w.evaluate t r) { w with table := (w.table.consider t r).2 } := by
  rcases w.table.consider_eq t r with ⟨-, h⟩ | ⟨-, -, h⟩ | ⟨-, -, h⟩
  · have hdoing : (w.evaluate t r).doing = Function.update w.doing t (some (.list r.page)) := by
      simp [evaluate, h]
    have hmine : (w.evaluate t r).doing t = some (.list r.page) := by
      rw [hdoing, Function.update_self]
    have htable : ((w.evaluate t r).table.setHeld t ((w.table.heldBy t).insert r.page)) =
        (w.table.consider t r).2 := by
      rw [evaluate, h]
      unfold LockTable.give
      dsimp only
      split <;> rfl
    have hdone : (w.evaluate t r).proceed t (.list r.page) =
        { w with table := (w.table.consider t r).2 } := by
      rw [← htable, ← update_update_none ht (some (.list r.page)), ← hdoing]
      rfl
    rw [← hdone]
    exact .single (.proceed hmine)
  · have hsame : w.evaluate t r = { w with table := (w.table.consider t r).2 } := by
      simp only [evaluate, h]
      rfl
    rw [hsame]
  · have hsame : w.evaluate t r = { w with table := (w.table.consider t r).2 } := by
      simp only [evaluate, h]
      rfl
    rw [hsame]

/-- A call that nobody comes into does what the lock table does for the command. -/
theorem run_perform (c : LockCommand) (hidle : w.doing c.transaction = none) :
    ReflTransGen (Step may) (w.call c) { w with table := (w.table.perform c).2 } := by
  cases c with
  | acquire t r => exact run_evaluate hidle r
  | release t p =>
      have hidle : w.doing t = none := hidle
      have hmine : (w.call (.release t p)).doing t = some (.strike p) := Function.update_self ..
      have hdone : (w.call (.release t p)).proceed t (.strike p) =
          { w with table := (w.table.perform (.release t p)).2 } := by
        rw [← update_update_none hidle (some (.strike p))]
        rfl
      rw [← hdone]
      exact .single (.proceed hmine)
  | releaseAll t =>
      have hidle : w.doing t = none := hidle
      have hmine : (w.call (.releaseAll t)).doing t = some (.depart (w.table.pagesHeldBy t)) :=
        Function.update_self ..
      have hgive : ReflTransGen (Step may) _ _ := run_giveBack t (w.table.pagesHeldBy t)
        ((w.call (.releaseAll t)).proceed t (.depart (w.table.pagesHeldBy t)))
        (Function.update_self ..)
      have hdone : Function.update ((w.call (.releaseAll t)).proceed t
          (.depart (w.table.pagesHeldBy t))).doing t none = w.doing := by
        show Function.update (Function.update (Function.update w.doing t _) t _) t none = _
        rw [Function.update_idem (f := w.doing), update_update_none hidle]
      rw [hdone] at hgive
      exact .head (.proceed hmine) hgive

/-- So do the steps of a lock table. -/
theorem run_of_table {l l' : LockTable} (h : ReflTransGen LockTable.Step l l') :
    ReflTransGen (Step fun _ => True) { table := l } { table := l' } := by
  induction h with
  | refl => exact .refl
  | tail _ hstep ih =>
      cases hstep with
      | command c hparked => exact (ih.tail (.call c trivial rfl hparked)).trans (run_perform c rfl)
      | evaluate hparked => exact (ih.tail (.evaluate hparked)).trans (run_evaluate rfl _)

/-! ## What becomes of one transaction -/

theorem parked_proceed (w : LockWork) (t : TransactionId) (e : Errand) :
    (w.proceed t e).table.parked = w.table.parked := by
  rcases e with p | p | pages | ⟨- | ⟨p, pages⟩⟩ <;> rfl

/-- A transaction is about to give all its pages back, or has nothing left. -/
structure Leaves (w : LockWork) (t : TransactionId) : Prop where
  parked : w.table.parked[t]? = none
  doing : (∃ pages, w.doing t = some (.depart pages)) ∨
    (∃ pages, w.doing t = some (.giveBack pages)) ∨
      w.doing t = none ∧ ∀ p, w.table.modeOf? p t = none

theorem Only.leaves (h : Only u w w') (hu : u ≠ t) (ht : w.Leaves t) : w'.Leaves t := by
  refine ⟨(h.parked t hu).trans ht.parked, ?_⟩
  simp only [h.doing t hu, h.modes t hu]
  exact ht.doing

/-- A transaction that gives all its pages back has none when it is through, whatever the others do
meanwhile. -/
theorem Leaves.step (ht : w.Leaves t) (hw : w.Mirrored) (h : Step (· ≠ t) w w') : w'.Leaves t := by
  cases h with
  | call c hmay => exact (w.only_call c).leaves hmay ht
  | @evaluate u r hparked =>
      refine (w.only_evaluate u r).leaves ?_ ht
      rintro rfl
      rw [ht.parked] at hparked
      cases hparked
  | @proceed u e he =>
      by_cases hu : u = t
      · subst hu
        refine ⟨by rw [parked_proceed, ht.parked], ?_⟩
        rcases ht.doing with ⟨pages, h⟩ | ⟨pages, h⟩ | ⟨h, -⟩
        · obtain rfl := Option.some_inj.1 (he.symm.trans h)
          exact Or.inr (Or.inl ⟨pages, Function.update_self ..⟩)
        · obtain rfl := Option.some_inj.1 (he.symm.trans h)
          cases pages with
          | nil =>
              obtain ⟨-, -, hholds⟩ := h ▸ hw.explained u
              refine Or.inr (Or.inr ⟨Function.update_self .., fun p => ?_⟩)
              by_contra hp
              exact List.not_mem_nil ((hholds p).1 hp)
          | cons p pages => exact Or.inr (Or.inl ⟨pages, Function.update_self ..⟩)
        · rw [h] at he
          cases he
      · exact (w.only_proceed u e).leaves hu ht

theorem Leaves.run (ht : w.Leaves t) (hw : w.Mirrored) (h : ReflTransGen (Step (· ≠ t)) w w') :
    w'.Leaves t := by
  induction h with
  | refl => exact ht
  | tail hrun hstep ih => exact ih.step (hw.run hrun) hstep

/-- A parked request is granted on the way, at a moment when nobody stands in its way. -/
def GrantedBetween (w w' : LockWork) (u : TransactionId) (r : LockRequest) : Prop :=
  ∃ w₁, ReflTransGen (Step (· ≠ u)) w w₁ ∧ w₁.table.parked[u]? = some r ∧
    w₁.table.blockers u r = [] ∧ ReflTransGen (Step (· ≠ u)) (w₁.evaluate u r) w'

/-- What can become of a transaction that is about nothing and begins no call. -/
inductive Fate (w : LockWork) (u : TransactionId) (w' : LockWork) : Prop where
  /-- It holds what it held. -/
  | same (hdoing : w'.doing u = none)
      (hparked : ∀ r, w'.table.parked[u]? = some r → w.table.parked[u]? = some r)
      (hmodes : ∀ p, w'.table.modeOf? p u = w.table.modeOf? p u)
  /-- Its parked request was granted. -/
  | granted (r : LockRequest) (hr : w.table.parked[u]? = some r)
      (hbetween : GrantedBetween w w' u r)
      (hdoing : w'.doing u = some (.list r.page) ∨ w'.doing u = none)
      (hparked : w'.table.parked[u]? = none)
      (hmodes : ∀ p, w'.table.modeOf? p u =
        if r.page = p then some (r.mode.joined (w.table.modeOf? p u)) else w.table.modeOf? p u)

variable {v : LockWork}

theorem GrantedBetween.tail (h : GrantedBetween w w' u r) (hstep : Step (· ≠ u) w' v) :
    GrantedBetween w v u r := by
  obtain ⟨w₁, hrun, hr, hb, hrest⟩ := h
  exact ⟨w₁, hrun, hr, hb, hrest.tail hstep⟩

/-- What the others do changes nothing. -/
theorem Fate.only (h : Fate w u w') (hstep : Step (· ≠ u) w' v) (ho : Only t w' v) (htu : t ≠ u) :
    Fate w u v := by
  cases h with
  | same hdoing hparked hmodes =>
      refine .same ((ho.doing u htu).trans hdoing) (fun r hr => hparked r ?_)
        fun p => (ho.modes u htu p).trans (hmodes p)
      rwa [← ho.parked u htu]
  | granted r hr hbetween hdoing hparked hmodes =>
      refine .granted r hr (hbetween.tail hstep) ?_ ((ho.parked u htu).trans hparked)
        fun p => (ho.modes u htu p).trans (hmodes p)
      rwa [ho.doing u htu]

/-- What the evaluation of its parked request does. -/
theorem Fate.evaluate (h : Fate w u w') (hrun : ReflTransGen (Step (· ≠ u)) w w')
    (hr : w'.table.parked[u]? = some r) : Fate w u (w'.evaluate u r) := by
  cases h with
  | granted _ _ _ _ hparked _ =>
      rw [hparked] at hr
      cases hr
  | same hdoing hparked hmodes =>
      rcases w'.table.consider_eq u r with ⟨hb, h⟩ | ⟨-, -, h⟩ | ⟨-, -, h⟩
      · refine .granted r (hparked r hr) ⟨w', hrun, hr, hb, .refl⟩ (Or.inl ?_) ?_ fun p => ?_
        · simp [LockWork.evaluate, h]
        · show (w'.table.consider u r).2.parked[u]? = none
          rw [h, LockTable.getElem?_parked_give, if_pos rfl]
        · show (w'.table.consider u r).2.modeOf? p u = _
          rw [h, LockTable.modeOf?_give hb, hmodes]
          simp
      · refine .same ?_ (fun q hq => ?_) fun p => ?_
        · simp [LockWork.evaluate, h, hdoing]
        · have hq : (w'.table.consider u r).2.parked[u]? = some q := hq
          rw [h] at hq
          exact absurd ((w'.table.getElem?_parked_unpark u u).symm.trans hq) (by simp)
        · show (w'.table.consider u r).2.modeOf? p u = _
          rw [LockTable.modeOf?_of_not_granted (by simp [h]), hmodes]
      · refine .same ?_ (fun q hq => ?_) fun p => ?_
        · simp [LockWork.evaluate, h, hdoing]
        · have hq : (w'.table.consider u r).2.parked[u]? = some q := hq
          rw [h, LockTable.getElem?_parked_park, if_pos rfl] at hq
          exact hq ▸ hparked r hr
        · show (w'.table.consider u r).2.modeOf? p u = _
          rw [LockTable.modeOf?_of_not_granted (by simp [h]), hmodes]

/-- What it does when it goes on after a grant. -/
theorem Fate.proceed (h : Fate w u w') (he : w'.doing u = some e) :
    Fate w u (w'.proceed u e) := by
  have hstep : Step (· ≠ u) w' (w'.proceed u e) := .proceed he
  cases h with
  | same hdoing _ _ =>
      rw [hdoing] at he
      cases he
  | granted r hr hbetween hdoing hparked hmodes =>
      rcases hdoing with hdoing | hdoing
      · obtain rfl := Option.some_inj.1 (he.symm.trans hdoing)
        exact .granted r hr (hbetween.tail hstep) (Or.inr (Function.update_self ..)) hparked hmodes
      · rw [hdoing] at he
        cases he

theorem fate_of_run (hu : w.doing u = none) (h : ReflTransGen (Step (· ≠ u)) w w') :
    Fate w u w' := by
  induction h with
  | refl => exact .same hu (fun _ h => h) fun _ => rfl
  | @tail w₁ _ hrun hstep ih =>
      cases hstep with
      | call c hmay hidle hparked =>
          exact ih.only (.call c hmay hidle hparked) (w₁.only_call c) hmay
      | @evaluate t r hr =>
          by_cases ht : t = u
          · subst ht
            exact ih.evaluate hrun hr
          · exact ih.only (.evaluate hr) (w₁.only_evaluate t r) ht
      | @proceed t e he =>
          by_cases ht : t = u
          · subst ht
            exact ih.proceed he
          · exact ih.only (.proceed he) (w₁.only_proceed t e) ht

/-! ## The main statement -/

/-- The list of the pages of each transaction is exact. -/
structure Exact (l : LockTable) : Prop where
  listed : ∀ t p, p ∈ l.heldBy t ↔ l.holds p t = true
  nonempty : ∀ t : TransactionId, l.held[t]? ≠ some ∅

/-- The answers that a transaction gets when it gives pages back. -/
structure Answers (w : LockWork) (t : TransactionId) : Prop where
  /-- It is told if it held the page. -/
  release : ∀ p, (w.table.perform (.release t p)).1 = .released true ↔ p ∈ w.table.heldBy t
  /-- It is told all pages that it held, in page order and each once. -/
  releaseAll : ∃ pages, (w.table.perform (.releaseAll t)).1 = .releasedAll pages ∧
    pages.Pairwise (fun p q => compare p q = .lt) ∧ ∀ p, p ∈ pages ↔ w.table.holds p t = true
  /-- The call comes to its end. -/
  through : ReflTransGen (Step (· ≠ t)) (w.call (.releaseAll t))
    { w with table := (w.table.perform (.releaseAll t)).2 }
  /-- Then it holds nothing, whatever the others did meanwhile. -/
  nothing : ∀ w', ReflTransGen (Step (· ≠ t)) (w.call (.releaseAll t)) w' → w'.doing t = none →
    ∀ p, w'.table.holds p t = false

/-- What becomes of the lock of a transaction on a page. -/
structure Keeps (w w' : LockWork) (u : TransactionId) (p : PageId) : Prop where
  /-- It is as strong as before. -/
  kept : ∀ mode, w.table.modeOf? p u = some mode →
    ∃ mode', w'.table.modeOf? p u = some mode' ∧ mode'.Covers mode
  /-- It is new or stronger only if the transaction had a parked request for it that was blocked,
  and was granted when nobody stood in its way. -/
  gained : w'.table.modeOf? p u ≠ w.table.modeOf? p u →
    ∃ r, w.table.parked[u]? = some r ∧ r.page = p ∧ w.table.blockers u r ≠ [] ∧
      GrantedBetween w w' u r

theorem Mirrored.exact (hw : w.Mirrored) (hs : w.Settled) : Exact w.table where
  listed t p := by
    rw [LockTable.holds, Holders.holds_eq_true_iff]
    exact (hw.idle (hs.doing t) p).symm
  nonempty := hw.nonempty

theorem Mirrored.answers (hw : w.Mirrored) (hs : w.Settled) (ht : w.table.isParked t = false) :
    w.Answers t := by
  have hexact := hw.exact hs
  have hcalled : (w.call (.releaseAll t)).Mirrored := hw.call (.releaseAll t) (hs.doing t) ht
  have hleaves : (w.call (.releaseAll t)).Leaves t :=
    ⟨LockTable.isParked_eq_false_iff.1 ht, Or.inl ⟨_, Function.update_self ..⟩⟩
  refine ⟨fun p => ?_, ⟨w.table.pagesHeldBy t, rfl, ExtTreeSet.ordered_toList, fun p => ?_⟩,
    run_perform _ (hs.doing t), fun w' hrun hdone p => ?_⟩
  · rw [hexact.listed]
    show LockReply.released (w.table.holds p t) = .released true ↔ _
    rw [LockReply.released.injEq]
  · rw [← hexact.listed]
    exact ExtTreeSet.mem_toList
  · rcases (hleaves.run hcalled hrun).doing with ⟨pages, h⟩ | ⟨pages, h⟩ | ⟨-, h⟩
    · rw [hdone] at h
      cases h
    · rw [hdone] at h
      cases h
    · rw [← Bool.not_eq_true, LockTable.holds, Holders.holds_eq_true_iff, not_not]
      exact h p

theorem Mirrored.keeps (hw : w.Mirrored) (hs : w.Settled)
    (h : ReflTransGen (Step (· ≠ u)) w w') (p : PageId) : Keeps w w' u p := by
  cases fate_of_run (hs.doing u) h with
  | same _ _ hmodes =>
      refine ⟨fun mode hmode => ?_, fun hne => absurd (hmodes p) hne⟩
      exact ⟨mode, (hmodes p).trans hmode, mode.covers_self⟩
  | granted r hr hbetween _ _ hmodes =>
      refine ⟨fun mode hmode => ?_, fun hne => ?_⟩
      · rw [hmodes, hmode]
        split
        · exact ⟨_, rfl, r.mode.covers_held mode⟩
        · exact ⟨mode, rfl, mode.covers_self⟩
      · by_cases hp : r.page = p
        · refine ⟨r, hr, hp, hw.blocked u r hr ?_, hbetween⟩
          rw [hs.woken]
          exact ExtTreeSet.not_mem_empty
        · rw [hmodes, if_neg hp] at hne
          exact absurd rfl hne

/-- The list of held pages mirrors the locks, also though it is brought up to date later than
these.  When all calls are through and settled, a page is listed for a transaction if and only if
the transaction holds it, and no empty set is stored.  A transaction that gives a page back is told
if it held it.  One that gives all pages back is told which it held, in page order, and when it is
through it holds nothing.  Whatever the others do, a transaction that begins no call keeps its
locks, and gets one only if a parked request of its own for it was blocked and is no more. -/
theorem index_mirrors_locks (h : ReflTransGen (Step fun _ => True) {} w) (hs : w.Settled) :
    Exact w.table ∧ (∀ t, w.table.isParked t = false → w.Answers t) ∧
      ∀ u w', ReflTransGen (Step (· ≠ u)) w w' → ∀ p, Keeps w w' u p := by
  have hw := mirrored_empty.run h
  exact ⟨hw.exact hs, fun t ht => hw.answers hs ht, fun u w' hrun p => hw.keeps hs hrun p⟩

namespace Line

/-- Transaction 1 waits for a page of 0, and 2 for one of 1. -/
def before : LockWork := { table := LockTable.Line.table }

/-- Transaction 0 has given its page back, and 1 has got it. -/
def after : LockWork :=
  { table := ((before.table.releaseAll ⟨0⟩).2.consider ⟨1⟩ ⟨LockTable.Line.page 0, .shared⟩).2 }

theorem run_after : ReflTransGen (Step (· ≠ ⟨1⟩)) before after := by
  have hparked : (before.table.releaseAll ⟨0⟩).2.parked[(⟨1⟩ : TransactionId)]? =
      some ⟨LockTable.Line.page 0, .shared⟩ := by decide +kernel
  have hcall : Step (· ≠ ⟨1⟩) before (before.call (.releaseAll ⟨0⟩)) :=
    .call (.releaseAll ⟨0⟩) (by decide) rfl (by decide +kernel)
  have hcalled := ReflTransGen.head hcall (run_perform (.releaseAll ⟨0⟩) rfl)
  exact (hcalled.tail (.evaluate hparked)).trans (run_evaluate rfl _)

end Line

theorem index_mirrors_locks_line :
    Line.before.Settled ∧ Line.before.Answers ⟨0⟩ ∧
      (Line.before.table.perform (.releaseAll ⟨0⟩)).1 = .releasedAll [LockTable.Line.page 0] ∧
      Keeps Line.before Line.after ⟨1⟩ (LockTable.Line.page 0) ∧
      Line.before.table.holds (LockTable.Line.page 0) ⟨1⟩ = false ∧
      Line.after.table.holds (LockTable.Line.page 0) ⟨1⟩ = true := by
  have hs : Line.before.Settled := ⟨fun _ => rfl, by decide +kernel⟩
  have hrun : ReflTransGen (Step fun _ => True) {} Line.before :=
    run_of_table (LockTable.reachable_performAll LockTable.Line.performAll_eq)
  obtain ⟨-, hanswers, hkeeps⟩ := index_mirrors_locks hrun hs
  exact ⟨hs, hanswers ⟨0⟩ (by decide +kernel), by decide +kernel,
    hkeeps ⟨1⟩ Line.after Line.run_after _, by decide +kernel, by decide +kernel⟩

end LockWork
end PagedStore

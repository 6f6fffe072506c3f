import PagedStore.Proofs.Waiting

/-!
# Leaving the lock table

A transaction that ends gives all its pages back.  Then the lock table has nothing of it
(`LockTable.FreeOf`).  It holds no page and is not listed, and in the wait graph no edge leads
from it or to it (`LockTable.Indexed.freeOf_releaseAll`).  This stays so whatever others do
(`LockTable.FreeOf.perform`), and to give everything back once more does nothing at all
(`LockTable.FreeOf.releaseAll_eq`).

The pages are given back one by one, and requests of others may be evaluated in between.  Such
a request may find a page that is not given back yet, and then an edge leads to the transaction
again.  But the page is given back later, and this wakes the request.  So when all pages are
given back only woken requests can still have an edge to the transaction, and it is gone when
they have been evaluated (`LockTable.Indexed.leaving_handOver`).
-/

namespace PagedStore

open Std (ExtTreeMap ExtTreeSet)
open Relation (ReflTransGen)

variable {t u : TransactionId}

/-! ## The wait graph -/

namespace WaitGraph

variable {g : WaitGraph}

/-- Whoever is in the graph waits for someone. -/
def Proper (g : WaitGraph) : Prop := ∀ s, s ∈ g.edges → ∃ u, g.Waits s u

theorem proper_empty : (∅ : WaitGraph).Proper := by
  intro s hs
  exact absurd hs ExtTreeMap.not_mem_empty

theorem Proper.clearWaits (hg : g.Proper) (t : TransactionId) : (g.clearWaits t).Proper := by
  intro s hs
  obtain ⟨hne, hs⟩ := ExtTreeMap.mem_erase.1 hs
  obtain ⟨u, hu⟩ := hg s hs
  refine ⟨u, waits_clearWaits.2 ⟨?_, hu⟩⟩
  rintro rfl
  exact hne (Std.LawfulEqCmp.compare_eq_iff_eq.2 rfl)

theorem Proper.setWaits (hg : g.Proper) (t : TransactionId) (holders : List TransactionId) :
    (g.setWaits t holders).Proper := by
  intro s hs
  simp only [waits_setWaits]
  unfold WaitGraph.setWaits at hs
  dsimp only at hs
  split at hs
  · obtain ⟨hne, u, hu⟩ : s ≠ t ∧ ∃ u, g.Waits s u := by
      obtain ⟨u, hu⟩ := hg.clearWaits t s hs
      obtain ⟨hne, -⟩ := waits_clearWaits.1 hu
      exact ⟨hne, u, (waits_clearWaits.1 hu).2⟩
    exact ⟨u, by rwa [if_neg hne]⟩
  · rename_i hne
    by_cases hst : s = t
    · obtain ⟨u, hu⟩ := List.exists_mem_of_ne_nil _ (mt List.isEmpty_iff.2 hne)
      exact ⟨u, by simpa [hst] using hu⟩
    · have hold : s ∈ g.edges := by simpa [Ne.symm hst] using hs
      obtain ⟨u, hu⟩ := hg s hold
      exact ⟨u, by rwa [if_neg hst]⟩

theorem proper_restrict (g : WaitGraph) (p : TransactionId → Bool) : (g.restrict p).Proper := by
  intro s hs
  obtain ⟨u, hu, hp⟩ := exists_waits_of_mem_restrict hs
  exact ⟨u, waits_restrict.2 ⟨hu, hp⟩⟩

/-- There is nothing to remove of a transaction without edges. -/
theorem Proper.removeTransaction_eq (hg : g.Proper) (hfrom : ∀ u, ¬ g.Waits t u)
    (hto : ∀ u, ¬ g.Waits u t) : g.removeTransaction t = g := by
  refine WaitGraph.ext (ExtTreeMap.ext_getElem? fun s => ?_)
  have hnone : g.edges[t]? = none := by
    refine ExtTreeMap.getElem?_eq_none fun ht => ?_
    obtain ⟨u, hu⟩ := hg t ht
    exact hfrom u hu
  have hclear : (g.clearWaits t).edges[s]? = g.edges[s]? := by
    rw [WaitGraph.clearWaits, ExtTreeMap.getElem?_erase]
    split
    · rename_i hst
      rw [← Std.LawfulEqCmp.compare_eq_iff_eq.1 hst, hnone]
    · rfl
  rw [removeTransaction, getElem?_restrict, hclear]
  cases h : g.edges[s]? with
  | none => rfl
  | some targets =>
      have hkeep : targets.filter (fun u => decide (u ≠ t)) = targets := by
        refine ExtTreeSet.ext_mem fun u => ?_
        have hne : u ∈ targets → u ≠ t := by
          rintro hu rfl
          exact hto s (waits_iff.2 ⟨targets, h, hu⟩)
        simpa [ExtTreeSet.mem_filter] using hne
      have hne : targets.isEmpty = false := by
        obtain ⟨u, hu⟩ := hg s (ExtTreeMap.mem_iff_isSome_getElem?.2 (by rw [h]; rfl))
        obtain ⟨targets', h', hu⟩ := waits_iff.1 hu
        rw [h] at h'
        cases h'
        rw [ExtTreeSet.isEmpty_eq_false_iff]
        rintro rfl
        exact ExtTreeSet.not_mem_empty hu
      rw [Option.bind_some, hkeep, hne]
      rfl

end WaitGraph

/-! ## The lock table -/

/-- A command asks for nothing in the name of a transaction. -/
def LockCommand.Spares (t : TransactionId) (c : LockCommand) : Prop := ∀ r, c ≠ .acquire t r

namespace LockTable

variable {l l' : LockTable} {c : LockCommand} {pages : List PageId}

/-- The pages of each transaction are known, and whoever is in the wait graph waits. -/
structure Regular (l : LockTable) : Prop where
  indexed : l.Indexed
  waits : l.waits.Proper

theorem regular_empty : (∅ : LockTable).Regular := ⟨indexed_empty, WaitGraph.proper_empty⟩

theorem Regular.consider (hl : l.Regular) (t : TransactionId) (r : LockRequest) :
    (l.consider t r).2.Regular := by
  refine ⟨hl.indexed.consider t r, ?_⟩
  rcases l.consider_eq t r with ⟨-, h⟩ | ⟨-, -, h⟩ | ⟨-, -, h⟩
  · rw [h, waits_give]
    exact hl.waits.clearWaits t
  · rw [h]
    exact hl.waits.clearWaits t
  · rw [h]
    exact hl.waits.setWaits t _

/-- Every command keeps a table regular. -/
theorem Regular.perform (hl : l.Regular) (c : LockCommand) : (l.perform c).2.Regular := by
  cases c with
  | acquire t r => exact hl.consider t r
  | release t p => exact ⟨hl.indexed.release p t, hl.waits⟩
  | releaseAll t =>
      refine ⟨hl.indexed.releaseAll t, ?_⟩
      show (l.releaseAll t).2.waits.Proper
      rw [waits_releaseAll]
      exact WaitGraph.proper_restrict _ _

/-- Commands of a kind are carried out one after another. -/
abbrev Served (P : LockCommand → Prop) : LockTable → LockTable → Prop :=
  ReflTransGen fun l l' => ∃ c, P c ∧ l' = (l.perform c).2

theorem Regular.served {P : LockCommand → Prop} (hl : l.Regular) (h : Served P l l') :
    l'.Regular := by
  induction h with
  | refl => exact hl
  | tail _ hlast ih =>
      obtain ⟨c, -, rfl⟩ := hlast
      exact ih.perform c

/-! ### What a command of others leaves alone -/

theorem held_releasePages (t : TransactionId) :
    ∀ (pages : List PageId) (l : LockTable), (l.releasePages t pages).held = l.held
  | [], _ => rfl
  | _ :: pages, _ => held_releasePages t pages _

theorem getElem?_held_setHeld (l : LockTable) (u : TransactionId)
    (pages : ExtTreeSet PageId compare) :
    (l.setHeld u pages).held[t]? =
      if u = t then if pages.isEmpty then none else some pages else l.held[t]? := by
  unfold setHeld
  by_cases hut : u = t
  · subst hut
    by_cases he : pages.isEmpty <;> simp [he]
  · by_cases he : pages.isEmpty <;> simp [he, hut, ExtTreeMap.getElem?_insert,
      ExtTreeMap.getElem?_erase]

/-- No page is locked for a transaction that asks for none. -/
theorem modeOf?_perform (hc : c.Spares t) {p : PageId} (h : (l.perform c).2.modeOf? p t ≠ none) :
    l.modeOf? p t ≠ none := by
  cases c with
  | acquire u r =>
      have hut : u ≠ t := fun h => hc r (h ▸ rfl)
      have h : (l.consider u r).2.modeOf? p t ≠ none := h
      by_cases hg : (l.consider u r).1 = .granted
      · rwa [modeOf?_of_granted hg, if_neg fun h => hut h.2] at h
      · rwa [modeOf?_of_not_granted hg] at h
  | release u q =>
      have h : (l.release q u).2.modeOf? p t ≠ none := h
      rw [modeOf?_release] at h
      split at h
      · exact absurd rfl h
      · exact h
  | releaseAll u =>
      have h : (releasePages _ u (l.pagesHeldBy u)).modeOf? p t ≠ none := h
      rw [modeOf?_releasePages] at h
      split at h
      · exact absurd rfl h
      · exact h

theorem getElem?_held_perform (hc : c.Spares t) (h : l.held[t]? = none) :
    (l.perform c).2.held[t]? = none := by
  cases c with
  | acquire u r =>
      have hut : u ≠ t := fun h => hc r (h ▸ rfl)
      show (l.consider u r).2.held[t]? = none
      rcases l.consider_eq u r with ⟨-, he⟩ | ⟨-, -, he⟩ | ⟨-, -, he⟩
      · rw [he]
        unfold give
        dsimp only
        split
        · rwa [getElem?_held_setHeld, if_neg hut]
        · show (setHeld _ u _).held[t]? = none
          rwa [getElem?_held_setHeld, if_neg hut]
      · rwa [he]
      · rwa [he]
  | release u q =>
      show (setHeld _ u ((l.heldBy u).erase q)).held[t]? = none
      rw [getElem?_held_setHeld]
      split
      · rename_i hut
        have hnone : l.heldBy u = ∅ := by
          rw [heldBy, ExtTreeMap.getD_eq_getD_getElem?, hut, h]
          rfl
        rw [hnone]
        rfl
      · exact h
  | releaseAll u =>
      show (releasePages _ u (l.pagesHeldBy u)).held[t]? = none
      rw [held_releasePages]
      show (l.held.erase u)[t]? = none
      rw [ExtTreeMap.getElem?_erase, h, ite_self]

/-- An edge that is there after a command was there before, or it leads from a transaction that has
asked for a page to one that holds the page. -/
theorem waits_perform (h : (l.perform c).2.waits.Waits u t) :
    (l.waits.Waits u t ∧ ∀ r, c ≠ .acquire u r) ∨
      ∃ r, c = .acquire u r ∧ (l.perform c).2.parked[u]? = some r ∧ l.modeOf? r.page t ≠ none := by
  cases c with
  | acquire v r =>
      have h : (l.consider v r).2.waits.Waits u t := h
      rcases l.consider_eq v r with ⟨-, he⟩ | ⟨-, -, he⟩ | ⟨-, -, he⟩
      · rw [he, waits_give, WaitGraph.waits_clearWaits] at h
        exact Or.inl ⟨h.2, fun _ hv => h.1 (by cases hv; rfl)⟩
      · rw [he] at h
        obtain ⟨hne, h⟩ := WaitGraph.waits_clearWaits.1 h
        exact Or.inl ⟨h, fun _ hv => hne (by cases hv; rfl)⟩
      · rw [he] at h
        have h := WaitGraph.waits_setWaits.1 h
        split at h
        · rename_i huv
          subst huv
          refine Or.inr ⟨r, rfl, ?_, (Holders.ne_and_holds_of_mem_conflicts h.1).2⟩
          show (l.consider u r).2.parked[u]? = some r
          rw [he, getElem?_parked_park, if_pos rfl]
        · rename_i huv
          exact Or.inl ⟨h, fun _ hv => huv (by cases hv; rfl)⟩
  | release v q => exact Or.inl ⟨h, fun _ hv => by cases hv⟩
  | releaseAll v =>
      have h : (l.releaseAll v).2.waits.Waits u t := h
      rw [waits_releaseAll, WaitGraph.waits_removeTransaction] at h
      exact Or.inl ⟨h.2.2, fun _ hv => by cases hv⟩

/-- A request is taken out only when it is evaluated. -/
theorem parked_perform {r : LockRequest} (hc : c.Spares u) (h : l.parked[u]? = some r) :
    (l.perform c).2.parked[u]? = some r := by
  cases c with
  | acquire v q =>
      have hne : v ≠ u := fun h => hc q (h ▸ rfl)
      show (l.consider v q).2.parked[u]? = some r
      rcases l.consider_eq v q with ⟨-, he⟩ | ⟨-, -, he⟩ | ⟨-, -, he⟩
      · rwa [he, getElem?_parked_give, if_neg hne]
      · rw [he]
        show (l.unpark v).parked[u]? = some r
        rwa [getElem?_parked_unpark, if_neg hne]
      · rwa [he, getElem?_parked_park, if_neg hne]
  | release v q => exact h
  | releaseAll v =>
      show (l.releaseAll v).2.parked[u]? = some r
      rwa [parked_releaseAll]

/-- A request that is woken stays so until it is evaluated. -/
theorem woken_perform (hc : c.Spares u) (h : u ∈ l.woken) : u ∈ (l.perform c).2.woken := by
  cases c with
  | acquire v q =>
      have hne : v ≠ u := fun h => hc q (h ▸ rfl)
      have hunpark : u ∈ (l.unpark v).woken := mem_woken_unpark.2 ⟨hne, h⟩
      show u ∈ (l.consider v q).2.woken
      rcases l.consider_eq v q with ⟨-, he⟩ | ⟨-, -, he⟩ | ⟨-, -, he⟩
      · rw [he]
        unfold give
        dsimp only
        split
        · exact hunpark
        · exact mem_woken_wake.2 (Or.inl hunpark)
      · rw [he]
        exact hunpark
      · rw [he]
        exact hunpark
  | release v q => exact mem_woken_wake.2 (Or.inl h)
  | releaseAll v => exact (mem_woken_releasePages v _ _).2 (Or.inl h)

/-! ### Nothing of a transaction -/

/-- The table has nothing of a transaction.  It holds no page, waits for nobody, and nobody waits
for it. -/
structure FreeOf (t : TransactionId) (l : LockTable) : Prop where
  mode : ∀ p, l.modeOf? p t = none
  held : l.held[t]? = none
  waits : ∀ u, ¬ l.waits.Waits t u
  awaited : ∀ u, ¬ l.waits.Waits u t

namespace FreeOf

/-- Nothing comes of what others do. -/
theorem perform (h : l.FreeOf t) (hc : c.Spares t) : (l.perform c).2.FreeOf t where
  mode p := by
    by_contra hne
    exact modeOf?_perform hc hne (h.mode p)
  held := getElem?_held_perform hc h.held
  waits u hu := by
    rcases waits_perform hu with ⟨hold, -⟩ | ⟨r, he, -, -⟩
    · exact h.waits u hold
    · exact hc r he
  awaited u hu := by
    rcases waits_perform hu with ⟨hold, -⟩ | ⟨r, -, -, hm⟩
    · exact h.awaited u hold
    · exact hm (h.mode r.page)

theorem served {P : LockCommand → Prop} (h : l.FreeOf t) (hs : Served P l l')
    (hP : ∀ c, P c → c.Spares t) : l'.FreeOf t := by
  induction hs with
  | refl => exact h
  | tail _ hlast ih =>
      obtain ⟨c, hc, rfl⟩ := hlast
      exact ih.perform (hP c hc)

/-- A transaction of which there is nothing has nothing to give back. -/
theorem releaseAll_eq (h : l.FreeOf t) (hl : l.Regular) : l.releaseAll t = ([], l) := by
  have hpages : l.pagesHeldBy t = [] := by
    rw [pagesHeldBy, heldBy, ExtTreeMap.getD_eq_getD_getElem?, h.held]
    rfl
  have hheld : l.held.erase t = l.held := by
    refine ExtTreeMap.ext_getElem? fun s => ?_
    rw [ExtTreeMap.getElem?_erase]
    split
    · rename_i hts
      rw [← Std.LawfulEqCmp.compare_eq_iff_eq.1 hts, h.held]
    · rfl
  rw [releaseAll, hpages, hl.waits.removeTransaction_eq h.waits h.awaited, hheld]
  rfl

end FreeOf

/-- A transaction that has given everything back has nothing left. -/
theorem Indexed.freeOf_releaseAll (hl : l.Indexed) (t : TransactionId) :
    (l.releaseAll t).2.FreeOf t where
  mode p := by rw [modeOf?_releaseAll hl, if_pos rfl]
  held := by
    show (releasePages _ t (l.pagesHeldBy t)).held[t]? = none
    rw [held_releasePages]
    exact ExtTreeMap.getElem?_erase_self
  waits u hu := by
    rw [waits_releaseAll, WaitGraph.waits_removeTransaction] at hu
    exact hu.1 rfl
  awaited u hu := by
    rw [waits_releaseAll, WaitGraph.waits_removeTransaction] at hu
    exact hu.2.1 rfl

/-! ### Page by page -/

/-- A transaction is leaving.  It holds none but some pages that are still to be given back, and
whoever waits for it is woken, or will be when one of these pages is given back. -/
structure Leaving (t : TransactionId) (pages : List PageId) (l : LockTable) : Prop where
  mode : ∀ p, l.modeOf? p t ≠ none → p ∈ pages
  held : l.held[t]? = none
  waits : ∀ u, ¬ l.waits.Waits t u
  awaited : ∀ u, l.waits.Waits u t → u ∈ l.woken ∨ ∃ r, l.parked[u]? = some r ∧ r.page ∈ pages

/-- The pages of a transaction are given back one by one, and in between others send commands, or
their requests are evaluated again. -/
inductive HandOver (t : TransactionId) : List PageId → LockTable → LockTable → Prop
  | done {l : LockTable} : HandOver t [] l l
  | giveBack {p : PageId} {pages : List PageId} {l l' : LockTable} :
      HandOver t pages (l.releasePages t [p]) l' → HandOver t (p :: pages) l l'
  | serve {c : LockCommand} {pages : List PageId} {l l' : LockTable} :
      c.Spares t → HandOver t pages (l.perform c).2 l' → HandOver t pages l l'

namespace Leaving

/-- The transaction is off the list, and its edges are gone. -/
theorem start (hl : l.Indexed) (t : TransactionId) :
    Leaving t (l.pagesHeldBy t)
      { l with held := l.held.erase t, waits := l.waits.removeTransaction t } where
  mode p hp := ExtTreeSet.mem_toList.2 ((hl t p).2 hp)
  held := ExtTreeMap.getElem?_erase_self
  waits _ hu := (WaitGraph.waits_removeTransaction.1 hu).1 rfl
  awaited _ hu := absurd rfl (WaitGraph.waits_removeTransaction.1 hu).2.1

theorem perform (h : l.Leaving t pages) (hc : c.Spares t) : (l.perform c).2.Leaving t pages where
  mode p hp := h.mode p (modeOf?_perform hc hp)
  held := getElem?_held_perform hc h.held
  waits u hu := by
    rcases waits_perform hu with ⟨hold, -⟩ | ⟨r, he, -, -⟩
    · exact h.waits u hold
    · exact hc r he
  awaited u hu := by
    rcases waits_perform hu with ⟨hold, hu⟩ | ⟨r, -, hr, hm⟩
    · rcases h.awaited u hold with hw | ⟨r, hr, hp⟩
      · exact Or.inl (woken_perform hu hw)
      · exact Or.inr ⟨r, parked_perform hu hr, hp⟩
    · exact Or.inr ⟨r, hr, h.mode r.page hm⟩

/-- The page that is given back wakes those that wait for it. -/
theorem giveBack {p : PageId} (h : l.Leaving t (p :: pages)) :
    (l.releasePages t [p]).Leaving t pages where
  mode q hq := by
    rw [modeOf?_releasePages] at hq
    split at hq
    · exact absurd rfl hq
    · rename_i hne
      rcases List.mem_cons.1 (h.mode q hq) with rfl | hmem
      · exact absurd ⟨List.mem_singleton_self q, rfl⟩ hne
      · exact hmem
  held := by
    rw [held_releasePages]
    exact h.held
  waits u hu := by
    rw [waits_releasePages] at hu
    exact h.waits u hu
  awaited u hu := by
    rw [waits_releasePages] at hu
    rw [parked_releasePages]
    rcases h.awaited u hu with hw | ⟨r, hr, hp⟩
    · exact Or.inl ((mem_woken_releasePages t _ _).2 (Or.inl hw))
    · rcases List.mem_cons.1 hp with hp | hp
      · refine Or.inl ((mem_woken_releasePages t _ _).2 (Or.inr ⟨p, List.mem_singleton_self p, ?_⟩))
        exact mem_parkedOn.2 ⟨r, hr, hp⟩
      · exact Or.inr ⟨r, hr, hp⟩

/-- When all pages are given back the transaction holds none, and whoever still waits for it is
woken. -/
theorem handOver (h : l.Leaving t pages) (ho : HandOver t pages l l') : l'.Leaving t [] := by
  induction ho with
  | done => exact h
  | giveBack _ ih => exact ih h.giveBack
  | serve hc _ ih => exact ih (h.perform hc)

/-- Once no request is woken, nothing is left of the transaction. -/
theorem freeOf (h : l.Leaving t []) (hw : l.woken = ∅) : l.FreeOf t where
  mode p := by
    by_contra hne
    exact absurd (h.mode p hne) List.not_mem_nil
  held := h.held
  waits := h.waits
  awaited u hu := by
    rcases h.awaited u hu with hm | ⟨r, -, hp⟩
    · rw [hw] at hm
      exact ExtTreeSet.not_mem_empty hm
    · exact absurd hp List.not_mem_nil

end Leaving

/-- To give all pages back at once is the case in which nobody comes in between. -/
theorem handOver_releasePages (t : TransactionId) :
    ∀ (pages : List PageId) (l : LockTable), HandOver t pages l (l.releasePages t pages)
  | [], _ => .done
  | _ :: pages, _ => .giveBack (handOver_releasePages t pages _)

/-- Whoever comes in between while a transaction gives its pages back, it holds no page in the end,
only woken requests can wait for it, and once these have been evaluated nothing is left of it. -/
theorem Indexed.leaving_handOver (hl : l.Indexed)
    (ho : HandOver t (l.pagesHeldBy t)
      { l with held := l.held.erase t, waits := l.waits.removeTransaction t } l') :
    l'.Leaving t [] ∧ (l'.woken = ∅ → l'.FreeOf t) :=
  have h := (Leaving.start hl t).handOver ho
  ⟨h, h.freeOf⟩

end LockTable

end PagedStore

import PagedStore.Locks.LockTable

/-!
# Modes in the lock table

What each operation of the lock table does to the mode in which a transaction
holds a page.  A request that is not granted changes no mode.  One that is
granted changes the mode of its own transaction on its own page only, and finds
no holder that conflicts with it (`LockTable.modeOf?_of_granted`,
`LockTable.eq_none_of_granted`).

The table also lists the pages that each transaction holds.  The list agrees
with the modes (`LockTable.Indexed`), and every operation keeps it so.  Hence
releasing all pages of a transaction leaves it without a mode on any page
(`LockTable.modeOf?_releaseAll`).
-/

namespace PagedStore

open Std (ExtTreeMap ExtTreeSet)

/-- The mode in which a page is held after a request of this mode is granted to a
transaction that held it so before. -/
def LockMode.joined : LockMode → Option LockMode → LockMode
  | .exclusive, _ => .exclusive
  | .shared, held => held.getD .shared

namespace Holders

theorem holds_eq_true_iff {h : Holders} {t : TransactionId} :
    h.holds t = true ↔ h.modeOf? t ≠ none := by
  rw [holds, Option.isSome_iff_ne_none]

theorem modeOf?_grant (h : Holders) (t u : TransactionId) (mode : LockMode) :
    (h.grant t mode).modeOf? u =
      if t = u then some (mode.joined (h.modeOf? t)) else h.modeOf? u := by
  cases mode with
  | exclusive => exact h.modeOf?_grant_exclusive u t
  | shared =>
      rw [modeOf?_grant_shared]
      by_cases htu : t = u
      · subst htu
        cases hm : h.modeOf? t <;> simp [LockMode.joined]
      · simp [htu]

theorem modeOf?_eq_none_of_conflicts {h : Holders} {t u : TransactionId}
    (hc : h.conflicts t .exclusive = []) (hne : u ≠ t) : h.modeOf? u = none := by
  by_cases hm : h.modeOf? u = none
  · exact hm
  · have : u ∈ h.conflicts t .exclusive := by
      rw [conflicts, List.mem_filter]
      exact ⟨mem_transactions.2 (holds_eq_true_iff.2 hm), by simpa using hne⟩
    rw [hc] at this
    cases this

theorem modeOf?_ne_exclusive_of_conflicts {h : Holders} {t u : TransactionId}
    (hc : h.conflicts t .shared = []) (ht : h.modeOf? t = none) :
    h.modeOf? u ≠ some .exclusive := by
  intro hu
  have hne : ¬ h.holds t = true := fun hh => holds_eq_true_iff.1 hh ht
  have : u ∈ h.conflicts t .shared := by
    rw [conflicts, if_neg hne, List.mem_filter]
    exact ⟨mem_transactions.2 (holds_eq_true_iff.2 (by rw [hu]; simp)), by simpa using hu⟩
  rw [hc] at this
  cases this

/-- A request is granted only if nobody stands in its way. -/
theorem attempt_eq_granted {ε : Type} {h h' : Holders} {t : TransactionId} {mode : LockMode}
    {observe : List TransactionId → Except ε Unit}
    (ha : h.attempt t mode observe = .granted h') :
    h.conflicts t mode = [] ∧ h' = h.grant t mode := by
  unfold attempt at ha
  dsimp only at ha
  split at ha
  · cases ha
  · split at ha
    · rename_i hb
      cases ha
      exact ⟨List.isEmpty_iff.1 hb, rfl⟩
    · cases ha

end Holders

namespace LockTable

/-- The list of the pages of each transaction agrees with the holders of each
page. -/
def Indexed (l : LockTable) : Prop :=
  ∀ (t : TransactionId) (p : PageId), p ∈ l.heldBy t ↔ l.modeOf? p t ≠ none

theorem indexed_empty : (∅ : LockTable).Indexed := by
  intro t p
  have h1 : (∅ : LockTable).heldBy t = ∅ := by
    show (∅ : ExtTreeMap TransactionId (ExtTreeSet PageId)).getD t ∅ = ∅
    simp
  have h2 : (∅ : LockTable).holdersAt p = ∅ := by
    show (∅ : ExtTreeMap PageId Holders).getD p ∅ = ∅
    simp
  simp [h1, modeOf?, h2]

theorem modeOf?_empty (p : PageId) (t : TransactionId) : (∅ : LockTable).modeOf? p t = none := by
  have h : (∅ : LockTable).holdersAt p = ∅ := by
    show (∅ : ExtTreeMap PageId Holders).getD p ∅ = ∅
    simp
  rw [modeOf?, h, Holders.modeOf?_empty]

/-! ## Requests -/

/-- What a request can come to, and what it leaves. -/
theorem consider_cases (l : LockTable) (t : TransactionId) (r : LockRequest) :
    ((l.consider t r).1 ≠ .granted ∧ (∀ p, (l.consider t r).2.holdersAt p = l.holdersAt p) ∧
        ∀ u, (l.consider t r).2.heldBy u = l.heldBy u) ∨
      ((l.consider t r).1 = .granted ∧ (l.holdersAt r.page).conflicts t r.mode = [] ∧
        (∀ p, (l.consider t r).2.holdersAt p =
          if r.page = p then (l.holdersAt r.page).grant t r.mode else l.holdersAt p) ∧
        ∀ u, (l.consider t r).2.heldBy u =
          if t = u then (l.heldBy t).insert r.page else l.heldBy u) := by
  rw [consider]
  dsimp only
  split
  · exact Or.inl ⟨by simp, fun _ => rfl, fun _ => rfl⟩
  · exact Or.inl ⟨by simp, fun _ => rfl, fun _ => rfl⟩
  · rename_i h' ha
    obtain ⟨hc, rfl⟩ := Holders.attempt_eq_granted ha
    refine Or.inr ⟨rfl, hc, fun p => ?_, fun u => ?_⟩
    · split
      · exact holdersAt_setHolders ..
      · exact holdersAt_setHolders ..
    · split
      · exact heldBy_setHeld ..
      · exact heldBy_setHeld ..

theorem modeOf?_of_not_granted {l : LockTable} {t : TransactionId} {r : LockRequest}
    (h : (l.consider t r).1 ≠ .granted) (p : PageId) (u : TransactionId) :
    (l.consider t r).2.modeOf? p u = l.modeOf? p u := by
  rcases l.consider_cases t r with ⟨-, hp, -⟩ | ⟨hg, -⟩
  · rw [modeOf?, hp, modeOf?]
  · exact absurd hg h

theorem modeOf?_of_granted {l : LockTable} {t : TransactionId} {r : LockRequest}
    (h : (l.consider t r).1 = .granted) (p : PageId) (u : TransactionId) :
    (l.consider t r).2.modeOf? p u =
      if r.page = p ∧ t = u then some (r.mode.joined (l.modeOf? p t)) else l.modeOf? p u := by
  rcases l.consider_cases t r with ⟨hn, -⟩ | ⟨-, -, hp, -⟩
  · exact absurd h hn
  · rw [modeOf?, hp]
    by_cases hpage : r.page = p
    · subst hpage
      rw [if_pos rfl, Holders.modeOf?_grant]
      simp [modeOf?]
    · simp [hpage, modeOf?]

/-- A page that is granted in exclusive mode is held so. -/
theorem modeOf?_self_of_granted {l : LockTable} {t : TransactionId} {r : LockRequest}
    (h : (l.consider t r).1 = .granted) (hr : r.mode = .exclusive) :
    (l.consider t r).2.modeOf? r.page t = some .exclusive := by
  rw [modeOf?_of_granted h, if_pos ⟨rfl, rfl⟩, hr]
  rfl

/-- A page that is held in exclusive mode is held so after more is granted. -/
theorem exclusive_of_granted {l : LockTable} {t : TransactionId} {r : LockRequest} {p : PageId}
    (h : (l.consider t r).1 = .granted) (hp : l.modeOf? p t = some .exclusive) :
    (l.consider t r).2.modeOf? p t = some .exclusive := by
  rw [modeOf?_of_granted h, hp]
  split
  · cases r.mode <;> rfl
  · rfl

/-- Nobody else holds a page that is granted in exclusive mode. -/
theorem eq_none_of_granted {l : LockTable} {t u : TransactionId} {p : PageId}
    (h : (l.consider t { page := p, mode := .exclusive }).1 = .granted) (hne : u ≠ t) :
    l.modeOf? p u = none := by
  rcases l.consider_cases t { page := p, mode := .exclusive } with ⟨hn, -⟩ | ⟨-, hc, -⟩
  · exact absurd h hn
  · exact Holders.modeOf?_eq_none_of_conflicts hc hne

/-- Nobody holds a page in exclusive mode that is granted to a new holder in shared mode. -/
theorem ne_exclusive_of_granted {l : LockTable} {t u : TransactionId} {p : PageId}
    (h : (l.consider t { page := p, mode := .shared }).1 = .granted) (ht : l.modeOf? p t = none) :
    l.modeOf? p u ≠ some .exclusive := by
  rcases l.consider_cases t { page := p, mode := .shared } with ⟨hn, -⟩ | ⟨-, hc, -⟩
  · exact absurd h hn
  · exact Holders.modeOf?_ne_exclusive_of_conflicts hc ht

theorem Indexed.consider {l : LockTable} (hl : l.Indexed) (t : TransactionId) (r : LockRequest) :
    (l.consider t r).2.Indexed := by
  intro u p
  rcases l.consider_cases t r with ⟨hn, -, hh⟩ | ⟨hg, -, -, hh⟩
  · rw [hh, modeOf?_of_not_granted hn]
    exact hl u p
  · rw [hh, modeOf?_of_granted hg]
    by_cases htu : t = u
    · subst htu
      rw [if_pos rfl, ExtTreeSet.mem_insert, Std.LawfulEqCmp.compare_eq_iff_eq, hl t p]
      by_cases hp : r.page = p
      · simp [hp]
      · simp [hp]
    · simp [htu, hl u p]

/-! ## Releases -/

theorem modeOf?_release (l : LockTable) (q : PageId) (t : TransactionId) (p : PageId)
    (u : TransactionId) :
    (l.release q t).2.modeOf? p u = if q = p ∧ t = u then none else l.modeOf? p u := by
  have h : (l.release q t).2.holdersAt p =
      (l.setHolders q ((l.holdersAt q).release t)).holdersAt p :=
    rfl
  rw [modeOf?, h, holdersAt_setHolders]
  by_cases hq : q = p
  · subst hq
    rw [if_pos rfl, Holders.modeOf?_release]
    simp [modeOf?]
  · simp [hq, modeOf?]

theorem Indexed.release {l : LockTable} (hl : l.Indexed) (q : PageId) (t : TransactionId) :
    (l.release q t).2.Indexed := by
  intro u p
  have h : (l.release q t).2.heldBy u =
      (l.setHeld t ((l.heldBy t).erase q)).heldBy u := rfl
  rw [h, heldBy_setHeld, modeOf?_release]
  by_cases htu : t = u
  · subst htu
    rw [if_pos rfl, ExtTreeSet.mem_erase, hl t p]
    by_cases hq : q = p
    · simp [hq]
    · simp [hq]
  · simp [htu, hl u p]

theorem modeOf?_releasePages (t : TransactionId) (p : PageId) (u : TransactionId) :
    ∀ (pages : List PageId) (l : LockTable),
      (l.releasePages t pages).modeOf? p u = if p ∈ pages ∧ t = u then none else l.modeOf? p u
  | [], l => by simp [releasePages]
  | q :: pages, l => by
      have h := modeOf?_releasePages t p u pages
        ((l.setHolders q ((l.holdersAt q).release t)).wake q)
      have hs : ((l.setHolders q ((l.holdersAt q).release t)).wake q).modeOf? p u =
          if q = p ∧ t = u then none else l.modeOf? p u := modeOf?_release l q t p u
      rw [hs] at h
      show (((l.setHolders q ((l.holdersAt q).release t)).wake q).releasePages t pages).modeOf?
        p u = _
      rw [h]
      by_cases htu : t = u
      · by_cases hq : q = p
        · simp [htu, hq]
        · have hq' : p ≠ q := fun he => hq he.symm
          simp [htu, hq, hq']
      · simp [htu]

theorem heldBy_releasePages (t u : TransactionId) :
    ∀ (pages : List PageId) (l : LockTable), (l.releasePages t pages).heldBy u = l.heldBy u
  | [], _ => rfl
  | _ :: pages, _ => heldBy_releasePages t u pages _

theorem parked_releasePages (t : TransactionId) :
    ∀ (pages : List PageId) (l : LockTable), (l.releasePages t pages).parked = l.parked
  | [], _ => rfl
  | _ :: pages, _ => parked_releasePages t pages _

/-- The parked requests stay parked when a transaction releases its pages. -/
theorem parked_releaseAll (l : LockTable) (t : TransactionId) :
    (l.releaseAll t).2.parked = l.parked := parked_releasePages t ..

/-- Nothing is left of a transaction that has released all its pages, and the modes of the
others are as before. -/
theorem modeOf?_releaseAll {l : LockTable} (hl : l.Indexed) (t : TransactionId) (p : PageId)
    (u : TransactionId) :
    (l.releaseAll t).2.modeOf? p u = if t = u then none else l.modeOf? p u := by
  show (releasePages _ t (l.pagesHeldBy t)).modeOf? p u = _
  rw [modeOf?_releasePages]
  by_cases htu : t = u
  · subst htu
    rw [if_pos rfl]
    split
    · rfl
    · rename_i hp
      have hm : p ∉ l.heldBy t := by
        intro hm
        exact hp ⟨ExtTreeSet.mem_toList.2 hm, rfl⟩
      by_cases hn : l.modeOf? p t = none
      · exact hn
      · exact absurd ((hl t p).2 hn) hm
  · simp only [htu, and_false, if_false]
    rfl

theorem Indexed.releaseAll {l : LockTable} (hl : l.Indexed) (t : TransactionId) :
    (l.releaseAll t).2.Indexed := by
  intro u p
  rw [modeOf?_releaseAll hl]
  show p ∈ (releasePages _ t (l.pagesHeldBy t)).heldBy u ↔ _
  rw [heldBy_releasePages]
  show p ∈ (l.held.erase t).getD u ∅ ↔ _
  rw [ExtTreeMap.getD_erase]
  by_cases htu : t = u
  · subst htu
    simp
  · simp only [Std.LawfulEqCmp.compare_eq_iff_eq, htu, if_false]
    exact hl u p

end LockTable

end PagedStore

import PagedStore.Proofs.LockModes

/-!
# Exclusive locks

A lock can be used in two ways: through the lock table, which looks for circles of
waiting, and directly, under the eye of any observer (`LockAction`).  This module mixes
the two on any number of pages.  A request that has to wait is evaluated again later, at
any time and as often as one likes, and a direct one under whatever its observer says
then.

Whatever is done, an exclusive holder of a page is its only holder
(`LockTable.Alone`).  A request that is granted gives at least the mode it is for, one that
is refused changes no holder, and an exclusive lock is lost only when its transaction gives
it back (`LockTable.Respected`).  `LockTable.alone_and_respected` says both of every table
that actions lead to.
-/

namespace PagedStore

open Std (ExtTreeMap ExtTreeSet)

/-! ## Actions -/

/-- Whoever holds a page in the first mode may do what the second one is for. -/
def LockMode.Covers (held wanted : LockMode) : Prop := held = .exclusive ∨ wanted = .shared

theorem LockMode.covers_joined (mode : LockMode) (held : Option LockMode) :
    (mode.joined held).Covers mode := by
  cases mode with
  | shared => exact Or.inr rfl
  | exclusive => exact Or.inl rfl

/-- One thing that is done with locks.  An observer that refuses a request gives a reason. -/
inductive LockAction (ε : Type) where
  /-- A request to the lock table is evaluated, be it new or parked. -/
  | request (t : TransactionId) (r : LockRequest)
  /-- A request to the lock of its page is evaluated, be it new or waiting. -/
  | observed (t : TransactionId) (r : LockRequest) (observe : List TransactionId → Except ε Unit)
  /-- A page is given back to the lock table. -/
  | release (t : TransactionId) (page : PageId)
  /-- All pages of a transaction are given back to the lock table. -/
  | releaseAll (t : TransactionId)
  /-- The lock of a page is given back, whatever the mode. -/
  | drop (t : TransactionId) (page : PageId)
  /-- The lock of a page is given back if it is held in exactly this mode. -/
  | dropMode (t : TransactionId) (page : PageId) (mode : LockMode)

/-- The answer to an action. -/
inductive LockAnswer where
  /-- The request was evaluated. -/
  | verdict (verdict : Verdict)
  /-- The page was given back, if it was held. -/
  | gave (held : Bool)
  /-- These pages were given back. -/
  | gaveAll (pages : List PageId)
  /-- The lock was held in this mode, if it was held. -/
  | dropped (mode : Option LockMode)
deriving DecidableEq

namespace LockAction

variable {ε : Type}

/-- The request that is evaluated, and its transaction. -/
def wants? : LockAction ε → Option (TransactionId × LockRequest)
  | request t r | observed t r _ => some (t, r)
  | _ => none

/-- The transaction gives back its exclusive lock of the page. -/
def GivesBack (t : TransactionId) (p : PageId) : LockAction ε → Prop
  | release u q | drop u q => u = t ∧ q = p
  | dropMode u q mode => u = t ∧ q = p ∧ mode = .exclusive
  | releaseAll u => u = t
  | request .. | observed .. => False

end LockAction

namespace LockTable

variable {ε : Type} {l : LockTable} {action : LockAction ε}

/-- Does one thing with the locks. -/
def act (l : LockTable) : LockAction ε → LockAnswer × LockTable
  | .request t r => (l.consider t r).map .verdict fun l => l
  | .observed t r observe =>
      match (l.holdersAt r.page).attempt t r.mode observe with
      | .refused _ => (.verdict .refused, l)
      | .waits => (.verdict .waits, l)
      | .granted h => (.verdict .granted, l.setHolders r.page h)
  | .release t page => (l.release page t).map .gave fun l => l
  | .releaseAll t => (l.releaseAll t).map .gaveAll fun l => l
  | .drop t page =>
      (.dropped (l.modeOf? page t), l.setHolders page ((l.holdersAt page).release t))
  | .dropMode t page mode =>
      ((l.holdersAt page).releaseMode t mode).map .gave fun h => l.setHolders page h

/-- Does many things, one after another. -/
def actAll (l : LockTable) (actions : List (LockAction ε)) : LockTable :=
  actions.foldl (fun l action => (l.act action).2) l

/-! ## What an action does to the holders -/

theorem modeOf?_setHolders (l : LockTable) (p q : PageId) (h : Holders) (u : TransactionId) :
    (l.setHolders p h).modeOf? q u = if p = q then h.modeOf? u else l.modeOf? q u := by
  rw [modeOf?, holdersAt_setHolders]
  split <;> rfl

theorem modeOf?_setHolders_release (l : LockTable) (p q : PageId) (t u : TransactionId) :
    (l.setHolders p ((l.holdersAt p).release t)).modeOf? q u =
      if p = q ∧ t = u then none else l.modeOf? q u :=
  modeOf?_release l p t q u

theorem modeOf?_dropMode (l : LockTable) (t : TransactionId) (p : PageId) (mode : LockMode)
    (q : PageId) (u : TransactionId) :
    (l.act (.dropMode t p mode : LockAction ε)).2.modeOf? q u =
      if p = q ∧ t = u ∧ l.modeOf? p t = some mode then none else l.modeOf? q u := by
  show (l.setHolders p ((l.holdersAt p).releaseMode t mode).2).modeOf? q u = _
  rw [show l.modeOf? p t = (l.holdersAt p).modeOf? t from rfl]
  by_cases hm : (l.holdersAt p).modeOf? t = some mode
  · rw [Holders.releaseMode, if_pos hm, modeOf?_setHolders_release]
    simp only [hm, and_true]
  · rw [Holders.releaseMode, if_neg hm, modeOf?_setHolders]
    simp only [hm, and_false, if_false]
    split
    · rename_i hp
      rw [← hp]
      rfl
    · rfl

/-- The request was granted, nobody stood in its way, and its transaction holds the page in the
joined mode. -/
structure Grants (l : LockTable) (t : TransactionId) (r : LockRequest) (l' : LockTable) : Prop where
  free : (l.holdersAt r.page).conflicts t r.mode = []
  modes : ∀ p u, l'.modeOf? p u =
    if r.page = p ∧ t = u then some (r.mode.joined (l.modeOf? p t)) else l.modeOf? p u

/-- A request is granted, or changes no holder. -/
theorem grants_or_same {t : TransactionId} {r : LockRequest} (h : action.wants? = some (t, r)) :
    ((l.act action).1 = .verdict .granted ∧ l.Grants t r (l.act action).2) ∨
      ((l.act action).1 ≠ .verdict .granted ∧
        ∀ p, (l.act action).2.holdersAt p = l.holdersAt p) := by
  cases action with
  | request =>
      cases h
      rcases l.consider_cases t r with ⟨hn, hp, -⟩ | ⟨hg, hc, -⟩
      · refine Or.inr ⟨fun hv => hn (LockAnswer.verdict.inj hv), hp⟩
      · exact Or.inl ⟨congrArg LockAnswer.verdict hg, hc, modeOf?_of_granted hg⟩
  | observed _ _ observe =>
      cases h
      rw [act]
      cases ha : (l.holdersAt r.page).attempt t r.mode observe with
      | refused reason => exact Or.inr ⟨by simp, fun _ => rfl⟩
      | waits => exact Or.inr ⟨by simp, fun _ => rfl⟩
      | granted h' =>
          obtain ⟨hc, rfl⟩ := Holders.attempt_eq_granted ha
          refine Or.inl ⟨rfl, hc, fun p u => ?_⟩
          rw [modeOf?_setHolders]
          by_cases hp : r.page = p
          · subst hp
            rw [if_pos rfl, Holders.modeOf?_grant]
            simp [modeOf?]
          · simp [hp]
  | release | releaseAll | drop | dropMode => cases h

/-- Whatever gives something back only takes modes away. -/
theorem same_or_none (h : action.wants? = none) (p : PageId) (u : TransactionId) :
    (l.act action).2.modeOf? p u = l.modeOf? p u ∨
      (l.act action).2.modeOf? p u = none ∧
        (l.modeOf? p u = some .exclusive → action.GivesBack u p) := by
  cases action with
  | request | observed => cases h
  | release t q =>
      show (l.release q t).2.modeOf? p u = _ ∨ (l.release q t).2.modeOf? p u = none ∧ _
      rw [modeOf?_release]
      split
      · rename_i hc
        exact Or.inr ⟨rfl, fun _ => ⟨hc.2, hc.1⟩⟩
      · exact Or.inl rfl
  | releaseAll t =>
      have hmode : (l.releaseAll t).2.modeOf? p u =
          if p ∈ l.pagesHeldBy t ∧ t = u then none else l.modeOf? p u :=
        modeOf?_releasePages t p u (l.pagesHeldBy t) _
      show (l.releaseAll t).2.modeOf? p u = _ ∨ (l.releaseAll t).2.modeOf? p u = none ∧ _
      rw [hmode]
      split
      · rename_i hc
        exact Or.inr ⟨rfl, fun _ => hc.2⟩
      · exact Or.inl rfl
  | drop t q =>
      simp only [act, modeOf?_setHolders_release]
      split
      · rename_i hc
        exact Or.inr ⟨rfl, fun _ => ⟨hc.2, hc.1⟩⟩
      · exact Or.inl rfl
  | dropMode t q mode =>
      rw [modeOf?_dropMode]
      split
      · rename_i hc
        obtain ⟨rfl, rfl, hm⟩ := hc
        refine Or.inr ⟨rfl, fun hx => ⟨rfl, rfl, ?_⟩⟩
        rw [hm] at hx
        exact Option.some.inj hx
      · exact Or.inl rfl

/-! ## An exclusive holder is alone -/

/-- An exclusive holder of a page is its only holder. -/
def Alone (l : LockTable) : Prop :=
  ∀ ⦃p t u⦄, l.modeOf? p t = some .exclusive → u ≠ t → l.modeOf? p u = none

theorem alone_empty : (∅ : LockTable).Alone := by
  intro p t u _ _
  exact modeOf?_empty p u

/-- A grant that finds nobody in its way leaves an exclusive holder alone. -/
theorem Alone.grants {l' : LockTable} {t : TransactionId} {r : LockRequest} (h : l.Alone)
    (hg : l.Grants t r l') : l'.Alone := by
  intro p a b ha hb
  rw [hg.modes] at ha ⊢
  obtain ⟨page, mode⟩ := r
  by_cases hp : page = p
  · subst hp
    simp only [true_and] at ha ⊢
    split at ha
    · -- The new holder is the exclusive one, so nobody else holds the page.
      rename_i hta
      subst hta
      rw [if_neg (Ne.symm hb)]
      cases mode with
      | exclusive => exact Holders.modeOf?_eq_none_of_conflicts hg.free hb
      | shared =>
          cases hm : l.modeOf? page t with
          | none =>
              rw [hm] at ha
              cases ha
          | some m =>
              rw [hm] at ha
              exact h (hm.trans ha) hb
    · rename_i hta
      split
      · -- Beside an exclusive holder nobody is granted the page.
        rename_i htb
        subst htb
        cases mode with
        | exclusive =>
            have hnone := Holders.modeOf?_eq_none_of_conflicts hg.free (Ne.symm hta)
            rw [show l.modeOf? page a = none from hnone] at ha
            cases ha
        | shared =>
            exact absurd ha (Holders.modeOf?_ne_exclusive_of_conflicts hg.free (h ha hb))
      · exact h ha hb
  · simp only [hp, false_and, if_false] at ha ⊢
    exact h ha hb

/-- Whatever is done with the locks, an exclusive holder stays alone. -/
theorem Alone.act (h : l.Alone) (action : LockAction ε) : (l.act action).2.Alone := by
  cases hw : action.wants? with
  | some wanted =>
      rcases grants_or_same (l := l) hw with ⟨-, hg⟩ | ⟨-, hs⟩
      · exact h.grants hg
      · intro p t u ht hu
        rw [modeOf?, hs] at ht ⊢
        exact h ht hu
  | none =>
      intro p t u ht hu
      have hold : l.modeOf? p t = some .exclusive := by
        rcases same_or_none (l := l) hw p t with hs | ⟨hn, -⟩
        · rw [← hs, ht]
        · rw [hn] at ht
          cases ht
      rcases same_or_none (l := l) hw p u with hs | ⟨hn, -⟩
      · rw [hs, h hold hu]
      · exact hn

theorem Alone.actAll (h : l.Alone) (actions : List (LockAction ε)) : (l.actAll actions).Alone := by
  induction actions generalizing l with
  | nil => exact h
  | cons action actions ih => exact ih (h.act action)

/-! ## What is asked of every action -/

/-- An action respects the locks. -/
structure Respected (l : LockTable) (action : LockAction ε) : Prop where
  /-- A transaction whose request is granted holds the page in the mode of the request, or in a
  stronger one. -/
  granted : ∀ {t r}, action.wants? = some (t, r) → (l.act action).1 = .verdict .granted →
    ∃ held, (l.act action).2.modeOf? r.page t = some held ∧ held.Covers r.mode
  /-- An exclusive lock stays until its transaction gives it back. -/
  exclusive : ∀ {p t}, l.modeOf? p t = some .exclusive →
    (l.act action).2.modeOf? p t = some .exclusive ∨ action.GivesBack t p
  /-- A lock that is given back in a mode goes if it is held in this mode.  Nothing else goes. -/
  dropMode : ∀ {t p mode}, action = .dropMode t p mode →
    (l.act action).1 = .gave (l.modeOf? p t = some mode) ∧
      ∀ q u, (l.act action).2.modeOf? q u =
        if p = q ∧ t = u ∧ l.modeOf? p t = some mode then none else l.modeOf? q u
  /-- A request that is refused changes no holder. -/
  refused : (l.act action).1 = .verdict .refused →
    ∀ p, (l.act action).2.holdersAt p = l.holdersAt p
  /-- Nothing is recorded of a request that its observer refuses. -/
  unrecorded : ∀ {t r observe reason}, action = .observed t r observe →
    observe ((l.holdersAt r.page).conflicts t r.mode) = .error reason →
      l.act action = (.verdict .refused, l)

theorem respected (l : LockTable) (action : LockAction ε) : l.Respected action where
  granted := by
    intro t r hw hv
    rcases grants_or_same (l := l) hw with ⟨-, hg⟩ | ⟨hn, -⟩
    · exact ⟨_, (hg.modes r.page t).trans (if_pos ⟨rfl, rfl⟩), LockMode.covers_joined ..⟩
    · exact absurd hv hn
  exclusive := by
    intro p t ht
    cases hw : action.wants? with
    | some wanted =>
        obtain ⟨u, r⟩ := wanted
        left
        rcases grants_or_same (l := l) hw with ⟨-, hg⟩ | ⟨-, hs⟩
        · rw [hg.modes]
          split
          · rename_i hc
            obtain ⟨-, rfl⟩ := hc
            rw [ht]
            cases r.mode <;> rfl
          · exact ht
        · rw [modeOf?, hs]
          exact ht
    | none =>
        rcases same_or_none (l := l) hw p t with hs | ⟨-, hg⟩
        · exact Or.inl (hs.trans ht)
        · exact Or.inr (hg ht)
  dropMode := by
    rintro t p mode rfl
    refine ⟨?_, fun q u => modeOf?_dropMode l t p mode q u⟩
    show LockAnswer.gave ((l.holdersAt p).releaseMode t mode).1 = _
    rw [Holders.releaseMode]
    split
    · rename_i hm
      rw [decide_eq_true (p := l.modeOf? p t = some mode) hm]
    · rename_i hm
      rw [decide_eq_false (p := l.modeOf? p t = some mode) hm]
  refused := by
    intro hv
    cases hw : action.wants? with
    | some wanted =>
        rcases grants_or_same (l := l) hw with ⟨hg, -⟩ | ⟨-, hs⟩
        · rw [hg] at hv
          cases hv
        · exact hs
    | none => cases action <;> cases hw <;> cases hv
  unrecorded := by
    rintro t r observe reason rfl ho
    rw [act, Holders.attempt, ho]

/-- Whatever has been done with the locks of any number of pages, an exclusive holder of a page is
its only holder, and whatever is done next respects the locks. -/
theorem alone_and_respected (actions : List (LockAction ε)) :
    ((∅ : LockTable).actAll actions).Alone ∧
      ∀ action : LockAction ε, ((∅ : LockTable).actAll actions).Respected action :=
  ⟨alone_empty.actAll actions, respected _⟩

end LockTable

end PagedStore

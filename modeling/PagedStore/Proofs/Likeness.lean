import PagedStore.Proofs.AlikeSteps
import PagedStore.Proofs.OwnTables

/-!
# Likenesses of stores

A relation of stores is a *likeness* for a transaction and a scope (`Store.Likeness`) if two
stores that it relates cannot be told apart by the transaction within the scope.  The pages look
the same, the same locks are granted, and what is done on both leaves stores that are related.

To be alike is a likeness for every transaction, and for everything (`Store.likeness_alike`).
Other likenesses leave out what is outside a scope.
-/

namespace PagedStore.Store

variable {s s' : Store} {l l' : Ledger} {id : PageId} {t : TransactionId} {S : Scope}
  {R : Store → Store → Prop}

/-- Stores that are related are the same for a transaction within a scope. -/
structure Likeness (t : TransactionId) (S : Scope) (R : Store → Store → Prop) : Prop where
  catalog : ∀ {s s'}, R s s' → s'.catalog = s.catalog
  view : ∀ {s s' p}, R s s' → S.table p.table → (s.view p).Alike (s'.view p)
  pageCount : ∀ {s s' f}, R s s' → S.file f → s'.disk.pageCount f = s.disk.pageCount f
  /-- A file of the scope is that of a table of the scope. -/
  table : ∀ {f}, S.file f → S.table f.table
  /-- A table of the scope has its file there. -/
  file : ∀ {s s' u f}, R s s' → S.table u → s.catalog.file u = .ok f → S.file f
  silent : ∀ {s s' s₁ s₁' l l'}, R s s' → s.Follows l → s'.Follows l' → Silent s s₁ →
    Silent s' s₁' → R s₁ s₁'
  /-- The same verdict is given. -/
  consider : ∀ {s s' r}, R s s' → S.table r.page.table →
    (s'.locks.consider t r).1 = (s.locks.consider t r).1 ∧
      R { s with locks := (s.locks.consider t r).2 } { s' with locks := (s'.locks.consider t r).2 }
  take : ∀ {s s' l l' id mode page page'}, R s s' → s.Follows l → s'.Follows l' →
    S.table id.table → (mode = .exclusive → s.locks.modeOf? id t = some .exclusive) →
      s.cache.page? id = some page → s'.cache.page? id = some page' →
        R (s.take t id mode) (s'.take t id mode)
  releasePage : ∀ {s s' id}, R s s' → S.table id.table →
    R (s.releasePage t id).2 (s'.releasePage t id).2
  change : ∀ {s s' l l' id page page' change after after'}, R s s' → s.Follows l →
    s'.Follows l' → S.table id.table → s.cache.page? id = some page →
      s'.cache.page? id = some page' → page.owner = some t → page'.owner = some t →
        Change.Made change page after → Change.Made change page' after' →
          R (s.onCache fun c => c.update after.id fun _ => after)
            (s'.onCache fun c => c.update after'.id fun _ => after')
  append : ∀ {s s' l l' f}, R s s' → s.Follows l → s'.Follows l' → S.file f →
    (∀ {u g}, s.catalog.file u = .ok g → g.name = f.name → g = f) →
      R { s with disk := (s.disk.append f).2 } { s' with disk := (s'.disk.append f).2 }
  commit : ∀ {s s' l l'}, R s s' → s.Follows l → s'.Follows l' →
    (s'.commit t).1 = (s.commit t).1 ∧ R (s.commit t).2 (s'.commit t).2
  abort : ∀ {s s' l l'}, R s s' → s.Follows l → s'.Follows l' →
    (s'.abort t).1 = (s.abort t).1 ∧ R (s.abort t).2 (s'.abort t).2

/-- Alike stores are the same for everyone. -/
theorem likeness_alike (t : TransactionId) : Likeness t .all Alike where
  catalog h := h.catalog
  view h _ := h.view _
  pageCount h _ := h.outside.pageCount_eq _
  table _ := trivial
  file _ _ _ := trivial
  silent h hs hs' hq hq' := hq.both hq' h hs hs'
  consider h _ := ⟨by rw [h.locks], h.consider t _⟩
  take h hs hs' _ := h.take hs hs'
  releasePage h _ := h.releasePage t _
  change h hs hs' _ := h.change hs hs'
  append h hs hs' _ := h.append hs hs'
  commit h hs hs' := h.commit hs hs' t
  abort h hs hs' := h.abort hs hs' t

namespace Likeness

variable {mode : LockMode} {f : TableFile}

/-- A transaction holds the same pages on both. -/
theorem holds (hR : Likeness t S R) (h : R s s') (hp : S.table id.table) :
    s'.locks.holds id t = s.locks.holds id t := by
  have hmode := congrArg (fun mode => (mode t).isSome) (hR.view h hp).mode
  exact hmode

/-- Both stores fetch a page, or neither does.  They fail for lack of room on both or on
none. -/
theorem fetch (hR : Likeness t S R) (h : R s s') (hs : s.Follows l) (hs' : s'.Follows l')
    (hf : s.catalog.file id.table = .ok f) (hp : S.table id.table)
    (ho : (s.view id).OpenTo t) (mode : LockMode)
    (hroom : (s.fetch t f id mode).1 = .error .noEvictablePage ↔
      (s'.fetch t f id mode).1 = .error .noEvictablePage) :
    (∃ e, (s.fetch t f id mode).1 = .error e ∧ (s'.fetch t f id mode).1 = .error e ∧
        R (s.fetch t f id mode).2 (s'.fetch t f id mode).2) ∨
      ∃ s₁ s₁' page page' frame frame', R s₁ s₁' ∧ Silent s s₁ ∧ Silent s' s₁' ∧
        s₁.cache.page? id = some page ∧ s₁'.cache.page? id = some page' ∧
          frame.page = taken t mode page ∧ frame'.page = taken t mode page' ∧
            s.fetch t f id mode = (.ok frame, s₁.take t id mode) ∧
              s'.fetch t f id mode = (.ok frame', s₁'.take t id mode) := by
  have hf' : s'.catalog.file id.table = .ok f := hR.catalog h ▸ hf
  have ho' : (s'.view id).OpenTo t := (hR.view h hp).openTo.2 ho
  have herror := (hR.view h hp).fetchError?_eq (hs.view id) (hs'.view id) ho
  rcases hs.fetch_result hf ho mode with
    ⟨e, he, hr, hq⟩ | ⟨s₁, page, frame, he, hq, hc, hpage, hr⟩ <;>
  rcases hs'.fetch_result hf' ho' mode with
    ⟨e', he', hr', hq'⟩ | ⟨s₁', page', frame', he', hq', hc', hpage', hr'⟩
  · refine Or.inl ⟨e, hr, ?_, hR.silent h hs hs' hq hq'⟩
    rw [hr, hr'] at hroom
    rw [hr']
    rcases he with rfl | he
    · exact hroom.1 rfl
    · rcases he' with rfl | he'
      · exact (hroom.2 rfl).symm
      · rw [herror, he] at he'
        cases he'
        rfl
  · exfalso
    rcases he with rfl | he
    · rw [hr, hr'] at hroom
      cases hroom.1 rfl
    · rw [herror, he] at he'
      cases he'
  · exfalso
    rcases he' with rfl | he'
    · rw [hr, hr'] at hroom
      cases hroom.2 rfl
    · rw [herror, he] at he'
      cases he'
  · exact Or.inr ⟨s₁, s₁', page, page', frame, frame',
      hR.silent h hs hs' hq hq', hq, hq', hc, hc', hpage, hpage', hr, hr'⟩

end Likeness

end PagedStore.Store

import PagedStore.Proofs.SerialReplay

/-!
# Abort undoes

In orderly traffic an abort never fails, at whatever time it comes.  Every page that
the transaction has fetched for writing gets the image back that it had in its file when
the transaction was granted its exclusive lock, no matter how often the page was written
early, dropped and read again since.  Nothing else is changed, and nothing is left of the
transaction (`Traffic.abort_undoes`).
-/

namespace PagedStore

open PageView (Agrees)

namespace PageView

variable {l : Ledger} {t : TransactionId} {v v' : PageView}

/-- What a transaction did to a page is undone. -/
structure Undone (l : Ledger) (t : TransactionId) (v v' : PageView) : Prop where
  /-- A page that was fetched for writing has the image that was found. -/
  restored : l.wrote t v.id = true → v'.image = (l.found t v.id).or v.blank
  /-- Another page has the image that it had. -/
  image : l.wrote t v.id = false → v'.image = v.image
  /-- A copy stays as it is, unless the page has changes of the transaction. -/
  copy : ¬ v.Owns t → v'.copy = v.copy
  /-- So a copy with changes of another transaction stays. -/
  owned : ∀ u, u ≠ t → v.owner? = some u → v'.copy = v.copy
  /-- The images kept for others stay. -/
  kept : ∀ u, u ≠ t → v'.kept u = v.kept u
  /-- The locks of others stay. -/
  mode : ∀ u, u ≠ t → v'.mode u = v.mode u
  /-- A copy with changes of the transaction, early written ones included, is gone. -/
  uncached : v.Owns t → v'.copy = none
  /-- No copy is left that belongs to the transaction. -/
  unowned : v'.owner? ≠ some t
  /-- No image is kept for it. -/
  unkept : v'.kept t = none
  /-- It holds no lock. -/
  unlocked : v'.mode t = none

/-- The page is as an abort leaves it, if it agrees with the ledger. -/
theorem Agrees.undone_aborted (h : Agrees l v) (hf : l.failed t = false) :
    Undone l t v (v.aborted t) := by
  have hother : ∀ u, u ≠ t → (v.aborted t).kept u = v.kept u ∧ (v.aborted t).mode u = v.mode u := by
    intro u hu
    simp [aborted, cleared, Ne.symm hu]
  have hcopy : (v.aborted t).copy = if v.Owns t then none else v.copy := rfl
  refine {
    restored := fun hw => ?_
    image := fun hw => ?_
    copy := fun ho => by rw [hcopy, if_neg ho]
    owned := fun u hu hou => by rw [hcopy, if_neg fun ho => hu (h.eq_of_owns ho (Or.inl hou))]
    kept := fun u hu => (hother u hu).1
    mode := fun u hu => (hother u hu).2
    uncached := fun ho => by rw [hcopy, if_pos ho]
    unowned := fun ho => ?_
    unkept := by simp [aborted, cleared]
    unlocked := by simp [aborted, cleared] }
  · have ho := h.owns hw hf
    obtain ⟨image, hi⟩ := Option.ne_none_iff_exists'.1 (h.image_of_owns ho)
    have hb := h.before_eq_found (h.locked hw) hf
    rw [before, present_of_image hi] at hb
    show (v.kept t).or v.image = _
    rw [← hb, hi]
  · have hk : v.kept t = none := by
      by_contra hk
      have := h.wrote (Or.inr hk)
      rw [hw] at this
      cases this
    show (v.kept t).or v.image = v.image
    rw [hk]
    rfl
  · by_cases hown : v.Owns t
    · rw [owner?, hcopy, if_pos hown] at ho
      cases ho
    · rw [owner?, hcopy, if_neg hown] at ho
      exact hown (Or.inl ho)

end PageView

/-! ## Failed commits -/

/-- If no commit has failed then none of a transaction has. -/
theorem Ledger.failed_eq_false {history : List Event} (h : (Ledger.of history).broken = false)
    (t : TransactionId) : (Ledger.of history).failed t = false := by
  have hstep : ∀ (events : List Event) (l : Ledger), (l.broken = false → ∀ u, l.failed u = false) →
      (l.after events).broken = false → ∀ u, (l.after events).failed u = false := by
    intro events
    induction events with
    | nil => exact fun _ hl => hl
    | cons event events ih =>
        intro l hl
        refine ih (l.record event) fun hb u => ?_
        cases event with
        | failed _ => cases hb
        | committed | aborted =>
            simp only [record, close] at hb ⊢
            simp [hl hb u]
        | fetched _ _ mode _ => cases mode <;> exact hl hb u
        | locked | changed => exact hl hb u
  exact hstep history {} (fun _ _ => rfl) h t

namespace Traffic

variable {s₀ : Store} {w : Traffic} {history : List Event}

/-- After an orderly run, an abort does not fail and undoes the transaction on every page.  Every
table has fewer than `2 ^ 32` pages. -/
theorem abort_undoes (h₀ : Fresh s₀) (h : Run Orderly s₀ history w)
    (hn : ∀ p, w.store.NumberedAt p) (t : TransactionId) :
    (w.store.abort t).1 = .ok () ∧
      ∀ p, PageView.Undone (Ledger.of history) t (w.store.view p)
        ((w.store.abort t).2.view p) := by
  have hsound := fun p => soundAt_of_orderly h₀ h (hn p)
  have hstore : w.store.Sound := (hsound { table := ⟨0⟩, number := 0 }).store
  have hkept : ∀ p image, (w.store.view p).kept t = some image →
      w.store.Restorable p image := fun p _ hk => (hsound p).agrees.kept hk
  have hafter : ∀ p, (w.store.abort t).2.NumberedAt p := fun p =>
    Store.numberedAt_abort hstore hkept (hn p)
  have hf := Ledger.failed_eq_false (replays_of_orderly h₀ h hn).1 t
  refine ⟨Store.abort_eq_ok hstore hkept hafter, fun p => ?_⟩
  rw [Store.view_abort hstore (hkept p) (hafter p)]
  exact (hsound p).agrees.undone_aborted hf

theorem abort_undoes_small :
    Run Orderly Small.store (Small.after Small.moves).1 (Small.after Small.moves).2 ∧
      ((Small.after Small.moves).2.store.abort ⟨1⟩).1 = .ok () ∧
        (((Small.after Small.moves).2.store.abort ⟨1⟩).2.view (Small.page 0)).image =
          some [0, 0, 0, 0, 0] := by
  obtain ⟨hok, h⟩ := abort_undoes Small.fresh Small.run_moves Small.numberedAt_moves ⟨1⟩
  have himage := (h (Small.page 0)).restored (by decide +kernel)
  exact ⟨Small.run_moves, hok, himage.trans (by decide +kernel)⟩

end Traffic

end PagedStore

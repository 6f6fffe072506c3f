import PagedStore.Proofs.Undo

/-!
# Abort after a commit that failed

A commit writes the pages of its transaction in page order.  If one of them cannot be
written, because its table is gone from the catalog or its file has been cut, the pages
before it are written for good, and their before images are given up.  An abort cannot
undo those pages, unless they had been written early and their before images are kept.

So an abort after a failed commit undoes the transaction on a page if and only if the
page is not among those, or its before image is kept, or the transaction has changed
nothing on it (`Traffic.undone_after_failed_commit_iff`).
-/

namespace PagedStore

open PageView (Agrees Undone)

namespace PageView

variable {l : Ledger} {t : TransactionId} {v : PageView}

/-- The page holds in its file what it held when the transaction was granted its exclusive
lock, and so it does for who fetches it. -/
def BackToFound (l : Ledger) (t : TransactionId) (found v : PageView) : Prop :=
  v.shown v.image = found.shown ((l.found t found.id).or found.blank) ∧
    v.content = found.shown ((l.found t found.id).or found.blank)

/-- A page that is not written by the failing commit, or is kept as it was before, is
undone. -/
theorem Agrees.backToFound_aborted (h : Agrees l v) (hf : l.failed t = false)
    (ho : v.Owns t) : BackToFound l t v (v.aborted t) := by
  have hu := h.undone_aborted hf
  have hi : (v.aborted t).image = (l.found t v.id).or v.blank := hu.restored (h.wrote ho)
  have hc : (v.aborted t).copy = none := hu.uncached ho
  obtain ⟨image, himage⟩ : ∃ image, (v.aborted t).image = some image := by
    obtain ⟨image, hv⟩ := Option.ne_none_iff_exists'.1 (h.image_of_owns ho)
    show ∃ image', (v.kept t).or v.image = some image'
    rw [hv]
    cases v.kept t <;> simp
  refine ⟨?_, ?_⟩
  · show v.shown (v.aborted t).image = _
    rw [hi]
  · rw [content_of_none hc, present_of_image himage, ← himage, hi]
    rfl

/-- Writing a page whose before image is kept does not matter to an abort. -/
theorem aborted_saved_of_kept (h : v.kept t ≠ none) : (v.saved t).aborted t = v.aborted t := by
  obtain ⟨image, hk⟩ := Option.ne_none_iff_exists'.1 h
  have hk' : (v.saved t).kept t = some image := by rw [kept_saved, hk]
  have ho : v.Owns t := Or.inr h
  have ho' : (v.saved t).Owns t := Or.inr (by rw [hk']; simp)
  refine PageView.ext id_saved file_saved ?_ ?_ ?_ ?_
  · show ((v.saved t).kept t).or (v.saved t).image = (v.kept t).or v.image
    rw [hk', hk]
    rfl
  · show (if (v.saved t).Owns t then none else (v.saved t).copy) =
      if v.Owns t then none else v.copy
    rw [if_pos ho', if_pos ho]
  · show (fun u => if t = u then none else (v.saved t).kept u) = _
    rw [kept_saved]
    rfl
  · show (fun u => if t = u then none else (v.saved t).mode u) = _
    rw [mode_saved]
    rfl

/-- A page that is written for good stays so, if its before image is not kept. -/
theorem Agrees.backToFound_aborted_saved (h : Agrees l v) (ho : v.owner? = some t)
    (hk : v.kept t = none) :
    BackToFound l t v ((v.saved t).aborted t) ↔
      v.content = v.shown ((l.found t v.id).or v.blank) := by
  obtain ⟨page, hc, hpo⟩ := Option.bind_eq_some_iff.1 ho
  have hnot : ¬ (v.saved t).Owns t := by
    rintro (hown | hkept)
    · rw [owner?_saved, if_pos ho] at hown
      cases hown
    · rw [kept_saved] at hkept
      exact hkept hk
  have himage : ((v.saved t).aborted t).image = some page.encode := by
    show ((v.saved t).kept t).or (v.saved t).image = _
    rw [kept_saved, hk, saved_of_owner hc hpo]
    rfl
  have hcopy : ((v.saved t).aborted t).copy = some (page.keepImage.withOwner none) := by
    show (if (v.saved t).Owns t then none else (v.saved t).copy) = _
    rw [if_neg hnot, saved_of_owner hc hpo]
  have hshown : ((v.saved t).aborted t).shown (some page.encode) = some page.content := by
    show (v.saved t).shown _ = _
    rw [saved_of_owner hc hpo]
    exact h.shown_encode hc
  rw [BackToFound, himage, hshown, content_of_copy hcopy, content_of_copy hc]
  exact and_self_iff

end PageView

namespace Traffic

variable {s₀ : Store} {w : Traffic} {history : List Event} {p : PageId} {t : TransactionId}

/-- A commit that failed is followed by an abort.  A page that the transaction has fetched
for writing is then back to what the transaction found if and only if the commit did not
write it before it failed, or its before image had been kept, or nothing was changed on
it. -/
theorem undone_after_failed_commit_iff (h₀ : Fresh s₀) (hn₀ : s₀.NumberedAt p)
    (h : Run (TidyAt p) s₀ history w)
    (hw : (Ledger.of history).wrote t p = true) (hf : (Ledger.of history).failed t = false)
    (he : (w.store.commit t).1 ≠ .ok ())
    (hn : ((w.store.commit t).2.abort t).2.NumberedAt p) :
    PageView.BackToFound (Ledger.of history) t (w.store.view p)
        (((w.store.commit t).2.abort t).2.view p) ↔
      p ∉ w.store.savedBefore (w.store.cache.ownedBy t) ∨
        (w.store.view p).kept t ≠ none ∨
          (w.store.view p).content =
            (w.store.view p).shown
              (((Ledger.of history).found t p).or (w.store.view p).blank) := by
  have hsound := soundAt_of_run h₀ hn₀ h
  have ha := hsound.agrees
  have hown := ha.owns hw hf
  rcases Store.commit_cases hsound.store t with ⟨hr, -⟩ | ⟨e, q, rest, -, hids, hsaves, -⟩
  · exact absurd hr he
  · -- What the commit leaves of the page agrees with the ledger, so the abort is exact.
    have ha₁ : Agrees ((Ledger.of history).record (.failed t)) ((w.store.commit t).2.view p) := by
      rw [hsaves.view]
      split
      · exact ha.failLate
      · exact ha.fail
    rw [Store.view_abort hsaves.sound (fun _ hk => ha₁.kept hk) hn, hsaves.view]
    by_cases hp : p ∈ w.store.savedBefore (w.store.cache.ownedBy t)
    · have ho : (w.store.view p).owner? = some t := by
        refine Store.mem_ownedBy.1 ?_
        rw [hids]
        exact List.mem_append_left _ hp
      rw [if_pos hp]
      by_cases hk : (w.store.view p).kept t = none
      · rw [ha.backToFound_aborted_saved ho hk]
        simp [hp, hk]
      · rw [PageView.aborted_saved_of_kept hk]
        simp [hk, ha.backToFound_aborted hf hown]
    · rw [if_neg hp]
      simp [hp, ha.backToFound_aborted hf hown]

namespace Small

/-- A transaction deletes the rows of the first and the last page. -/
def deletions : List Move :=
  [.start ⟨0⟩ (.delete (record 0)), .resume ⟨0⟩, .start ⟨0⟩ (.delete (record 2)), .resume ⟨0⟩]

/-- The disk after the file is cut behind the first page. -/
def cutDisk : Disk := (after deletions).2.store.disk.setContents file [1, 0, 0, 0, 1]

/-- The traffic after the file is cut. -/
def cut : Traffic :=
  { (after deletions).2 with store := { (after deletions).2.store with disk := cutDisk } }

theorem run_cut : Run (TidyAt (page 0)) store ((after deletions).1 ++ []) cut := by
  have hc : (after deletions).2.store.catalog = store.catalog := by decide +kernel
  have hrun : Run Orderly store (after deletions).1 (after deletions).2 :=
    run (by decide) (by decide +kernel)
  have hn : (after deletions).2.store.NumberedAt (page 0) := numberedAt hc (by decide +kernel) _
  have htidy : TidyAt (page 0) (Ledger.of (after deletions).1) (after deletions).2
      (.replace (after deletions).2.store.catalog cutDisk) cut := by
    refine ⟨numberedAt (s := cut.store) hc (by decide +kernel) _, ?_, ?_⟩
    · rw [hc]
      exact fresh.catalog
    · exact PageView.ext rfl (by decide +kernel) (by decide +kernel) rfl rfl rfl
  exact .step (hrun.tidyAt hn) htidy rfl

end Small

/-- The last page cannot be written, but the first page has been, so it is not undone. -/
theorem not_undone_after_failed_commit_small :
    (Small.cut.store.commit ⟨0⟩).1 = .error (.pageNotFound (Small.page 2)) ∧
      ¬ PageView.BackToFound (Ledger.of ((Small.after Small.deletions).1 ++ [])) ⟨0⟩
          (Small.cut.store.view (Small.page 0))
          (((Small.cut.store.commit ⟨0⟩).2.abort ⟨0⟩).2.view (Small.page 0)) := by
  have he : (Small.cut.store.commit ⟨0⟩).1 = .error (.pageNotFound (Small.page 2)) := by rfl
  have hn : ∀ {s : Store}, s.catalog = Small.store.catalog →
      (s.disk.contents Small.file).length / 5 < 4294967296 → s.NumberedAt (Small.page 0) :=
    fun hc hl => Small.numberedAt hc hl _
  have h := undone_after_failed_commit_iff (t := ⟨0⟩) Small.fresh (hn rfl (by decide +kernel))
    Small.run_cut (by decide +kernel) (by decide +kernel) (by rw [he]; simp)
    (hn (by decide +kernel) (by decide +kernel))
  exact ⟨he, fun hb => absurd (h.1 hb) (by decide +kernel)⟩

end Traffic

end PagedStore

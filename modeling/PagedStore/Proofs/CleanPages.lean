import PagedStore.Proofs.Growth
import PagedStore.Proofs.Ownership
import PagedStore.Proofs.TrafficTurns

/-!
# Clean pages

A cached page that nobody owns holds what is in its file, and as long as no image of a page
is kept the before image of its copy is the very image in its file
(`Traffic.clean_pages_agree`).

This holds even if pages are dropped from the cache with changes on them.  Such a page no
longer agrees with what its transaction has done.  It is then as if a commit of the
transaction had failed: what the page held when it was found is not promised any more, but
all that a copy has to do with its file is (`PageView.Agrees.lose`).  So the page agrees with a
ledger that may have more failed commits than there were, and says the same about who has
fetched the page for writing (`Traffic.Sheltered`).
-/

namespace PagedStore

open PageView (Agrees)

variable {p : PageId} {l l' : Ledger} {t : TransactionId}

namespace PageView

variable {v : PageView}

/-- A copy is dropped with the changes of its owner. -/
theorem Agrees.lose (h : Agrees l v) (ho : v.owner? = some t) :
    Agrees (l.record (.failed t)) { v with copy := none } := by
  have hm := h.mode_of_owns (Or.inl ho)
  exact { h with
    wrote := by
      rintro u (hu | hu)
      · cases hu
      · exact h.wrote (Or.inr hu)
    owns := fun hw hf => absurd (h.locked hw) (h.not_exclusive_of_failed hm hf)
    fits := fun hc => by cases hc
    fresh := fun hc => by cases hc
    clean := fun hc => by cases hc
    first := h.fail.first
    held := fun hmu hf _ => absurd hmu (h.not_exclusive_of_failed hm hf) }

end PageView

/-- Who has fetched a page for writing depends only on who had, and on the events. -/
theorem Ledger.wrote_after_congr (h : l'.wrote = l.wrote) (events : List Event) :
    (l'.after events).wrote = (l.after events).wrote := by
  induction events generalizing l l' with
  | nil => exact h
  | cons event events ih =>
      refine ih ?_
      cases event with
      | fetched t q mode copy => cases mode <;> simp only [record, h]
      | committed | aborted => simp only [record, close, h]
      | locked | changed | failed => exact h

namespace Traffic

variable {s₀ : Store} {w w' : Traffic} {move : Move} {history events : List Event}

/-- What is asked of a move.  A lock is released early only by a transaction that has not
fetched the page for writing, and no table or file is changed past the store. -/
def Enclosed (l : Ledger) (w : Traffic) (move : Move) (w' : Traffic) : Prop :=
  Guarded l w move w' ∧ ∀ catalog disk, move ≠ .replace catalog disk

/-- All is well with a page, only that changes of it may have been dropped. -/
def Sheltered (p : PageId) (l : Ledger) (w : Traffic) : Prop :=
  ∃ l', w.SoundAt p l' ∧ l'.wrote = l.wrote

/-- A page is dropped from the cache with changes on it. -/
theorem SoundAt.lose (h : w.SoundAt p l) (ho : (w.store.view p).owner? = some t) :
    SoundAt p (l.record (.failed t)) { w with store := w.store.discard p } := by
  obtain ⟨page, hc, -⟩ := Option.bind_eq_some_iff.1 ho
  have hc : w.store.cache.page? p = some page := hc
  obtain ⟨counters, hd⟩ : ∃ counters, w.store.discard p =
      { w.store.onCache (fun c => c.drop p) with counters } := by
    rw [Store.discard, hc]
    dsimp only
    split
    · exact ⟨_, rfl⟩
    · exact ⟨_, rfl⟩
  have hview : (w.store.discard p).view p = { w.store.view p with copy := none } := by
    rw [hd]
    exact (Store.view_drop w.store p p).trans (if_pos rfl)
  refine ⟨?_, ?_, ?_, ?_⟩
  · rw [hd]
    exact ⟨h.store.catalog, h.store.keyed.drop p, h.store.indexed⟩
  · rw [hd]
    exact h.numbered
  · rw [hview]
    exact h.agrees.lose ho
  · rw [hview]
    exact fun u task ht => (h.tasks ht).mono id

/-- A move that is asked for no more than this keeps the shelter. -/
theorem Sheltered.step (h : w.Sheltered p l) (hr : Enclosed l w move w')
    (hs : w.step move = some (events, w')) (hn : w'.store.NumberedAt p) :
    w'.Sheltered p (l.after events) := by
  obtain ⟨l', h, hw⟩ := h
  obtain ⟨hguard, hreplace⟩ := hr
  by_cases hlose : move = .discard p ∧ (w.store.view p).owner? ≠ none
  · obtain ⟨rfl, ho⟩ := hlose
    obtain ⟨t, ho⟩ := Option.ne_none_iff_exists'.1 ho
    cases hs
    exact ⟨l'.record (.failed t), h.lose ho, hw⟩
  · have htidy : TidyAt p l' w move w' := by
      refine ⟨hn, ?_⟩
      cases move with
      | discard q =>
          rintro rfl
          by_contra ho
          exact hlose ⟨rfl, ho⟩
      | release t q =>
          rintro rfl
          rw [hw]
          exact hguard rfl
      | replace catalog disk => exact absurd rfl (hreplace catalog disk)
      | _ => trivial
    exact ⟨_, (turned_of_step h hs htidy).sound, Ledger.wrote_after_congr hw events⟩

theorem Run.sheltered (h₀ : Fresh s₀) (h : Run Enclosed s₀ history w)
    (hn : w.store.NumberedAt p) : w.Sheltered p (Ledger.of history) := by
  induction h with
  | start => exact ⟨{}, soundAt_start h₀ hn, rfl⟩
  | step _ hrule hs ih =>
      rw [Ledger.of_append]
      exact (ih ((grew_of_ne_replace hrule.2 hs).numberedAt hn)).step hrule hs hn

/-- What a store has of a page in the cache.  If nobody owns the page, its image in the file
decodes to what the copy holds.  If no image of it is kept, the before image of the copy is
the image in the file.  The table of the page has fewer than `2 ^ 32` pages. -/
theorem clean_pages_agree (h₀ : Fresh s₀) (h : Run Enclosed s₀ history w)
    (hn : w.store.NumberedAt p) {page : Page} (hc : (w.store.view p).copy = some page) :
    (page.owner = none → ∃ f image stored, (w.store.view p).file = some f ∧
        (w.store.view p).image = some image ∧
          Page.decode p f.schema f.pageSize image = .ok stored ∧
            stored.content = page.content) ∧
      ((∀ t, (w.store.view p).kept t = none) →
        (w.store.view p).image = some page.beforeImage) := by
  obtain ⟨l', hsound, -⟩ := h.sheltered h₀ hn
  exact ⟨fun ho => PageView.exists_decode_of_shown (hsound.agrees.clean hc ho),
    fun hk => hsound.agrees.fresh hc fun t _ => hk t⟩

/-- A transaction deletes a row, the page is dropped with this change, and the transaction
fetches it again. -/
def Small.lostChange : List Move :=
  [.start ⟨0⟩ (.delete (record 0)), .resume ⟨0⟩, .discard (page 0),
   .start ⟨0⟩ (.getPage (page 0) .shared), .resume ⟨0⟩]

theorem clean_pages_agree_small :
    Run Enclosed Small.store (Small.after Small.lostChange).1 (Small.after Small.lostChange).2 ∧
      ∃ page, ((Small.after Small.lostChange).2.store.view (Small.page 0)).copy = some page ∧
        page.beforeImage = [1, 0, 0, 0, 1] ∧
          ∃ (f : TableFile) (image : Bytes) (stored : Page),
            Page.decode (Small.page 0) f.schema f.pageSize image = .ok stored ∧
              stored.content = page.content := by
  have hrun : Run Enclosed Small.store (Small.after Small.lostChange).1
      (Small.after Small.lostChange).2 := by
    refine Small.run_of (fun move hm _ _ _ => ?_) (by decide +kernel)
    simp only [Small.lostChange, List.mem_cons, List.not_mem_nil, or_false] at hm
    rcases hm with rfl | rfl | rfl | rfl | rfl <;>
      exact ⟨fun _ _ h => (by cases h), fun _ _ h => by cases h⟩
  have hn : (Small.after Small.lostChange).2.store.NumberedAt (Small.page 0) :=
    Small.numberedAt (by decide +kernel) (by decide +kernel) _
  have howner : ((Small.after Small.lostChange).2.store.view (Small.page 0)).owner? = none := by
    decide +kernel
  obtain ⟨page, hc⟩ : ∃ page,
      ((Small.after Small.lostChange).2.store.view (Small.page 0)).copy = some page :=
    Option.ne_none_iff_exists'.1 (by decide +kernel)
  obtain ⟨hclean, hfresh⟩ := clean_pages_agree Small.fresh hrun hn hc
  obtain ⟨f, image, stored, -, -, hd, hcontent⟩ :=
    hclean ((PageView.owner?_of_copy hc).symm.trans howner)
  refine ⟨hrun, page, hc, ?_, f, image, stored, hd, hcontent⟩
  have hkept : ∀ t,
      ((Small.after Small.lostChange).2.store.view (Small.page 0)).kept t = none := by
    intro t
    have : (Small.after Small.lostChange).2.store.cache.kept = ∅ := by decide +kernel
    show ((Small.after Small.lostChange).2.store.cache.keptFor t)[Small.page 0]? = none
    rw [Cache.keptFor, this]
    simp
  have himage : ((Small.after Small.lostChange).2.store.view (Small.page 0)).image =
      some [1, 0, 0, 0, 1] := by decide +kernel
  exact Option.some.inj ((hfresh hkept).symm.trans himage)

end Traffic

end PagedStore

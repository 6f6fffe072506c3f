import PagedStore.Proofs.AddedTables

/-!
# Stores of intact pages

A store of intact pages (`Store.Intact`) can be worked with even if it follows no ledger.  Who
needs a page gets it, and if another page has to leave the cache for it, that page holds the same
as before (`Store.Intact.aside_ensureCached`).  Locks may have been released too early then, so
that the before images are not worth much, but what the pages hold is.

Work that is done *aside* (`Store.Aside`) changes no table, no lock and no length of a file.  Every
page holds what it held, nobody becomes the owner of a page, and copies of other transactions stay
where they are.
-/

namespace PagedStore

open Store (SameContents QuietAt KeepsAt)

variable {p id : PageId} {t : TransactionId} {s s' s'' : Store} {f : TableFile} {page : Page}

/-! ## One page -/

namespace PageView.Intact

variable {v : PageView}

/-- A page without changes holds the same when its copy has left the cache. -/
theorem content_uncached (h : v.Intact) (hc : v.copy = some page) (ho : page.owner = none) :
    content { v with copy := none } = v.content := by
  obtain ⟨image, hi⟩ := Option.ne_none_iff_exists'.1 (h.fits hc).image
  have hp : PageView.present { v with copy := none } = v.image :=
    (present_of_image (v := { v with copy := none }) hi).trans hi.symm
  rw [content_of_none rfl, content_of_copy hc, hp]
  exact h.clean hc ho

/-- So does a page with changes, if it is written first. -/
theorem content_written_uncached (h : v.Intact) (hc : v.copy = some page) :
    content { v.written t page with copy := none } = v.content := by
  rw [content_of_none rfl, content_of_copy hc]
  exact (h.fits hc).shown_encode

end PageView.Intact

namespace Store

/-! ## Stores of intact pages -/

/-- The store is well-formed, its pages can be counted, and all of them are intact. -/
structure Intact (s : Store) : Prop where
  sound : s.Sound
  numbered : ∀ p, s.NumberedAt p
  view : ∀ p, (s.view p).Intact

theorem Intact.backed (h : s.Intact) : s.Backed := ⟨h.numbered, fun hc => ((h.view _).fits hc).image⟩

/-- The store after a request is evaluated. -/
theorem Intact.locked (h : s.Intact) (t : TransactionId) (r : LockRequest) :
    Intact { s with locks := (s.locks.consider t r).2 } := by
  refine ⟨⟨h.sound.catalog, h.sound.keyed, h.sound.indexed.consider t r⟩, h.numbered, fun p => ?_⟩
  rw [view_consider]
  split
  · exact (h.view p).withMode _
  · exact h.view p

theorem Intact.releasePage (h : s.Intact) (t : TransactionId) (id : PageId) :
    (s.releasePage t id).2.Intact := by
  refine ⟨⟨h.sound.catalog, h.sound.keyed, h.sound.indexed.release id t⟩, h.numbered, fun p => ?_⟩
  rw [view_releasePage]
  split
  · exact (h.view p).withMode _
  · exact h.view p

theorem Intact.append (h : s.Intact)
    (hf : ∀ {t g}, s.catalog.file t = .ok g → g.name = f.name → g = f)
    (hn : ∀ p, NumberedAt { s with disk := (s.disk.append f).2 } p) :
    Intact { s with disk := (s.disk.append f).2 } := by
  refine ⟨⟨h.sound.catalog, h.sound.keyed, h.sound.indexed⟩, hn, fun p => ?_⟩
  obtain ⟨hnew, hold⟩ := view_append (f := f) (h.numbered p) fun g hg => hf hg
  by_cases hp : s.Appended f p
  · obtain ⟨-, himage, hview⟩ := hnew hp
    rw [hview]
    exact (h.view p).append himage
  · rw [hold hp]
    exact h.view p

/-- A page that is fetched to be read is as it was. -/
theorem view_take_shared (s : Store) (t : TransactionId) (id p : PageId) :
    (s.take t id .shared).view p = s.view p := rfl

theorem Intact.take_shared (h : s.Intact) (t : TransactionId) (id : PageId) :
    (s.take t id .shared).Intact := ⟨h.sound.take t id .shared, h.numbered, h.view⟩

/-! ## Work that is done aside -/

/-- What work for a transaction leaves as it is, if it only moves pages between the cache and the
files. -/
structure Aside (t : TransactionId) (s s' : Store) : Prop where
  quiet : ∀ p, QuietAt p s s'
  keeps : ∀ p, KeepsAt p (· = t) s s'
  contents : SameContents s s'
  lengths : s.disk.SameLengths s'.disk

namespace Aside

theorem catalog (h : Aside t s s') : s'.catalog = s.catalog := (h.quiet ⟨⟨0⟩, 0⟩).catalog

theorem locks (h : Aside t s s') : s'.locks = s.locks := (h.quiet ⟨⟨0⟩, 0⟩).locks

theorem intact (h : Aside t s s') (hs : s.Intact) : s'.Intact := by
  have hn := fun p => (hs.numbered p).of_sameLengths h.catalog h.lengths
  exact ⟨(h.quiet ⟨⟨0⟩, 0⟩).sound hs.sound, hn, fun p =>
    PageView.Intact.turns ((h.quiet p).turns hs.sound (hn p) {}) (hs.view p)⟩

/-- Who owns a page then has owned it before. -/
theorem owner? (h : Aside t s s') {p : PageId} {u : TransactionId}
    (ho : (s'.view p).owner? = some u) : (s.view p).owner? = some u := (h.keeps p).cache.owner ho

end Aside

/-! ## Making room, and reading -/

/-- What making room leaves in the pages and the files. -/
theorem Intact.sameContents_makeRoom (h : s.Intact) (hr : s.makeRoom t = .ok s') :
    SameContents s s' ∧ s.disk.SameLengths s'.disk := by
  rcases makeRoom_cases hr with rfl | ⟨id, page, hp, ho, rfl⟩ | ⟨id, page, s₁, hp, ho, hw, rfl⟩
  · exact ⟨.refl _, .refl _⟩
  · refine ⟨fun p => ?_, .refl _⟩
    have hview : (s.evict id).view p = _ := s.view_drop id p
    rw [hview]
    split
    · rename_i he
      subst he
      exact (h.view id).content_uncached hp ho
    · rfl
  · have hid : page.id = id := h.sound.keyed hp
    have himage : (s.view page.id).image ≠ none := by
      rw [hid]
      exact ((h.view id).fits hp).image
    refine ⟨fun p => ?_, ?_⟩
    · have hview : ((s₁.count .dirtyEvictions).evict page.id).view p = _ :=
        s₁.view_drop page.id p
      rw [hview, view_writeBack h.sound ho hw]
      split
      · rename_i he
        rw [hid] at he
        subst he
        exact (h.view id).content_written_uncached hp
      · rfl
    · obtain ⟨s₂, hout, rfl⟩ := writeBack_eq_ok hw ho
      exact (outside_writeOut h.sound himage hout).sameLengths

/-- To see to it that a page is cached is work that is done aside. -/
theorem Intact.aside_ensureCached (h : s.Intact) (t : TransactionId)
    (hf : s.catalog.file id.table = .ok f) : Aside t s (s.ensureCached t f id).2 := by
  have hsame : SameContents s (s.ensureCached t f id).2 ∧
      s.disk.SameLengths (s.ensureCached t f id).2.disk := by
    have hensured := s.ensured t f id
    generalize s.ensureCached t f id = result at hensured ⊢
    have hmissed : (s.count .misses).Intact :=
      ⟨⟨h.sound.catalog, h.sound.keyed, h.sound.indexed⟩, h.numbered, h.view⟩
    cases hensured with
    | hit | crowded => exact ⟨.refl s, .refl _⟩
    | unread hr => exact hmissed.sameContents_makeRoom hr
    | @read s₁ page hn hr hp =>
        obtain ⟨hcontents, hlengths⟩ := hmissed.sameContents_makeRoom hr
        have hf₁ : s₁.catalog.file id.table = .ok f := by
          rw [(quietAt_makeRoom (p := id) hr).catalog]
          exact hf
        have halike := alike_load (page?_makeRoom hr hn) hf₁ hp
        exact ⟨hcontents.trans fun p => (halike.view p).content, hlengths⟩
  exact ⟨fun p => quietAt_ensureCached fun he => he ▸ hf,
    fun p => keepsAt_ensureCached h.sound.keyed f id, hsame.1, hsame.2⟩

/-- A page that is fetched has been seen to aside, and is then taken. -/
theorem Intact.exists_of_fetch (h : s.Intact) (hf : s.catalog.file id.table = .ok f)
    {mode : LockMode} {frame : Frame} (hfetch : s.fetch t f id mode = (.ok frame, s')) :
    ∃ s₁ page, Aside t s s₁ ∧ s₁.cache.page? id = some page ∧ frame.page = taken t mode page ∧
      s' = s₁.take t id mode := by
  rcases s.fetch_eq t f id mode with ⟨e, he⟩ | ⟨e, -, he⟩ | ⟨page, frame', hp, ht, he⟩
  · rw [hfetch] at he
    cases he
  · rw [hfetch] at he
    cases he
  · rw [hfetch] at he
    cases he
    exact ⟨_, page, h.aside_ensureCached t hf, hp, ht, rfl⟩

end Store

end PagedStore

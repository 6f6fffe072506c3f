import PagedStore.Proofs.AlikeStores
import PagedStore.Proofs.TrafficTurns

/-!
# The same on alike stores

What is asked of two alike stores comes to the same on both, and leaves them alike: locking
and releasing a page, fetching and changing it, putting a page at the end of a file, commit
and abort.

A page may be in the cache of one store and not of the other.  What comes of a fetch is told
by the view of the page alone (`PageView.fetchError?`), unless there is no room for it in the
cache.  So if there is room on both stores or on none, the fetch fails on both, for the same
reason, or gives copies with the same content on both (`Store.Likeness.fetch`).
-/

namespace PagedStore

variable {l l' : Ledger} {p id : PageId} {t : TransactionId}

/-! ## Reading a page -/

namespace PageView

variable {v v' : PageView} {page page' : Page}

/-- What comes of reading the page from its file. -/
def read (v : PageView) : Except StoreError Page :=
  match v.file, v.image with
  | some f, some image =>
      match Page.decode v.id f.schema f.pageSize image with
      | .ok page => .ok page
      | .error fault => .error (.corruptPage v.id fault)
  | _, _ => .error (.pageNotFound v.id)

/-- Why the page cannot be fetched, apart from a lack of room. -/
def fetchError? (v : PageView) : Option StoreError :=
  match v.copy with
  | some _ => none
  | none =>
      match v.read with
      | .ok _ => none
      | .error e => some e

theorem fetchError?_of_copy (hc : v.copy = some page) : v.fetchError? = none := by
  rw [fetchError?, hc]

/-- A page that is cached in one view can be fetched in the other. -/
theorem Alike.fetchError?_of_copy (h : v.Alike v') (ha : Agrees l v) (hc : v.copy = some page) :
    v'.fetchError? = none := by
  cases hc' : v'.copy with
  | some page' => exact PageView.fetchError?_of_copy hc'
  | none =>
      obtain ⟨image, hi⟩ := Option.ne_none_iff_exists'.1 (mt h.image.1 (ha.fits hc).image)
      have hshown := h.content
      rw [content_of_copy hc, content_of_none hc'] at hshown
      obtain ⟨f, _, stored, hf, hp, hd, -⟩ := exists_decode_of_shown hshown
      rw [present_of_image hi] at hp
      cases hp
      rw [fetchError?, hc', read, hf, hi]
      simp only [hd]

/-- Two copies that are not cached are read from the same image. -/
theorem Alike.read_eq (h : v.Alike v') (ho : v.OpenTo t) (hc : v.copy = none)
    (hc' : v'.copy = none) : v'.read = v.read := by
  have himage := h.settled ho
  rw [settled_of_none hc, settled_of_none hc'] at himage
  rw [read, read, h.file, h.id, himage]

theorem Alike.fetchError?_eq (h : v.Alike v') (ha : Agrees l v) (ha' : Agrees l' v')
    (ho : v.OpenTo t) : v'.fetchError? = v.fetchError? := by
  cases hc : v.copy with
  | some page => rw [h.fetchError?_of_copy ha hc, PageView.fetchError?_of_copy hc]
  | none =>
      cases hc' : v'.copy with
      | some page => rw [h.symm.fetchError?_of_copy ha' hc', PageView.fetchError?_of_copy hc']
      | none => rw [fetchError?, fetchError?, hc, hc', h.read_eq ho hc hc']

end PageView

namespace Store

variable {s s' : Store} {f : TableFile} {mode : LockMode}

theorem readPage_eq (hs : s.Sound) (hn : s.NumberedAt id) (hf : s.catalog.file id.table = .ok f) :
    s.disk.readPage f id = (s.view id).read := by
  have htable : id.table = f.table := (hs.catalog.table hf).symm
  rw [PageView.read, file_view hf, image_view hf, Disk.readPage_eq]
  cases hi : f.image? (s.disk.contents f) id.number with
  | some image =>
      have hlt := TableFile.lt_pageCount_of_image? (hn hf) hi
      rw [TableFile.image?_of_lt_pageCount hlt] at hi
      cases hi
      exact if_pos ⟨htable, hlt⟩
  | none =>
      refine if_neg fun hc => ?_
      rw [TableFile.image?_of_lt_pageCount hc.2] at hi
      cases hi

/-- What comes of reading a page that is not cached. -/
theorem Follows.read_result (hs : s.Follows l) (hf : s.catalog.file id.table = .ok f)
    (ho : (s.view id).OpenTo t) (hn : s.cache.page? id = none) :
    (s.read t f id).1 = .error .noEvictablePage ∨
      (∃ e, (s.view id).fetchError? = some e ∧ (s.read t f id).1 = .error e) ∨
        ∃ page, (s.view id).fetchError? = none ∧ (s.read t f id).1 = .ok () ∧
          (s.read t f id).2.cache.page? id = some page := by
  rw [read]
  split
  · rename_i e hr
    rw [hs.makeRoom_error hr]
    exact Or.inl rfl
  · rename_i s₁ hr
    have hroom := silent_makeRoom hr
    have hs₁ := hroom.follows hs
    have hn₁ : (s₁.view id).copy = none := page?_makeRoom hr hn
    have halike := (hroom.alike hs).view id
    have hf₁ : s₁.catalog.file id.table = .ok f := (hroom.quiet id).catalog ▸ hf
    have hfetch := halike.fetchError?_eq (hs.view id) (hs₁.view id) ho
    rw [PageView.fetchError?, hn₁] at hfetch
    rw [readPage_eq hs₁.sound (hs₁.numbered id) hf₁]
    right
    split
    · rename_i e he
      rw [he] at hfetch
      exact Or.inl ⟨e, hfetch.symm, rfl⟩
    · rename_i page he
      rw [he] at hfetch
      refine Or.inr ⟨page, hfetch.symm, rfl, ?_⟩
      have hread := readPage_eq hs₁.sound (hs₁.numbered id) hf₁
      rw [he] at hread
      obtain ⟨_, -, hd⟩ := Disk.readPage_eq_ok hread
      have hid : page.id = id := (Page.decode_eq_ok hd).2.1
      show (s₁.cache.load page).page? id = some page
      rw [Cache.page?_load, if_pos hid]

/-! ## Fetching -/

theorem Follows.ensureCached_result (hs : s.Follows l) (hf : s.catalog.file id.table = .ok f)
    (ho : (s.view id).OpenTo t) :
    (s.ensureCached t f id).1 = .error .noEvictablePage ∨
      (∃ e, (s.view id).fetchError? = some e ∧ (s.ensureCached t f id).1 = .error e) ∨
        ∃ page, (s.view id).fetchError? = none ∧ (s.ensureCached t f id).1 = .ok () ∧
          (s.ensureCached t f id).2.cache.page? id = some page := by
  rw [ensureCached]
  split
  · rename_i hc
    rw [Cache.isCached, Std.ExtTreeMap.contains_iff_mem, Std.ExtTreeMap.mem_iff_isSome_getElem?,
      Option.isSome_iff_exists] at hc
    obtain ⟨frame, hframe⟩ := hc
    have hp : s.cache.page? id = some frame.page := by
      rw [Cache.page?, hframe]
      rfl
    exact Or.inr (Or.inr ⟨frame.page, PageView.fetchError?_of_copy (v := s.view id) hp, rfl, hp⟩)
  · rename_i hc
    exact (hs.withCounters _).read_result hf ho (page?_of_not_isCached hc)

/-- What comes of a fetch for a transaction that may see the page. -/
theorem Follows.fetch_result (hs : s.Follows l) (hf : s.catalog.file id.table = .ok f)
    (ho : (s.view id).OpenTo t) (mode : LockMode) :
    (∃ e, (e = .noEvictablePage ∨ (s.view id).fetchError? = some e) ∧
        (s.fetch t f id mode).1 = .error e ∧ Silent s (s.fetch t f id mode).2) ∨
      ∃ s₁ page frame, (s.view id).fetchError? = none ∧ Silent s s₁ ∧
        s₁.cache.page? id = some page ∧ frame.page = taken t mode page ∧
          s.fetch t f id mode = (.ok frame, s₁.take t id mode) := by
  have hsilent := silent_ensureCached (t := t) hf
  have hresult := hs.ensureCached_result (t := t) hf ho
  rw [fetch]
  cases hc : s.ensureCached t f id with
  | mk r s₁ =>
      rw [hc] at hsilent hresult
      rcases hresult with rfl | ⟨e, he, rfl⟩ | ⟨page, he, rfl, hp⟩
      · exact Or.inl ⟨_, Or.inl rfl, rfl, hsilent⟩
      · exact Or.inl ⟨e, Or.inr he, rfl, hsilent⟩
      · refine Or.inr ?_
        have htake := page?_take s₁ t id mode id
        rw [if_pos rfl, hp, Option.map_some, Cache.page?] at htake
        obtain ⟨frame, hframe, hpage⟩ := Option.map_eq_some_iff.1 htake
        refine ⟨s₁, page, frame, he, hsilent, hp, hpage, ?_⟩
        dsimp only
        rw [hframe]

/-! ## One page of two stores -/

section AlikeAt

variable {page page' : Page}

/-- The page becomes the most recently used one on both stores, and the transaction's own. -/
theorem alikeAt_take (h : (s.view p).Alike (s'.view p)) (hs : s.Follows l) (hs' : s'.Follows l')
    (hm : mode = .exclusive → s.locks.modeOf? id t = some .exclusive)
    (hp : s.cache.page? id = some page) (hp' : s'.cache.page? id = some page') :
    ((s.take t id mode).view p).Alike ((s'.take t id mode).view p) := by
  rw [view_take, view_take]
  split
  · rename_i he
    subst he
    have hc : (s.view id).copy = some page := hp
    have hc' : (s'.view id).copy = some page' := hp'
    rw [hc, hc', Option.map_some, Option.map_some]
    cases mode with
    | shared =>
        have hsame : ∀ {v : PageView} {page : Page}, v.copy = some page →
            { v with copy := some (taken t .shared page) } = v :=
          fun hc => PageView.ext rfl rfl rfl hc.symm rfl rfl
        rw [hsame hc, hsame hc']
        exact h
    | exclusive => exact h.take (hs.view id) (hs'.view id) (hm rfl) hc hc'
  · exact h

theorem alikeAt_consider {r : LockRequest} (h : (s.view p).Alike (s'.view p))
    (hv : (s'.locks.consider t r).1 = (s.locks.consider t r).1) :
    (view { s with locks := (s.locks.consider t r).2 } p).Alike
      (view { s' with locks := (s'.locks.consider t r).2 } p) := by
  rw [view_consider, view_consider, hv]
  split
  · exact h.granted t r.mode
  · exact h

theorem alikeAt_releasePage (h : (s.view p).Alike (s'.view p)) (t : TransactionId) (id : PageId) :
    ((s.releasePage t id).2.view p).Alike ((s'.releasePage t id).2.view p) := by
  rw [view_releasePage, view_releasePage]
  split
  · exact h.released t
  · exact h

/-- The same change is made to the copies of a page. -/
theorem alikeAt_change (h : (s.view p).Alike (s'.view p)) (hs : s.Follows l) (hs' : s'.Follows l')
    {change : Change} {after after' : Page} (hp : s.cache.page? id = some page)
    (hp' : s'.cache.page? id = some page') (ho : page.owner = some t) (ho' : page'.owner = some t)
    (hm : change.Made page after) (hm' : change.Made page' after') :
    ((s.onCache fun c => c.update after.id fun _ => after).view p).Alike
      ((s'.onCache fun c => c.update after'.id fun _ => after').view p) := by
  have hid : after.id = id := by rw [hm.same, ← hs.sound.keyed hp]
  have hid' : after'.id = id := by rw [hm'.same, ← hs'.sound.keyed hp']
  rw [view_update, view_update, hid, hid']
  split
  · rename_i he
    subst he
    have hc : (s.view id).copy = some page := hp
    have hc' : (s'.view id).copy = some page' := hp'
    rw [hc, hc', Option.map_some, Option.map_some]
    exact h.change (hs.view id) (hs'.view id) hc hc' ho ho' hm hm'
  · exact h

/-- A page is put at the end of a file that has the same number of pages on both stores. -/
theorem alikeAt_append (h : (s.view p).Alike (s'.view p)) (hs : s.Follows l) (hs' : s'.Follows l')
    (hc : s'.catalog = s.catalog) (hcount : s'.disk.pageCount f = s.disk.pageCount f)
    (hf : ∀ {t g}, s.catalog.file t = .ok g → g.name = f.name → g = f) :
    (view { s with disk := (s.disk.append f).2 } p).Alike
      (view { s' with disk := (s'.disk.append f).2 } p) := by
  obtain ⟨hnew, hold⟩ := view_append (hs.numbered p) fun g hg => hf hg
  obtain ⟨hnew', hold'⟩ := view_append (s := s') (f := f) (hs'.numbered p)
    fun g hg => hf (hc ▸ hg)
  have hiff : s'.Appended f p ↔ s.Appended f p := by
    have hnumber : (s'.disk.append f).1 = (s.disk.append f).1 := hcount
    rw [Appended, Appended, hc, hnumber]
  by_cases hp : s.Appended f p
  · obtain ⟨-, hi, hview⟩ := hnew hp
    obtain ⟨-, -, hview'⟩ := hnew' (hiff.2 hp)
    rw [hview, hview']
    exact h.append (hs.view p) (hs'.view p) hi
  · rw [hold hp, hold' (mt hiff.1 hp)]
    exact h

end AlikeAt

namespace Alike

variable {page page' : Page}

theorem take (h : s.Alike s') (hs : s.Follows l) (hs' : s'.Follows l')
    (hm : mode = .exclusive → s.locks.modeOf? id t = some .exclusive)
    (hp : s.cache.page? id = some page) (hp' : s'.cache.page? id = some page') :
    (s.take t id mode).Alike (s'.take t id mode) :=
  ⟨h.catalog, h.locks, h.outside, fun p => alikeAt_take (h.view p) hs hs' hm hp hp'⟩

theorem consider (h : s.Alike s') (t : TransactionId) (r : LockRequest) :
    Alike { s with locks := (s.locks.consider t r).2 }
      { s' with locks := (s'.locks.consider t r).2 } :=
  ⟨h.catalog, by rw [h.locks], h.outside, fun p => alikeAt_consider (h.view p) (by rw [h.locks])⟩

theorem releasePage (h : s.Alike s') (t : TransactionId) (id : PageId) :
    (s.releasePage t id).2.Alike (s'.releasePage t id).2 :=
  ⟨h.catalog, congrArg (fun locks => (locks.release id t).2) h.locks, h.outside,
    fun p => alikeAt_releasePage (h.view p) t id⟩

theorem change (h : s.Alike s') (hs : s.Follows l) (hs' : s'.Follows l') {change : Change}
    {after after' : Page} (hp : s.cache.page? id = some page) (hp' : s'.cache.page? id = some page')
    (ho : page.owner = some t) (ho' : page'.owner = some t) (hm : change.Made page after)
    (hm' : change.Made page' after') :
    Alike (s.onCache fun c => c.update after.id fun _ => after)
      (s'.onCache fun c => c.update after'.id fun _ => after') :=
  ⟨h.catalog, h.locks, h.outside,
    fun p => alikeAt_change (h.view p) hs hs' hp hp' ho ho' hm hm'⟩

theorem append (h : s.Alike s') (hs : s.Follows l) (hs' : s'.Follows l')
    (hf : ∀ {t g}, s.catalog.file t = .ok g → g.name = f.name → g = f) :
    Alike { s with disk := (s.disk.append f).2 } { s' with disk := (s'.disk.append f).2 } := by
  have houtside : (s.disk.append f).2.SameOutside s.catalog (s'.disk.append f).2 :=
    h.outside.append fun {t g} hg hname =>
      ⟨hf hg hname, hs.numbered { table := t, number := 0 } hg⟩
  exact ⟨h.catalog, h.locks, houtside,
    fun p => alikeAt_append (h.view p) hs hs' h.catalog (h.outside.pageCount_eq f) hf⟩

end Alike

/-! ## Commit -/

/-- Pages that lie inside their files are written. -/
structure Rewritten (s s' : Store) : Prop where
  sound : s'.Sound
  catalog : s'.catalog = s.catalog
  locks : s'.locks = s.locks
  outside : s.disk.SameOutside s.catalog s'.disk
  inside : ∀ {p page}, s'.cache.page? p = some page → (s'.view p).image ≠ none

theorem Follows.rewritten (hs : s.Follows l) : Rewritten s s :=
  ⟨hs.sound, rfl, rfl, .refl _ _, fun {p _} hc => ((hs.view p).fits hc).image⟩

theorem Rewritten.commitPage {s₁ s₂ : Store} (h : Rewritten s s₁)
    (hc : s₁.commitPage id = .ok s₂) : Rewritten s s₂ := by
  rw [Store.commitPage] at hc
  split at hc
  · cases hc
    exact h
  · rename_i page hp
    split at hc
    · cases hc
    · rename_i s₃ hw
      cases hc
      have hid := h.sound.keyed hp
      have hview := fun p => view_writeOut (p := p) h.sound hw
      have houtside := outside_writeOut h.sound (hid ▸ h.inside hp) hw
      rw [h.catalog] at houtside
      obtain ⟨f, disk, -, -, rfl⟩ := writeOut_eq_ok hw
      refine ⟨⟨h.sound.catalog, h.sound.keyed.update fun _ _ => rfl, h.sound.indexed⟩, h.catalog,
        h.locks, h.outside.trans houtside, fun {p q} hq => ?_⟩
      have hcached : ∃ q, s₁.cache.page? p = some q := by
        rw [onCache, Cache.page?_update] at hq
        split at hq
        · obtain ⟨q, hq, -⟩ := Option.map_eq_some_iff.1 hq
          exact ⟨q, hq⟩
        · exact ⟨q, hq⟩
      obtain ⟨q, hq⟩ := hcached
      show (view ({ s₁ with disk }.count .pagesWritten) p).image ≠ none
      rw [hview]
      split
      · simp
      · exact h.inside hq

theorem Rewritten.untilError {s₁ : Store} (h : Rewritten s s₁) (ids : List PageId) :
    Rewritten s (untilError Store.commitPage s₁ ids).2 := by
  induction ids generalizing s₁ with
  | nil => exact h
  | cons id ids ih =>
      rw [Store.untilError]
      split
      · exact h
      · exact ih (h.commitPage ‹_›)

/-- No commit on a store that follows a ledger fails. -/
theorem Follows.commit_frame (hs : s.Follows l) (t : TransactionId) :
    (s.commit t).1 = .ok () ∧ (s.commit t).2.catalog = s.catalog ∧
      (s.commit t).2.locks = (s.locks.releaseAll t).2 ∧
        s.disk.SameOutside s.catalog (s.commit t).2.disk := by
  have h := hs.rewritten.untilError (s.cache.ownedBy t)
  have hok : (s.commit t).1 = .ok () := by
    refine commit_eq_ok hs.sound hs.view fun p => ?_
    have hn := (hs.numbered p).of_sameLengths h.catalog h.outside.sameLengths
    rw [commit]
    split <;> rename_i hu <;> rw [hu] at hn <;> exact hn
  refine ⟨hok, ?_⟩
  rw [commit] at hok ⊢
  split
  · rename_i hu
    rw [hu] at hok
    cases hok
  · rename_i hu
    rw [hu] at h
    exact ⟨h.catalog, by rw [← h.locks]; rfl, h.outside⟩

theorem Follows.view_commit (hs : s.Follows l) (t : TransactionId) (p : PageId) :
    (s.commit t).2.view p = (s.view p).committed t := by
  rcases commit_cases hs.sound t with ⟨-, -, -, -, hv⟩ | ⟨e, _, _, he, -⟩
  · exact hv p
  · rw [(hs.commit_frame t).1] at he
    cases he

/-- Who has committed holds nothing. -/
theorem Follows.mode_commit (hs : s.Follows l) (t : TransactionId) (p : PageId) :
    ((s.commit t).2.view p).mode t = none := by
  rw [hs.view_commit, PageView.committed, PageView.mode_cleared, if_pos rfl]

theorem Alike.commit (h : s.Alike s') (hs : s.Follows l) (hs' : s'.Follows l') (t : TransactionId) :
    (s'.commit t).1 = (s.commit t).1 ∧ (s.commit t).2.Alike (s'.commit t).2 := by
  obtain ⟨hok, hc, hl, ho⟩ := hs.commit_frame t
  obtain ⟨hok', hc', hl', ho'⟩ := hs'.commit_frame t
  refine ⟨hok'.trans hok.symm, hc'.trans (h.catalog.trans hc.symm), ?_, ?_, fun p => ?_⟩
  · rw [hl, hl', h.locks]
  · rw [hc]
    rw [h.catalog] at ho'
    exact (ho.symm.trans h.outside).trans ho'
  · rw [hs.view_commit, hs'.view_commit]
    exact (h.view p).committed (hs.view p) (hs'.view p) t

/-! ## Abort -/

/-- Putting images of pages back changes nothing outside the pages. -/
theorem outside_restoreAll {images : List (PageId × Bytes)} (hs : s.Sound)
    (hi : ∀ entry ∈ images, (s.view entry.1).image ≠ none) :
    s.disk.SameOutside s.catalog (s.restoreAll images).2.disk := by
  induction images generalizing s with
  | nil => exact .refl _ _
  | cons entry images ih =>
      have hrest : ∀ e ∈ images, (s.view e.1).image ≠ none := fun e he => hi e (by simp [he])
      rw [restoreAll]
      split
      · rename_i s₁ h
        have hview := fun p => view_restore (p := p) hs h
        have hs₁ := (restored_restore h).sound hs
        obtain ⟨f, disk, hf, hw, rfl⟩ := restore_eq_ok h
        obtain ⟨old, ho⟩ := Option.ne_none_iff_exists'.1 (hi entry (by simp))
        rw [image_view hf] at ho
        refine (Disk.sameOutside_writeImage hs.catalog hf hw ho).trans (ih hs₁ fun e he => ?_)
        rw [hview]
        split
        · simp
        · exact hrest e he
      · exact ih hs hrest

/-- No abort on a store that follows a ledger fails. -/
theorem Follows.abort_frame (hs : s.Follows l) (t : TransactionId) :
    (s.abort t).1 = .ok () ∧ (s.abort t).2.catalog = s.catalog ∧
      (s.abort t).2.locks = (s.locks.releaseAll t).2 ∧
        s.disk.SameOutside s.catalog (s.abort t).2.disk ∧
          ∀ p, (s.abort t).2.view p = (s.view p).aborted t := by
  have hr : ∀ p image, (s.view p).kept t = some image → s.Restorable p image :=
    fun p _ hk => (hs.view p).kept hk
  have hn := fun p => numberedAt_abort hs.sound hr (hs.numbered p)
  obtain ⟨hd, hc, hl, -, -⟩ := foldl_dropSpoiled (s.spoiled t) s
  have hrestored := restored_restoreAll (s.keptImages t) (s.dropped t)
  refine ⟨abort_eq_ok hs.sound hr hn, (Store.abort_frame hs.sound t).1, ?_, ?_,
    fun p => view_abort hs.sound (hr p) (hn p)⟩
  · rw [abort_eq]
    show (((s.dropped t).restoreAll (s.keptImages t)).2.locks.releaseAll t).2 = _
    rw [hrestored.locks]
    exact congrArg (fun locks => (locks.releaseAll t).2) hl
  · have hinside : ∀ entry ∈ s.keptImages t, ((s.dropped t).view entry.1).image ≠ none :=
      fun entry he => (restorable_dropped.2 (hr entry.1 entry.2 (mem_keptImages.1 he))).1
    have houtside := outside_restoreAll (sound_dropped hs.sound t) hinside
    rw [show (s.dropped t).disk = s.disk from hd, show (s.dropped t).catalog = s.catalog from hc]
      at houtside
    exact houtside

/-- Who was aborted holds nothing. -/
theorem Follows.mode_abort (hs : s.Follows l) (t : TransactionId) (p : PageId) :
    ((s.abort t).2.view p).mode t = none := by
  rw [(hs.abort_frame t).2.2.2.2, PageView.aborted, PageView.mode_cleared, if_pos rfl]

theorem Alike.abort (h : s.Alike s') (hs : s.Follows l) (hs' : s'.Follows l') (t : TransactionId) :
    (s'.abort t).1 = (s.abort t).1 ∧ (s.abort t).2.Alike (s'.abort t).2 := by
  obtain ⟨hok, hc, hl, ho, hv⟩ := hs.abort_frame t
  obtain ⟨hok', hc', hl', ho', hv'⟩ := hs'.abort_frame t
  refine ⟨hok'.trans hok.symm, hc'.trans (h.catalog.trans hc.symm), ?_, ?_, fun p => ?_⟩
  · rw [hl, hl', h.locks]
  · rw [hc]
    rw [h.catalog] at ho'
    exact (ho.symm.trans h.outside).trans ho'
  · rw [hv, hv']
    exact (h.view p).aborted (hs.view p) (hs'.view p) t

end Store

end PagedStore

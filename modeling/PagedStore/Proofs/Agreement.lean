import PagedStore.Proofs.PageView

/-!
# A page agrees with the ledger

A view of a page *agrees* with a ledger (`PageView.Agrees`) if the locks, the
owners, the copy and the images of the page are as the ledger would have it.  Who
has fetched the page for writing holds it in exclusive mode and owns it, and nobody
else does.  As long as an owner has written nothing early the file has the image
that the owner found there, and afterwards this image is kept.

Every turn keeps the agreement (`PageView.Agrees.turn`).
-/

namespace PagedStore.PageView

variable {l l' : Ledger} {v : PageView} {t u : TransactionId}

/-! ## Agreement -/

/-- The page can be the copy of what is in the file. -/
structure Fits (v : PageView) (page : Page) : Prop where
  id : page.id = v.id
  valid : page.Valid
  file : ∃ f, v.file = some f ∧ f.schema = page.schema ∧ f.pageSize = page.pageSize
  image : v.image ≠ none

theorem Fits.anew {v' : PageView} {page : Page} (h : v.Fits page) (hid : v'.id = v.id)
    (hf : v'.file = v.file) (hi : v'.image ≠ none) : v'.Fits page :=
  ⟨h.id.trans hid.symm, h.valid, hf ▸ h.file, hi⟩

/-- The image of the page can be written. -/
theorem Fits.length_encode {page : Page} {f : TableFile} (h : v.Fits page) (hf : v.file = some f) :
    page.encode.length = f.pageSize := by
  obtain ⟨g, hg, -, hp⟩ := h.file
  rw [hf] at hg
  cases hg
  rw [Page.length_encode h.valid, hp]

/-- What the image of the page shows is what the page holds. -/
theorem Fits.shown_encode {page : Page} (h : v.Fits page) :
    v.shown (some page.encode) = some page.content := by
  obtain ⟨f, hf, hs, hp⟩ := h.file
  have hd : Page.decode v.id f.schema f.pageSize page.encode = .ok page.reread := by
    rw [hs, hp, ← h.id]
    exact Page.decode_encode h.valid
  rw [shown_eq hf hd, Page.content_reread]

/-- The view of a page agrees with a ledger. -/
structure Agrees (l : Ledger) (v : PageView) : Prop where
  /-- An exclusive holder is the only one. -/
  alone : ∀ {t u}, v.mode t = some .exclusive → u ≠ t → v.mode u = none
  /-- Who has fetched the page for writing still holds it. -/
  locked : ∀ {t}, l.wrote t v.id = true → v.mode t = some .exclusive
  /-- An owner has fetched the page for writing. -/
  wrote : ∀ {t}, v.Owns t → l.wrote t v.id = true
  /-- Who has fetched the page for writing owns it, unless a commit has failed. -/
  owns : ∀ {t}, l.wrote t v.id = true → l.failed t = false → v.Owns t
  /-- The copy is one of this page. -/
  fits : ∀ {page}, v.copy = some page → v.Fits page
  /-- An image has the size of a page. -/
  sized : ∀ {f image}, v.file = some f → v.image = some image → image.length = f.pageSize
  /-- The before image of the copy is in the file, unless the owner has written early. -/
  fresh : ∀ {page}, v.copy = some page →
    (∀ t, page.owner = some t → v.kept t = none) → v.image = some page.beforeImage
  /-- A copy without an owner shows what is in the file. -/
  clean : ∀ {page}, v.copy = some page → page.owner = none →
    v.shown v.image = some page.content
  /-- An image that is kept can be put back. -/
  kept : ∀ {t image}, v.kept t = some image →
    v.image ≠ none ∧ ∃ f, v.file = some f ∧ image.length = f.pageSize
  /-- An image that is kept is the one that was found. -/
  first : ∀ {t image}, v.kept t = some image → l.failed t = false →
    (l.found t v.id).or v.blank = some image
  /-- While nothing is kept the image that was found is in the file. -/
  held : ∀ {t}, v.mode t = some .exclusive → l.failed t = false → v.kept t = none →
    (l.found t v.id).or v.blank = v.present

namespace Agrees

/-! ## What follows from it -/

/-- An owner holds the page in exclusive mode. -/
theorem mode_of_owns (h : Agrees l v) (ho : v.Owns t) : v.mode t = some .exclusive :=
  h.locked (h.wrote ho)

/-- A page has one owner at most. -/
theorem eq_of_owns (h : Agrees l v) (ht : v.Owns t) (hu : v.Owns u) : u = t := by
  by_contra hne
  have := h.mode_of_owns hu
  rw [h.alone (h.mode_of_owns ht) hne] at this
  cases this

theorem openTo_of_owns (h : Agrees l v) (ht : v.Owns t) : v.OpenTo t :=
  fun _ hu => h.eq_of_owns ht hu

/-- Who holds a page sees no changes of others. -/
theorem openTo_of_mode (h : Agrees l v) (ht : v.mode t ≠ none) : v.OpenTo t := by
  intro u hu
  by_contra hne
  exact ht (h.alone (h.mode_of_owns hu) (Ne.symm hne))

theorem openTo_of_forall_not (ho : ∀ u, ¬ v.Owns u) : v.OpenTo t := fun u hu => absurd hu (ho u)

theorem image_of_owns (h : Agrees l v) (ho : v.Owns t) : v.image ≠ none := by
  rcases ho with ho | ho
  · obtain ⟨page, hc, -⟩ := Option.bind_eq_some_iff.1 ho
    exact (h.fits hc).image
  · obtain ⟨image, hk⟩ := Option.ne_none_iff_exists'.1 ho
    exact (h.kept hk).1

/-- The image of the copy can be written. -/
theorem length_encode (h : Agrees l v) {page : Page} {f : TableFile} (hc : v.copy = some page)
    (hf : v.file = some f) : page.encode.length = f.pageSize :=
  (h.fits hc).length_encode hf

/-- What the image of the copy shows is what the copy holds. -/
theorem shown_encode (h : Agrees l v) {page : Page} (hc : v.copy = some page) :
    v.shown (some page.encode) = some page.content :=
  (h.fits hc).shown_encode

/-- The image before an owner is the one that the owner found. -/
theorem before_eq_found (h : Agrees l v) (ht : v.mode t = some .exclusive)
    (hf : l.failed t = false) : v.before t = (l.found t v.id).or v.blank := by
  cases hk : v.kept t with
  | none => rw [before_of_none hk, h.held ht hf hk]
  | some image => rw [before_of_kept hk, h.first hk hf]

/-! ## The cache and the file -/

/-- It matters only who has written the page, what was found there, and which commits have
failed. -/
theorem congr (h : Agrees l v) (hw : ∀ t, l'.wrote t v.id = l.wrote t v.id)
    (hfound : ∀ t, l'.found t v.id = l.found t v.id) (hfail : ∀ t, l'.failed t = l.failed t) :
    Agrees l' v :=
  { h with
    locked := fun hl => h.locked (by rwa [hw] at hl)
    wrote := fun ho => by rw [hw]; exact h.wrote ho
    owns := fun hl hf => h.owns (by rwa [hw] at hl) (by rwa [hfail] at hf)
    first := fun hk hf => by rw [hfound]; exact h.first hk (by rwa [hfail] at hf)
    held := fun hm hf hk => by rw [hfound]; exact h.held hm (by rwa [hfail] at hf) hk }

theorem elsewhere (h : Agrees l v) (hs : l.SameAt v.id l') : Agrees l' v :=
  h.congr hs.wrote hs.found fun t => by rw [hs.failed]

theorem load (h : Agrees l v) {f : TableFile} {image : Bytes} {page : Page} (hc : v.copy = none)
    (hf : v.file = some f) (hi : v.image = some image)
    (hd : Page.decode v.id f.schema f.pageSize image = .ok page) :
    Agrees l { v with copy := some page } := by
  obtain ⟨hv, hid, hs, hp, hown, hb⟩ := Page.decode_eq_ok hd
  exact { h with
    wrote := fun hw => h.wrote ((owns_load hc hown).1 hw)
    owns := fun hw hl => (owns_load hc hown).2 (h.owns hw hl)
    fits := by
      rintro _ ⟨rfl⟩
      exact ⟨hid, hv, ⟨f, hf, hs.symm, hp.symm⟩, by rw [hi]; simp⟩
    fresh := by
      rintro _ ⟨rfl⟩ -
      rw [hb]
      exact hi
    clean := by
      rintro _ ⟨rfl⟩ -
      show v.shown v.image = _
      rw [hi, shown_eq hf hd] }

/-- A copy leaves the cache, and owners stay owners. -/
theorem uncached (h : Agrees l v) (ho : ∀ t, v.owner? = some t → v.kept t ≠ none) :
    Agrees l { v with copy := none } :=
  { h with
    wrote := fun hw => h.wrote ((owns_uncached ho).1 hw)
    owns := fun hw hl => (owns_uncached ho).2 (h.owns hw hl)
    fits := fun hc => by cases hc
    fresh := fun hc => by cases hc
    clean := fun hc => by cases hc }

/-- The image that is kept once the copy is written was kept before, or is in the file. -/
theorem kept_written (h : Agrees l v) {page : Page} (hc : v.copy = some page)
    (ho : page.owner = some t) {image : Bytes} (hk : (v.written t page).kept u = some image) :
    v.kept u = some image ∨ u = t ∧ v.kept t = none ∧ v.image = some image := by
  simp only [written] at hk
  split at hk
  · rename_i htu
    subst htu
    cases hkt : v.kept t with
    | some old =>
        rw [hkt] at hk
        exact Or.inl hk
    | none =>
        rw [hkt] at hk
        cases hk
        refine Or.inr ⟨rfl, rfl, h.fresh hc fun u hu => ?_⟩
        rw [ho] at hu
        cases hu
        exact hkt
  · exact Or.inl hk

theorem write (h : Agrees l v) {page : Page} (hc : v.copy = some page) (ho : page.owner = some t) :
    Agrees l (v.written t page) := by
  have hm := h.mode_of_owns (Or.inl (by rw [owner?_of_copy hc, ho]))
  have hne : (v.written t page).kept t ≠ none := by
    simp only [written, if_true]
    cases v.kept t <;> simp
  exact { h with
    wrote := fun hw => h.wrote ((owns_written hc ho).1 hw)
    owns := fun hw hl => (owns_written hc ho).2 (h.owns hw hl)
    fits := fun hp => (h.fits hp).anew rfl rfl (by simp [written])
    sized := by
      rintro f _ hf ⟨rfl⟩
      exact h.length_encode hc hf
    fresh := by
      intro p hp hkept
      rw [show p = page from Option.some.inj (hp.symm.trans hc)] at hkept
      exact absurd (hkept t ho) hne
    clean := by
      intro p hp hn
      rw [show p = page from Option.some.inj (hp.symm.trans hc), ho] at hn
      cases hn
    kept := by
      intro u image hk
      refine ⟨by simp [written], ?_⟩
      rcases h.kept_written hc ho hk with hk | ⟨-, -, hi⟩
      · exact (h.kept hk).2
      · obtain ⟨f, hf, -⟩ := (h.fits hc).file
        exact ⟨f, hf, h.sized hf hi⟩
    first := by
      intro u image hk hf
      rcases h.kept_written hc ho hk with hk | ⟨rfl, hn, hi⟩
      · exact h.first hk hf
      · show (l.found u v.id).or v.blank = some image
        rw [h.held hm hf hn, present_of_image hi]
    held := by
      intro u hu hf hkn
      have hut : u ≠ t := by
        rintro rfl
        exact hne hkn
      have := h.alone hm hut
      rw [show v.mode u = some .exclusive from hu] at this
      cases this }

/-- What is not in the file is not in the cache. -/
theorem copy_of_no_image (h : Agrees l v) (hi : v.image = none) : v.copy = none := by
  cases hc : v.copy with
  | none => rfl
  | some page => exact absurd hi (h.fits hc).image

theorem append (h : Agrees l v) (hi : v.image = none) :
    Agrees l { v with image := v.blank } := by
  have hc := h.copy_of_no_image hi
  exact { h with
    fits := fun hp => by rw [show v.copy = _ from hp] at hc; cases hc
    sized := by
      intro f image hf himage
      have : (v.blank : Option Bytes) = some image := himage
      rw [blank, show v.file = some f from hf] at this
      cases this
      exact Bytes.length_zeros _
    fresh := fun hp => by rw [show v.copy = _ from hp] at hc; cases hc
    clean := fun hp => by rw [show v.copy = _ from hp] at hc; cases hc
    kept := fun hk => absurd hi (h.kept hk).1
    held := fun hm hf hk => by
      rw [present_appended hi]
      exact h.held hm hf hk }

/-! ## Locks -/

variable {mode : LockMode}

theorem grant (h : Agrees l v) (hx : mode = .exclusive → ∀ u, u ≠ t → v.mode u = none)
    (hs : mode = .shared → v.mode t = none → ∀ u, v.mode u ≠ some .exclusive) :
    Agrees (l.after (v.lockEvents t mode)) (v.granted t mode) := by
  by_cases he : mode = .exclusive ∧ v.mode t ≠ some .exclusive
  · have hl : l.after (v.lockEvents t mode) = l.record (.locked t v.id v.image) := by
      rw [lockEvents, if_pos he]
      rfl
    have hfound : ∀ u, (l.record (.locked t v.id v.image)).found u v.id =
        if u = t then v.image else l.found u v.id := by
      intro u
      simp only [Ledger.record, and_true]
    rw [hl]
    exact { h with
      alone := alone_granted h.alone hx hs
      locked := fun hw => exclusive_granted (h.locked hw)
      fits := fun hc => (h.fits hc).anew rfl rfl (h.fits hc).image
      first := by
        intro u image hk hf
        have hu : u ≠ t := by
          rintro rfl
          exact he.2 (h.mode_of_owns (Or.inr (by rw [show v.kept u = _ from hk]; simp)))
        show ((l.record (.locked t v.id v.image)).found u v.id).or v.blank = some image
        rw [hfound, if_neg hu]
        exact h.first hk hf
      held := by
        intro u hu hf hk
        show ((l.record (.locked t v.id v.image)).found u v.id).or v.blank = v.present
        rw [hfound]
        split
        · rfl
        · rename_i hne
          rw [mode_granted, if_neg (Ne.symm hne)] at hu
          exact h.held hu hf hk }
  · have hl : l.after (v.lockEvents t mode) = l := by
      rw [lockEvents, if_neg he]
      rfl
    rw [hl]
    exact { h with
      alone := alone_granted h.alone hx hs
      locked := fun hw => exclusive_granted (h.locked hw)
      fits := fun hc => (h.fits hc).anew rfl rfl (h.fits hc).image
      held := fun hu hf hk => h.held (exclusive_of_granted he hu) hf hk }

theorem release (h : Agrees l v) (hw : l.wrote t v.id = false) : Agrees l (v.released t) := by
  have hmode : ∀ {u m}, (v.released t).mode u = some m → v.mode u = some m := by
    intro u m hu
    rw [mode_released] at hu
    exact (Option.ite_none_left_eq_some.1 hu).2
  exact { h with
    alone := by
      intro a b ha hb
      rw [mode_released, h.alone (hmode ha) hb, ite_self]
    locked := by
      intro u hu
      have hne : t ≠ u := by
        rintro rfl
        rw [show l.wrote t v.id = true from hu] at hw
        cases hw
      rw [mode_released, if_neg hne]
      exact h.locked hu
    fits := fun hc => (h.fits hc).anew rfl rfl (h.fits hc).image
    held := fun hm hf hk => h.held (hmode hm) hf hk }

/-! ## The owner -/

/-- A page that a transaction holds in exclusive mode is changed by nobody else. -/
theorem eq_of_mode (h : Agrees l v) (hm : v.mode t = some .exclusive) (ho : v.Owns u) : u = t := by
  by_contra hne
  have := h.mode_of_owns ho
  rw [h.alone hm hne] at this
  cases this

/-- Who fetches the page for writing is then its only owner. -/
theorem owns_take (h : Agrees l v) (page : Page) (hm : v.mode t = some .exclusive) :
    PageView.Owns { v with copy := some (page.withOwner (some t)) } u ↔ u = t := by
  constructor
  · rintro (hu | hu)
    · exact (Option.some.inj hu).symm
    · exact h.eq_of_mode hm (Or.inr hu)
  · rintro rfl
    exact Or.inl rfl

theorem take (h : Agrees l v) {page : Page} (hm : v.mode t = some .exclusive)
    (hc : v.copy = some page) (copy : Page) :
    Agrees (l.record (.fetched t v.id .exclusive copy))
      { v with copy := some (page.withOwner (some t)) } := by
  have ho : ∀ u, PageView.Owns { v with copy := some (page.withOwner (some t)) } u ↔ u = t :=
    fun _ => h.owns_take page hm
  have hw : ∀ u, (l.record (.fetched t v.id .exclusive copy)).wrote u v.id = true ↔
      u = t ∨ l.wrote u v.id = true := by
    intro u
    simp [Ledger.record]
  exact { h with
    locked := by
      intro u hu
      rcases (hw u).1 hu with rfl | hu
      · exact hm
      · exact h.locked hu
    wrote := fun hu => (hw _).2 (Or.inl ((ho _).1 hu))
    owns := by
      intro u hu hf
      rcases (hw u).1 hu with rfl | hu
      · exact (ho u).2 rfl
      · exact (ho u).2 (h.eq_of_mode hm (h.owns hu hf))
    fits := by
      rintro _ ⟨rfl⟩
      have := h.fits hc
      exact ⟨this.id, this.valid.withOwner _, this.file, this.image⟩
    fresh := by
      rintro _ ⟨rfl⟩ hk
      show v.image = some page.beforeImage
      refine h.fresh hc fun u hu => ?_
      rw [h.eq_of_mode hm (Or.inl ((owner?_of_copy hc).trans hu))]
      exact hk t rfl
    clean := by
      rintro _ ⟨rfl⟩ hn
      cases hn }

theorem change (h : Agrees l v) {page page' : Page} {change : Change} (hc : v.copy = some page)
    (ho : page.owner = some t) (hp : change.Made page page') :
    Agrees (l.record (.changed t change)) { v with copy := some page' } := by
  have hs := hp.same
  have howner : page'.owner = page.owner := by rw [hs]
  exact { h with
    wrote := fun hw => h.wrote ((owns_changed hc howner).1 hw)
    owns := fun hw hl => (owns_changed hc howner).2 (h.owns hw hl)
    fits := by
      rintro _ ⟨rfl⟩
      have hf := h.fits hc
      refine ⟨by rw [hs]; exact hf.id, hp.valid hf.valid, ?_, hf.image⟩
      rw [hs]
      exact hf.file
    fresh := by
      rintro _ ⟨rfl⟩ hk
      rw [howner] at hk
      rw [show page'.beforeImage = page.beforeImage by rw [hs]]
      exact h.fresh hc hk
    clean := by
      rintro _ ⟨rfl⟩ hn
      rw [howner, ho] at hn
      cases hn }

/-! ## The end of a transaction -/

/-- After a failed commit, another transaction that has not failed holds the page in exclusive
mode only if the one that failed did not. -/
theorem not_exclusive_of_failed (h : Agrees l v) (hm : v.mode t = some .exclusive)
    (hf : (l.record (.failed t)).failed u = false) : v.mode u ≠ some .exclusive := by
  intro hu
  rw [h.alone hm (Ledger.failed_failed.1 hf).1] at hu
  cases hu

theorem fail (h : Agrees l v) : Agrees (l.record (.failed t)) v :=
  { h with
    owns := fun hw hf => h.owns hw (Ledger.failed_failed.1 hf).2
    first := fun hk hf => h.first hk (Ledger.failed_failed.1 hf).2
    held := fun hm hf => h.held hm (Ledger.failed_failed.1 hf).2 }

/-- The copy is written for good by a commit that fails later. -/
theorem failLate (h : Agrees l v) : Agrees (l.record (.failed t)) (v.saved t) := by
  by_cases ho : v.owner? = some t
  · obtain ⟨page, hc, hpo⟩ := Option.bind_eq_some_iff.1 ho
    have hm := h.mode_of_owns (Or.inl ho)
    have hown : ∀ {u}, (v.saved t).Owns u → v.Owns u := by
      rintro u (hu | hu)
      · rw [owner?_saved, if_pos ho] at hu
        cases hu
      · rw [kept_saved] at hu
        exact Or.inr hu
    rw [saved_of_owner hc hpo] at hown ⊢
    exact { h with
      wrote := fun hu => h.wrote (hown hu)
      owns := fun hw hf => absurd (h.locked hw) (h.not_exclusive_of_failed hm hf)
      fits := by
        rintro _ ⟨rfl⟩
        have : Fits { v with image := some page.encode } page := (h.fits hc).anew rfl rfl (by simp)
        exact ⟨this.id, this.valid.keepImage.withOwner none, this.file, this.image⟩
      sized := by
        rintro f _ hf ⟨rfl⟩
        exact h.length_encode hc hf
      fresh := by
        rintro _ ⟨rfl⟩ -
        rfl
      clean := by
        rintro _ ⟨rfl⟩ -
        exact h.shown_encode hc
      kept := fun hk => ⟨by simp, (h.kept hk).2⟩
      first := h.fail.first
      held := fun hmu hf _ => absurd hmu (h.not_exclusive_of_failed hm hf) }
  · rw [saved_of_ne ho]
    exact h.fail

/-- The image before the owner is put back, and the copy is dropped. -/
theorem undone (h : Agrees l v) (ho : v.Owns t) :
    Agrees (l.record (.failed t)) { v with image := (v.kept t).or v.image, copy := none } := by
  have hm := h.mode_of_owns ho
  exact { h with
    wrote := by
      rintro u (hu | hu)
      · cases hu
      · exact h.wrote (Or.inr hu)
    owns := fun hw hf => absurd (h.locked hw) (h.not_exclusive_of_failed hm hf)
    fits := fun hc => by cases hc
    sized := by
      intro f image hf hi
      cases hk : v.kept t with
      | none =>
          rw [hk] at hi
          exact h.sized hf hi
      | some kept =>
          rw [hk] at hi
          cases hi
          obtain ⟨-, g, hg, hl⟩ := h.kept hk
          rw [show v.file = some f from hf] at hg
          cases hg
          exact hl
    fresh := fun hc => by cases hc
    clean := fun hc => by cases hc
    kept := by
      intro u image hk
      refine ⟨?_, (h.kept hk).2⟩
      obtain ⟨image, hi⟩ := Option.ne_none_iff_exists'.1 (h.image_of_owns ho)
      cases hkt : v.kept t <;> simp [hi]
    first := h.fail.first
    held := fun hmu hf _ => absurd hmu (h.not_exclusive_of_failed hm hf) }

/-- Nothing is left of a transaction that has ended. -/
theorem clear (h : Agrees l v) (ho : v.owner? ≠ some t) : Agrees (l.close t) (v.cleared t) := by
  have hmode : ∀ {u m}, (v.cleared t).mode u = some m → u ≠ t ∧ v.mode u = some m := by
    intro u m hu
    rw [mode_cleared] at hu
    obtain ⟨hne, hm⟩ := Option.ite_none_left_eq_some.1 hu
    exact ⟨Ne.symm hne, hm⟩
  have hkept : ∀ {u image}, (v.cleared t).kept u = some image →
      u ≠ t ∧ v.kept u = some image := by
    intro u image hu
    rw [kept_cleared] at hu
    obtain ⟨hne, hk⟩ := Option.ite_none_left_eq_some.1 hu
    exact ⟨Ne.symm hne, hk⟩
  have howns : ∀ {u}, (v.cleared t).Owns u ↔ t ≠ u ∧ v.Owns u := owns_cleared ho
  exact { h with
    alone := by
      intro a b ha hb
      rw [mode_cleared, h.alone (hmode ha).2 hb, ite_self]
    locked := by
      intro u hu
      obtain ⟨hne, hw⟩ := Ledger.wrote_close.1 hu
      rw [mode_cleared, if_neg (Ne.symm hne)]
      exact h.locked hw
    wrote := by
      intro u hu
      obtain ⟨hne, hown⟩ := howns.1 hu
      exact Ledger.wrote_close.2 ⟨Ne.symm hne, h.wrote hown⟩
    owns := by
      intro u hu hf
      obtain ⟨hne, hw⟩ := Ledger.wrote_close.1 hu
      rw [Ledger.failed_close hne] at hf
      exact howns.2 ⟨Ne.symm hne, h.owns hw hf⟩
    fits := fun hc => (h.fits hc).anew rfl rfl (h.fits hc).image
    fresh := by
      intro page hc hk
      refine h.fresh hc fun u hu => ?_
      have hne : t ≠ u := by
        rintro rfl
        exact ho ((owner?_of_copy hc).trans hu)
      have := hk u hu
      rwa [kept_cleared, if_neg hne] at this
    kept := fun hk => h.kept (hkept hk).2
    first := by
      intro u image hk hf
      obtain ⟨hne, hk⟩ := hkept hk
      rw [Ledger.failed_close hne] at hf
      exact h.first hk hf
    held := by
      intro u hm hf hk
      obtain ⟨hne, hm⟩ := hmode hm
      rw [Ledger.failed_close hne] at hf
      rw [kept_cleared, if_neg (Ne.symm hne)] at hk
      exact h.held hm hf hk }

/-- For a page it is the same whether a commit fails or not, once nothing is left of the
transaction. -/
theorem end_eq (h : Agrees ((l.record (.failed t)).close t) v) (hw : l'.wrote = (l.close t).wrote)
    (hfound : l'.found = l.found) (hfail : l'.failed = (l.close t).failed) : Agrees l' v := by
  refine h.congr (fun u => by rw [hw]; rfl) (fun u => by rw [hfound]; rfl) fun u => ?_
  rw [hfail]
  by_cases hu : u = t
  · simp [Ledger.close, hu]
  · simp [Ledger.close, Ledger.record, hu]

theorem commit (h : Agrees l v) : Agrees (l.record (.committed t)) (v.committed t) := by
  refine (h.failLate.clear ?_).end_eq rfl rfl rfl
  rw [owner?_saved]
  split
  · simp
  · assumption

theorem abort (h : Agrees l v) : Agrees (l.record (.aborted t)) (v.aborted t) := by
  rw [aborted]
  by_cases ho : v.Owns t
  · rw [if_pos ho]
    exact ((h.undone ho).clear (by simp [owner?])).end_eq rfl rfl rfl
  · have hk : v.kept t = none := by
      by_contra hk
      exact ho (Or.inr hk)
    rw [if_neg ho, hk]
    exact h.clear fun hc => ho (Or.inl hc)

/-! ## Turns -/

/-- A turn keeps the agreement. -/
theorem turn {a b : Ledger × PageView} (h : Turn a b) (ha : Agrees a.1 a.2) : Agrees b.1 b.2 := by
  cases h with
  | elsewhere hs => exact ha.elsewhere hs
  | load hc hf hi hd => exact ha.load hc hf hi hd
  | drop hc ho =>
      refine ha.uncached fun t ht => ?_
      rw [owner?_of_copy hc, ho] at ht
      cases ht
  | dropWritten hc ho hk _ =>
      refine ha.uncached fun t ht => ?_
      rw [owner?_of_copy hc, ho] at ht
      cases ht
      exact hk
  | write hc ho => exact ha.write hc ho
  | append _ hi => exact ha.append hi
  | grant t mode hx hs => exact ha.grant hx hs
  | release t hw => exact ha.release hw
  | take copy hm hc => exact ha.take hm hc copy
  | change hc ho hp => exact ha.change hc ho hp
  | commit t => exact ha.commit
  | fail t => exact ha.fail
  | failLate t => exact ha.failLate
  | abort t => exact ha.abort

theorem turns {a b : Ledger × PageView} (h : Turns a b) (ha : Agrees a.1 a.2) : Agrees b.1 b.2 := by
  induction h with
  | refl => exact ha
  | tail _ hs ih => exact turn hs ih

end Agrees

end PagedStore.PageView

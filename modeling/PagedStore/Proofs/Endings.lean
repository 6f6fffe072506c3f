import PagedStore.Proofs.QuietSteps
import PagedStore.Proofs.Agreement

/-!
# Commit and abort

A commit writes the pages of a transaction one after another.  If one cannot be
written those before it are written for good and those after it are as they were
(`Store.commit_cases`).  An abort gives each page the image that is kept of it, if
there is one and it can be put back (`Store.view_abort`).

If every page agrees with a ledger, and the pages can be counted, then neither the
commit nor the abort of any transaction fails (`Store.commit_eq_ok`,
`Store.abort_eq_ok`).
-/

namespace PagedStore.Store

open Std (ExtTreeMap)

variable {s s' s₁ : Store} {p id : PageId} {t : TransactionId}

/-- A page that lies inside its file can be written. -/
theorem exists_writeImage (hs : s.catalog.Sound) {f : TableFile} {image : Bytes}
    (hf : s.catalog.file id.table = .ok f) (hl : image.length = f.pageSize)
    (hi : (s.view id).image ≠ none) (hn : s.NumberedAt id) :
    ∃ disk, s.disk.writeImage f id image = .ok disk := by
  obtain ⟨old, ho⟩ := Option.ne_none_iff_exists'.1 hi
  rw [image_view hf] at ho
  obtain ⟨data, hd⟩ := TableFile.writeImage_of_image? (hn hf) (hs.table hf).symm hl ho
  exact ⟨_, by rw [Disk.writeImage_eq, hd]⟩

/-! ## Writing the pages of a transaction -/

theorem mem_ownedBy : id ∈ s.cache.ownedBy t ↔ (s.view id).owner? = some t := by
  have hcached : id ∈ s.cache.ids ↔ s.cache.page? id ≠ none := by
    rw [Cache.ids, ExtTreeMap.mem_keys, ExtTreeMap.mem_iff_isSome_getElem?, Cache.page?]
    cases s.cache.frames[id]? <;> simp
  rw [Cache.ownedBy, List.mem_filter, hcached, isOwnedBy_iff]
  constructor
  · rintro ⟨-, page, hp, ho⟩
    rw [PageView.owner?_of_copy (v := s.view id) hp, ho]
  · intro h
    obtain ⟨page, hp, ho⟩ := Option.bind_eq_some_iff.1 h
    have hp : s.cache.page? id = some page := hp
    exact ⟨by rw [hp]; simp, page, hp, ho⟩

theorem nodup_ownedBy (c : Cache) (t : TransactionId) : (c.ownedBy t).Nodup :=
  ExtTreeMap.nodup_keys.sublist List.filter_sublist

/-- Some pages of a transaction are written for good. -/
structure Saves (t : TransactionId) (s s' : Store) (done : List PageId) : Prop where
  catalog : s'.catalog = s.catalog
  locks : s'.locks = s.locks
  grows : s.disk.Grows s'.disk
  sound : s'.Sound
  view : ∀ p, s'.view p = if p ∈ done then (s.view p).saved t else s.view p

theorem Saves.nil (hs : s.Sound) (t : TransactionId) : Saves t s s [] :=
  ⟨rfl, rfl, Disk.Grows.refl _, hs, fun _ => by simp⟩

theorem Saves.cons {done : List PageId} (h : Saves t s s₁ [id]) (h' : Saves t s₁ s' done)
    (hd : id ∉ done) : Saves t s s' (id :: done) where
  catalog := h'.catalog.trans h.catalog
  locks := h'.locks.trans h.locks
  grows := h.grows.trans h'.grows
  sound := h'.sound
  view p := by
    have hp := h.view p
    rw [h'.view, hp]
    by_cases he : p = id
    · subst he
      simp [hd]
    · simp [he]

theorem saves_commitPage (hs : s.Sound) (ho : (s.view id).owner? = some t)
    (h : s.commitPage id = .ok s') : Saves t s s' [id] := by
  obtain ⟨page, hc, hown⟩ := Option.bind_eq_some_iff.1 ho
  have hc : s.cache.page? id = some page := hc
  have hid : page.id = id := hs.keyed hc
  rw [commitPage] at h
  rw [hc] at h
  simp only at h
  split at h
  · cases h
  · rename_i s₁ hw
    cases h
    have hview := fun p => view_writeOut (p := p) hs hw
    obtain ⟨f, disk, hf, hd, rfl⟩ := writeOut_eq_ok hw
    refine ⟨rfl, rfl, Disk.grows_of_writeImage hd, ⟨hs.catalog, ?_, hs.indexed⟩, fun p => ?_⟩
    · exact hs.keyed.update fun _ _ => rfl
    · rw [view_update, hview, hid]
      by_cases he : id = p
      · subst he
        rw [if_pos rfl, if_pos rfl, if_pos (by simp), PageView.saved_of_owner hc hown]
        refine PageView.ext rfl rfl rfl ?_ rfl rfl
        show (s.cache.page? id).map _ = _
        rw [hc]
        rfl
      · rw [if_neg he, if_neg he, if_neg (by simp [Ne.symm he])]

/-- Of some pages those that are written for good before one cannot be written. -/
def savedBefore (s : Store) : List PageId → List PageId
  | [] => []
  | id :: ids =>
      match s.commitPage id with
      | .ok s => id :: s.savedBefore ids
      | .error _ => []

/-- The pages of a transaction are written in order, up to the first that cannot be
written. -/
theorem untilError_commitPage (hs : s.Sound) {ids : List PageId} (hn : ids.Nodup)
    (ho : ∀ q ∈ ids, (s.view q).owner? = some t) :
    ((untilError commitPage s ids).1 = .ok () ∧
        Saves t s (untilError commitPage s ids).2 ids) ∨
      ∃ e q rest, (untilError commitPage s ids).1 = .error e ∧
        ids = s.savedBefore ids ++ q :: rest ∧
          Saves t s (untilError commitPage s ids).2 (s.savedBefore ids) ∧
            (untilError commitPage s ids).2.commitPage q = .error e := by
  induction ids generalizing s with
  | nil => exact Or.inl ⟨rfl, .nil hs t⟩
  | cons id ids ih =>
      obtain ⟨hid, hn⟩ := List.nodup_cons.1 hn
      cases hc : s.commitPage id with
      | error e =>
          simp only [untilError, savedBefore, hc]
          exact Or.inr ⟨e, id, ids, rfl, rfl, .nil hs t, hc⟩
      | ok s₁ =>
          simp only [untilError, savedBefore, hc]
          have h₁ := saves_commitPage hs (ho id (by simp)) hc
          have ho₁ : ∀ q ∈ ids, (s₁.view q).owner? = some t := by
            intro q hq
            have hne : q ≠ id := by
              rintro rfl
              exact hid hq
            rw [h₁.view, if_neg (by simpa using hne)]
            exact ho q (by simp [hq])
          rcases ih h₁.sound hn ho₁ with ⟨hr, hsaves⟩ | ⟨e, q, rest, hr, hids, hsaves, hq⟩
          · exact Or.inl ⟨hr, h₁.cons hsaves hid⟩
          · have hd : id ∉ s₁.savedBefore ids := by
              intro hd
              rw [hids] at hid
              exact hid (List.mem_append_left _ hd)
            exact Or.inr ⟨e, q, rest, hr, congrArg (id :: ·) hids, h₁.cons hsaves hd, hq⟩

/-! ## Commit -/

/-- A commit that does not fail commits every page.  One that fails writes the pages of
the transaction up to the one that cannot be written. -/
theorem commit_cases (hs : s.Sound) (t : TransactionId) :
    ((s.commit t).1 = .ok () ∧ (s.commit t).2.catalog = s.catalog ∧
        s.disk.Grows (s.commit t).2.disk ∧ (s.commit t).2.Sound ∧
          ∀ p, (s.commit t).2.view p = (s.view p).committed t) ∨
      ∃ e q rest, (s.commit t).1 = .error e ∧
        s.cache.ownedBy t = s.savedBefore (s.cache.ownedBy t) ++ q :: rest ∧
          Saves t s (s.commit t).2 (s.savedBefore (s.cache.ownedBy t)) ∧
            (s.commit t).2.commitPage q = .error e := by
  have h := untilError_commitPage hs (nodup_ownedBy s.cache t) fun q hq => mem_ownedBy.1 hq
  rw [commit]
  rcases h with ⟨hr, hsaves⟩ | ⟨e, q, rest, hr, hids, hsaves, hq⟩
  · left
    split
    · rename_i e s₁ he
      rw [he] at hr
      cases hr
    · rename_i s₁ he
      rw [he] at hsaves
      refine ⟨rfl, hsaves.catalog, hsaves.grows, ?_, fun p => ?_⟩
      · have := hsaves.sound
        exact ⟨this.catalog, this.keyed, this.indexed.releaseAll t⟩
      · rw [view_forget_releaseAll hsaves.sound.indexed, hsaves.view, PageView.committed]
        by_cases hp : p ∈ s.cache.ownedBy t
        · rw [if_pos hp]
        · rw [if_neg hp, PageView.saved_of_ne fun ho => hp (mem_ownedBy.2 ho)]
  · right
    refine ⟨e, q, rest, ?_⟩
    split
    · rename_i e' s₁ he
      rw [he] at hr hsaves hq
      exact ⟨hr, hids, hsaves, hq⟩
    · rename_i s₁ he
      rw [he] at hr
      cases hr

/-- A page that fits its file can be written. -/
theorem exists_writeOut {page : Page} (hs : s.Sound) (hfits : (s.view id).Fits page)
    (hn : s.NumberedAt id) : ∃ s', s.writeOut page = .ok s' := by
  obtain ⟨f, hf, -⟩ := hfits.file
  have hid : page.id = id := hfits.id
  obtain ⟨disk, hd⟩ :=
    exists_writeImage hs.catalog (file_of_view hf) (hfits.length_encode hf) hfits.image hn
  refine ⟨{ s with disk }.count .pagesWritten, ?_⟩
  simp only [writeOut, hid, file_of_view hf, Disk.writePage, hd]

/-- A page that agrees with a ledger can be written for good. -/
theorem exists_commitPage {l : Ledger} (hs : s.Sound) (ha : PageView.Agrees l (s.view id))
    (hn : s.NumberedAt id) : ∃ s', s.commitPage id = .ok s' := by
  rw [commitPage]
  split
  · exact ⟨s, rfl⟩
  · rename_i page hc
    obtain ⟨s₁, hw⟩ := exists_writeOut hs (ha.fits hc) hn
    exact ⟨_, by rw [hw]⟩

/-- No commit fails as long as every page agrees with a ledger. -/
theorem commit_eq_ok {l : Ledger} (hs : s.Sound) (ha : ∀ p, PageView.Agrees l (s.view p))
    (hn : ∀ p, (s.commit t).2.NumberedAt p) : (s.commit t).1 = .ok () := by
  rcases commit_cases hs t with ⟨hr, -⟩ | ⟨e, q, rest, -, hids, hsaves, hq⟩
  · exact hr
  · exfalso
    have hd : q ∉ s.savedBefore (s.cache.ownedBy t) := by
      intro hd
      have hnodup := nodup_ownedBy s.cache t
      rw [hids] at hnodup
      exact (List.nodup_append.1 hnodup).2.2 q hd q (by simp) rfl
    have hview := hsaves.view q
    rw [if_neg hd] at hview
    obtain ⟨s', hok⟩ := exists_commitPage hsaves.sound (hview ▸ ha q) (hn q)
    rw [hq] at hok
    cases hok

/-! ## Putting images back -/

/-- An image can be put back into the file of a page. -/
def Restorable (s : Store) (id : PageId) (image : Bytes) : Prop :=
  (s.view id).image ≠ none ∧ ∃ f, (s.view id).file = some f ∧ image.length = f.pageSize

theorem restore_eq_ok {image : Bytes} (h : s.restore id image = .ok s') :
    ∃ f disk, s.catalog.file id.table = .ok f ∧ s.disk.writeImage f id image = .ok disk ∧
      s' = { s with disk }.count .pagesWritten := by
  rw [restore] at h
  split at h
  · cases h
  · rename_i f hf
    split at h
    · cases h
    · rename_i disk hw
      cases h
      exact ⟨f, disk, hf, hw, rfl⟩

theorem exists_restore (hs : s.Sound) {image : Bytes} (h : s.Restorable id image)
    (hn : s.NumberedAt id) : ∃ s', s.restore id image = .ok s' := by
  obtain ⟨hi, f, hf, hl⟩ := h
  obtain ⟨disk, hd⟩ := exists_writeImage hs.catalog (file_of_view hf) hl hi hn
  refine ⟨{ s with disk }.count .pagesWritten, ?_⟩
  simp only [restore, file_of_view hf, hd]

/-- Only files are changed, and none gets shorter. -/
structure Restored (s s' : Store) : Prop where
  catalog : s'.catalog = s.catalog
  locks : s'.locks = s.locks
  cache : s'.cache = s.cache
  grows : s.disk.Grows s'.disk

theorem Restored.sound (h : Restored s s') (hs : s.Sound) : s'.Sound :=
  ⟨h.catalog ▸ hs.catalog, h.cache ▸ hs.keyed, h.locks ▸ hs.indexed⟩

theorem Restored.trans {s'' : Store} (h : Restored s s') (h' : Restored s' s'') :
    Restored s s'' :=
  ⟨h'.catalog.trans h.catalog, h'.locks.trans h.locks, h'.cache.trans h.cache,
    h.grows.trans h'.grows⟩

theorem restored_restore {image : Bytes} (h : s.restore id image = .ok s') : Restored s s' := by
  obtain ⟨f, disk, -, hw, rfl⟩ := restore_eq_ok h
  exact ⟨rfl, rfl, rfl, Disk.grows_of_writeImage hw⟩

theorem view_restore (hs : s.Sound) {image : Bytes} (h : s.restore id image = .ok s') :
    s'.view p = if id = p then { s.view p with image := some image } else s.view p := by
  obtain ⟨f, disk, hf, hw, rfl⟩ := restore_eq_ok h
  exact view_writeImage hs.catalog hf hw

theorem restored_restoreAll (images : List (PageId × Bytes)) (s : Store) :
    Restored s (s.restoreAll images).2 := by
  induction images generalizing s with
  | nil => exact ⟨rfl, rfl, rfl, Disk.Grows.refl _⟩
  | cons entry images ih =>
      rw [restoreAll]
      split
      · rename_i s₁ h
        exact (restored_restore h).trans (ih s₁)
      · exact ih s

/-- Images of other pages do not matter for a page. -/
theorem view_restoreAll_of_not_mem {images : List (PageId × Bytes)} (hs : s.Sound)
    (hp : ∀ entry ∈ images, entry.1 ≠ p) : (s.restoreAll images).2.view p = s.view p := by
  induction images generalizing s with
  | nil => rfl
  | cons entry images ih =>
      have hrest : ∀ entry ∈ images, entry.1 ≠ p := fun e he => hp e (by simp [he])
      rw [restoreAll]
      split
      · rename_i s₁ h
        rw [ih ((restored_restore h).sound hs) hrest, view_restore hs h,
          if_neg (hp entry (by simp))]
      · exact ih hs hrest

/-- An image that can be put back is put back. -/
theorem view_restoreAll_of_mem {images : List (PageId × Bytes)} (hs : s.Sound)
    (hd : images.Pairwise fun a b => a.1 ≠ b.1) {image : Bytes} (hm : (p, image) ∈ images)
    (hr : s.Restorable p image) (hn : (s.restoreAll images).2.NumberedAt p) :
    (s.restoreAll images).2.view p = { s.view p with image := some image } := by
  induction images generalizing s with
  | nil => cases hm
  | cons entry images ih =>
      obtain ⟨hfirst, hd⟩ := List.pairwise_cons.1 hd
      have hrestored := restored_restoreAll (entry :: images) s
      have hnow : s.NumberedAt p := hn.of_grows hrestored.catalog hrestored.grows
      rcases List.mem_cons.1 hm with rfl | hm
      · -- The image is the first one, and those after it are of other pages.
        obtain ⟨s₁, h⟩ := exists_restore hs hr hnow
        rw [restoreAll, h]
        simp only
        rw [view_restoreAll_of_not_mem ((restored_restore h).sound hs)
          fun e he => (hfirst e he).symm, view_restore hs h, if_pos rfl]
      · have hne : entry.1 ≠ p := hfirst _ hm
        rw [restoreAll] at hn ⊢
        split at hn
        · rename_i s₁ h
          have hview : s₁.view p = s.view p := by rw [view_restore hs h, if_neg hne]
          rw [ih ((restored_restore h).sound hs) hd hm (by rwa [Restorable, hview]) hn, hview]
        · exact ih hs hd hm hr hn

theorem restoreAll_eq_ok {images : List (PageId × Bytes)} (hs : s.Sound)
    (hr : ∀ entry ∈ images, s.Restorable entry.1 entry.2)
    (hn : ∀ entry ∈ images, (s.restoreAll images).2.NumberedAt entry.1) :
    (s.restoreAll images).1 = .ok () := by
  induction images generalizing s with
  | nil => rfl
  | cons entry images ih =>
      have hrestored := restored_restoreAll (entry :: images) s
      have hnow := (hn entry (by simp)).of_grows hrestored.catalog hrestored.grows
      obtain ⟨s₁, h⟩ := exists_restore hs (hr entry (by simp)) hnow
      rw [restoreAll, h] at hn ⊢
      refine ih ((restored_restore h).sound hs) (fun e he => ?_) fun e he => hn e (by simp [he])
      obtain ⟨hi, hf⟩ := hr e (by simp [he])
      rw [Restorable, view_restore hs h]
      split
      · exact ⟨by simp, hf⟩
      · exact ⟨hi, hf⟩

/-- Putting images of pages back keeps the lengths of the files. -/
theorem sameLengths_restoreAll {images : List (PageId × Bytes)} (hs : s.Sound)
    (hi : ∀ entry ∈ images, (s.view entry.1).image ≠ none) :
    s.disk.SameLengths (s.restoreAll images).2.disk := by
  induction images generalizing s with
  | nil => exact fun _ => rfl
  | cons entry images ih =>
      have hrest : ∀ e ∈ images, (s.view e.1).image ≠ none := fun e he => hi e (by simp [he])
      rw [restoreAll]
      split
      · rename_i s₁ h
        have hview := fun p => view_restore (p := p) hs h
        have hs₁ := (restored_restore h).sound hs
        obtain ⟨f, disk, hf, hw, rfl⟩ := restore_eq_ok h
        obtain ⟨data, hdata, rfl⟩ := Disk.writeImage_eq_ok hw
        obtain ⟨old, ho⟩ := Option.ne_none_iff_exists'.1 (hi entry (by simp))
        rw [image_view hf] at ho
        have hfirst := Disk.sameLengths_setContents (TableFile.length_of_writeImage hdata ho)
        refine fun name => (ih hs₁ (fun e he => ?_) name).trans (hfirst name)
        rw [hview]
        split
        · simp
        · exact hrest e he
      · exact ih hs hrest

/-! ## Abort -/

theorem mem_spoiled : id ∈ s.spoiled t ↔ s.cache.page? id ≠ none ∧ (s.view id).Owns t := by
  have hcached : id ∈ s.cache.ids ↔ s.cache.page? id ≠ none := by
    rw [Cache.ids, ExtTreeMap.mem_keys, ExtTreeMap.mem_iff_isSome_getElem?, Cache.page?]
    cases s.cache.frames[id]? <;> simp
  have howned : s.cache.isOwnedBy t id = true ↔ (s.view id).owner? = some t := by
    rw [isOwnedBy_iff]
    exact Option.bind_eq_some_iff.symm
  have hkept : (s.cache.keptFor t).contains id = true ↔ (s.view id).kept t ≠ none := by
    show _ ↔ (s.cache.keptFor t)[id]? ≠ none
    rw [ExtTreeMap.contains_iff_mem, ExtTreeMap.mem_iff_isSome_getElem?, Option.isSome_iff_ne_none]
  rw [spoiled, List.mem_filter, hcached, Bool.or_eq_true, howned, hkept]
  rfl

/-- The copies of some pages are dropped. -/
theorem foldl_dropSpoiled (ids : List PageId) (s : Store) :
    (ids.foldl dropSpoiled s).disk = s.disk ∧ (ids.foldl dropSpoiled s).catalog = s.catalog ∧
      (ids.foldl dropSpoiled s).locks = s.locks ∧
        (s.cache.Keyed → (ids.foldl dropSpoiled s).cache.Keyed) ∧
          ∀ p, (ids.foldl dropSpoiled s).view p =
            { s.view p with copy := if p ∈ ids then none else (s.view p).copy } := by
  induction ids generalizing s with
  | nil =>
      refine ⟨rfl, rfl, rfl, fun h => h, fun p => ?_⟩
      rw [if_neg (by simp)]
      rfl
  | cons id ids ih =>
      obtain ⟨hd, hc, hl, hk, hv⟩ := ih (s.dropSpoiled id)
      have hview : ∀ p, (s.dropSpoiled id).view p =
          if id = p then { s.view p with copy := none } else s.view p := view_drop s id
      refine ⟨hd, hc, hl, fun h => hk (h.drop id), fun p => ?_⟩
      rw [List.foldl_cons, hv, hview]
      by_cases he : p = id
      · subst he
        simp
      · simp [he, Ne.symm he]

/-- The store that an abort leaves before it puts images back: the copies with changes are
dropped. -/
def dropped (s : Store) (t : TransactionId) : Store :=
  ((s.spoiled t).foldl dropSpoiled s).onCache fun c => c.forget t

theorem view_dropped (s : Store) (t : TransactionId) (p : PageId) :
    (s.dropped t).view p =
      { s.view p with
        copy := if (s.view p).Owns t then none else (s.view p).copy
        kept := fun u => if t = u then none else (s.view p).kept u } := by
  obtain ⟨-, -, -, -, hfold⟩ := foldl_dropSpoiled (s.spoiled t) s
  have hview : ∀ q, (s.dropped t).view q = { ((s.spoiled t).foldl dropSpoiled s).view q with
      kept := fun u => if t = u then none
        else (((s.spoiled t).foldl dropSpoiled s).view q).kept u } := by
    intro q
    refine PageView.ext rfl rfl rfl rfl (funext fun u => ?_) rfl
    show ((((s.spoiled t).foldl dropSpoiled s).cache.forget t).keptFor u)[q]? = if t = u then none
      else (((s.spoiled t).foldl dropSpoiled s).cache.keptFor u)[q]?
    rw [Cache.keptFor_forget]
    split
    · exact ExtTreeMap.getElem?_empty
    · rfl
  have hcopy : (if p ∈ s.spoiled t then none else (s.view p).copy) =
      if (s.view p).Owns t then none else (s.view p).copy := by
    by_cases hm : p ∈ s.spoiled t
    · rw [if_pos hm, if_pos (mem_spoiled.1 hm).2]
    · rw [if_neg hm]
      split
      · rename_i ho
        by_contra hc
        exact hm (mem_spoiled.2 ⟨hc, ho⟩)
      · rfl
  rw [hview, hfold, hcopy]

theorem sound_dropped (hs : s.Sound) (t : TransactionId) : (s.dropped t).Sound := by
  obtain ⟨-, hc, hl, hk, -⟩ := foldl_dropSpoiled (s.spoiled t) s
  refine ⟨?_, hk hs.keyed, ?_⟩
  · show (((s.spoiled t).foldl dropSpoiled s).catalog).Sound
    rw [hc]
    exact hs.catalog
  · show (((s.spoiled t).foldl dropSpoiled s).locks).Indexed
    rw [hl]
    exact hs.indexed

/-- The images that an abort puts back. -/
def keptImages (s : Store) (t : TransactionId) : List (PageId × Bytes) := (s.cache.keptFor t).toList

theorem mem_keptImages {image : Bytes} :
    (p, image) ∈ s.keptImages t ↔ (s.view p).kept t = some image :=
  ExtTreeMap.mem_toList_iff_getElem?_eq_some

theorem pairwise_keptImages (s : Store) (t : TransactionId) :
    (s.keptImages t).Pairwise fun a b => a.1 ≠ b.1 := by
  refine ExtTreeMap.distinct_keys_toList.imp fun h he => h ?_
  exact Std.LawfulEqCmp.compare_eq_iff_eq.2 he

theorem abort_eq (s : Store) (t : TransactionId) :
    s.abort t = (((s.dropped t).restoreAll (s.keptImages t)).1,
      ((s.dropped t).restoreAll (s.keptImages t)).2.releaseAll t) := rfl

theorem abort_frame (hs : s.Sound) (t : TransactionId) :
    (s.abort t).2.catalog = s.catalog ∧ s.disk.Grows (s.abort t).2.disk ∧ (s.abort t).2.Sound := by
  obtain ⟨hd, hc, -, -, -⟩ := foldl_dropSpoiled (s.spoiled t) s
  have hr := restored_restoreAll (s.keptImages t) (s.dropped t)
  have hsound := hr.sound (sound_dropped hs t)
  have hgrows := hr.grows
  rw [show (s.dropped t).disk = s.disk from hd] at hgrows
  exact ⟨hr.catalog.trans hc, hgrows,
    ⟨hsound.catalog, hsound.keyed, hsound.indexed.releaseAll t⟩⟩

theorem view_releaseAll (hs : s.locks.Indexed) (t : TransactionId) (p : PageId) :
    (s.releaseAll t).view p =
      { s.view p with mode := fun u => if t = u then none else (s.view p).mode u } :=
  PageView.ext rfl rfl rfl rfl rfl (funext fun u => LockTable.modeOf?_releaseAll hs t p u)

theorem restorable_dropped {image : Bytes} :
    (s.dropped t).Restorable p image ↔ s.Restorable p image := by
  rw [Restorable, Restorable, view_dropped]

/-- What an abort does to a page whose kept image can be put back. -/
theorem view_abort (hs : s.Sound)
    (hr : ∀ image, (s.view p).kept t = some image → s.Restorable p image)
    (hn : (s.abort t).2.NumberedAt p) : (s.abort t).2.view p = (s.view p).aborted t := by
  have hd := sound_dropped hs t
  have hafter := (restored_restoreAll (s.keptImages t) (s.dropped t)).sound hd
  rw [abort_eq] at hn ⊢
  have himages : ((s.dropped t).restoreAll (s.keptImages t)).2.view p =
      { (s.dropped t).view p with image := ((s.view p).kept t).or (s.view p).image } := by
    cases hk : (s.view p).kept t with
    | some image =>
        exact view_restoreAll_of_mem hd (pairwise_keptImages s t) (mem_keptImages.2 hk)
          (restorable_dropped.2 (hr image hk)) hn
    | none =>
        rw [view_restoreAll_of_not_mem hd]
        · rw [view_dropped]
          rfl
        · rintro ⟨q, image⟩ he rfl
          rw [mem_keptImages, hk] at he
          cases he
  rw [view_releaseAll hafter.indexed, himages, view_dropped]
  rfl

theorem numberedAt_abort (hs : s.Sound)
    (hr : ∀ p image, (s.view p).kept t = some image → s.Restorable p image)
    (hn : s.NumberedAt p) : (s.abort t).2.NumberedAt p := by
  intro f hf
  rw [(abort_frame hs t).1] at hf
  have hsame : (s.dropped t).disk.SameLengths (s.abort t).2.disk :=
    sameLengths_restoreAll (sound_dropped hs t) fun entry he =>
      (restorable_dropped.2 (hr entry.1 entry.2 (mem_keptImages.1 he))).1
  have hl := hsame f.name
  rw [show (s.dropped t).disk = s.disk from (foldl_dropSpoiled (s.spoiled t) s).1] at hl
  exact (hn hf).of_length_le (Nat.le_of_eq hl)

theorem abort_eq_ok (hs : s.Sound)
    (hr : ∀ p image, (s.view p).kept t = some image → s.Restorable p image)
    (hn : ∀ p, (s.abort t).2.NumberedAt p) : (s.abort t).1 = .ok () := by
  rw [abort_eq]
  refine restoreAll_eq_ok (sound_dropped hs t) (fun entry he => ?_) fun entry _ => hn entry.1
  exact restorable_dropped.2 (hr entry.1 entry.2 (mem_keptImages.1 he))

end PagedStore.Store

import PagedStore.Proofs.FilePages
import PagedStore.Proofs.PageView
import PagedStore.Store.Finish

/-!
# The pages of a store

What a store has of each page (`Store.view`), and what becomes of it when an image
is written to a file or the cache is changed.

This needs a *sound* store (`Store.Sound`).  A table of the catalog is registered
under the identity of its file and has a file of its own, so writing an image
changes one page only.  A cached page is found under its own identity, and the lock
table is indexed.
-/

namespace PagedStore

open Std (ExtTreeMap)

/-! ## The cache -/

namespace Cache

/-- Each page is cached under its own identity. -/
def Keyed (c : Cache) : Prop := ∀ ⦃p : PageId⦄ ⦃page : Page⦄, c.page? p = some page → page.id = p

@[simp] theorem keptFor_update (c : Cache) (id : PageId) (f : Page → Page) (t : TransactionId) :
    (c.update id f).keptFor t = c.keptFor t := rfl

@[simp] theorem keptFor_load (c : Cache) (page : Page) (t : TransactionId) :
    (c.load page).keptFor t = c.keptFor t := rfl

@[simp] theorem keptFor_drop (c : Cache) (id : PageId) (t : TransactionId) :
    (c.drop id).keptFor t = c.keptFor t := by
  rw [drop]
  split <;> rfl

theorem keptFor_forget (c : Cache) (t u : TransactionId) :
    (c.forget t).keptFor u = if t = u then ∅ else c.keptFor u := by
  simp only [keptFor, forget, ExtTreeMap.getD_erase, Std.LawfulEqCmp.compare_eq_iff_eq]

theorem keyed_empty : (∅ : Cache).Keyed := by
  intro p page h
  have : (∅ : Cache).page? p = none := by
    show ((∅ : ExtTreeMap PageId Frame)[p]?).map Frame.page = none
    simp
  rw [this] at h
  cases h

theorem Keyed.load {c : Cache} (h : c.Keyed) (page : Page) : (c.load page).Keyed := by
  intro p q hp
  rw [page?_load] at hp
  split at hp
  · rename_i he
    rw [← Option.some.inj hp, he]
  · exact h hp

theorem Keyed.drop {c : Cache} (h : c.Keyed) (id : PageId) : (c.drop id).Keyed := by
  intro p q hp
  rw [page?_drop] at hp
  split at hp
  · cases hp
  · exact h hp

theorem Keyed.update {c : Cache} (h : c.Keyed) {id : PageId} {f : Page → Page}
    (hf : ∀ page, c.page? id = some page → (f page).id = page.id) : (c.update id f).Keyed := by
  intro p q hp
  rw [page?_update] at hp
  split at hp
  · rename_i he
    obtain ⟨page, hc, rfl⟩ := Option.map_eq_some_iff.1 hp
    rw [hf page (he ▸ hc), h hc]
  · exact h hp

end Cache

/-! ## The catalog -/

/-- Tables are registered under the identities of their files, and have different files. -/
structure Catalog.Sound (c : Catalog) : Prop where
  table : ∀ {t f}, c.file t = .ok f → f.table = t
  apart : ∀ {t u f g}, c.file t = .ok f → c.file u = .ok g → f.name = g.name → t = u

namespace Store

/-- The store is well-formed. -/
structure Sound (s : Store) : Prop where
  catalog : s.catalog.Sound
  keyed : s.cache.Keyed
  indexed : s.locks.Indexed

/-- The pages in the file of a page's table can be counted with 32 bits. -/
def NumberedAt (s : Store) (p : PageId) : Prop :=
  ∀ ⦃f⦄, s.catalog.file p.table = .ok f → f.Numbered (s.disk.contents f)

/-- What a store has of a page. -/
def view (s : Store) (p : PageId) : PageView where
  id := p
  file := (s.catalog.file p.table).toOption
  image := (s.catalog.file p.table).toOption.bind fun f => f.image? (s.disk.contents f) p.number
  copy := s.cache.page? p
  kept t := (s.cache.keptFor t)[p]?
  mode t := s.locks.modeOf? p t

variable {s s' : Store} {p id : PageId} {t : TransactionId}

@[simp] theorem id_view : (s.view p).id = p := rfl

theorem file_view {f : TableFile} (h : s.catalog.file p.table = .ok f) :
    (s.view p).file = some f := by
  rw [view, h]
  rfl

theorem file_of_view {f : TableFile} (h : (s.view p).file = some f) :
    s.catalog.file p.table = .ok f := by
  rw [view] at h
  simp only at h
  cases hf : s.catalog.file p.table with
  | error e =>
      rw [hf] at h
      cases h
  | ok g =>
      rw [hf] at h
      cases h
      rfl

theorem image_view {f : TableFile} (h : s.catalog.file p.table = .ok f) :
    (s.view p).image = f.image? (s.disk.contents f) p.number := by
  rw [view, h]
  rfl

theorem NumberedAt.of_grows (h : s'.NumberedAt p) (hc : s'.catalog = s.catalog)
    (hd : s.disk.Grows s'.disk) : s.NumberedAt p := by
  intro f hf
  exact (h (hc ▸ hf)).of_length_le (hd f.name)

/-! ## Views after each change -/

/-- Writing an image changes what the store has of one page. -/
theorem view_writeImage (hs : s.catalog.Sound) {f : TableFile} {image : Bytes} {disk : Disk}
    (hf : s.catalog.file id.table = .ok f) (hw : s.disk.writeImage f id image = .ok disk) :
    view { s with disk } p =
      if id = p then { s.view p with image := some image } else s.view p := by
  obtain ⟨data, hdata, rfl⟩ := Disk.writeImage_eq_ok hw
  have himage := TableFile.image?_of_writeImage hdata
  by_cases hid : id = p
  · subst hid
    rw [if_pos rfl]
    refine PageView.ext rfl rfl ?_ rfl rfl rfl
    rw [image_view (s := { s with disk := s.disk.setContents f data }) hf]
    show f.image? ((s.disk.setContents f data).contents f) id.number = some image
    rw [Disk.contents_setContents, himage, if_pos rfl]
  · rw [if_neg hid]
    refine PageView.ext rfl rfl ?_ rfl rfl rfl
    show Option.bind (s.catalog.file p.table).toOption _ = Option.bind _ _
    cases hg : s.catalog.file p.table with
    | error e => rfl
    | ok g =>
        show g.image? ((s.disk.setContents f data).contents g) p.number = _
        rw [Disk.contents_setContents_eq]
        split
        · rename_i hname
          -- The same file means the same table, so the pages differ in their numbers.
          have htable := hs.apart hf hg hname
          rw [htable, hg] at hf
          cases hf
          have hne : id.number ≠ p.number := by
            intro hn
            exact hid (by cases id; cases p; simp_all)
          rw [himage, if_neg hne]
          rfl
        · rfl

theorem view_onCache (s : Store) (f : Cache → Cache) (p : PageId) :
    (s.onCache f).view p = { s.view p with
      copy := (f s.cache).page? p
      kept := fun t => ((f s.cache).keptFor t)[p]? } := rfl

/-- A page leaves the cache. -/
theorem view_drop (s : Store) (id p : PageId) :
    (s.onCache fun c => c.drop id).view p =
      if id = p then { s.view p with copy := none } else s.view p := by
  rw [view_onCache]
  simp only [Cache.page?_drop, Cache.keptFor_drop]
  split <;> rfl

/-- A page is put into the cache. -/
theorem view_load (s : Store) (page : Page) (p : PageId) :
    (s.onCache fun c => c.load page).view p =
      if page.id = p then { s.view p with copy := some page } else s.view p := by
  rw [view_onCache]
  simp only [Cache.page?_load, Cache.keptFor_load]
  split <;> rfl

/-- A cached page is changed. -/
theorem view_update (s : Store) (id : PageId) (f : Page → Page) (p : PageId) :
    (s.onCache fun c => c.update id f).view p =
      if id = p then { s.view p with copy := (s.view p).copy.map f } else s.view p := by
  rw [view_onCache]
  simp only [Cache.page?_update, Cache.keptFor_update]
  split <;> rfl

/-- A before image is kept, unless one is kept already. -/
theorem view_keep (s : Store) (o : TransactionId) (id : PageId) (image : Bytes) (p : PageId) :
    (s.onCache fun c => c.keep o id image).view p =
      if id = p then { s.view p with
        kept := fun t => if o = t then ((s.view p).kept o).or (some image) else (s.view p).kept t }
      else s.view p := by
  rw [view_onCache]
  simp only [Cache.page?_keep, Cache.keptFor_keep]
  split
  · rename_i hid
    subst hid
    refine PageView.ext rfl rfl rfl rfl (funext fun t => ?_) rfl
    show (if o = t ∧ id = id ∧ (s.cache.keptFor o)[id]? = none then some image
      else (s.cache.keptFor t)[id]?) =
        if o = t then (s.cache.keptFor o)[id]?.or (some image) else (s.cache.keptFor t)[id]?
    by_cases ht : o = t
    · subst ht
      cases (s.cache.keptFor o)[id]? <;> simp
    · simp [ht]
  · rename_i hid
    refine PageView.ext rfl rfl rfl rfl (funext fun t => ?_) rfl
    simp only [hid, false_and, and_false, if_false]
    rfl

/-- The images kept for a transaction are forgotten, and its locks are released. -/
theorem view_forget_releaseAll (hs : s.locks.Indexed) (t : TransactionId) (p : PageId) :
    ((s.onCache fun c => c.forget t).releaseAll t).view p = (s.view p).cleared t := by
  refine PageView.ext rfl rfl rfl rfl (funext fun u => ?_) (funext fun u => ?_)
  · show ((s.cache.forget t).keptFor u)[p]? = if t = u then none else (s.cache.keptFor u)[p]?
    rw [Cache.keptFor_forget]
    split
    · exact ExtTreeMap.getElem?_empty
    · rfl
  · exact LockTable.modeOf?_releaseAll hs t p u

/-! ## Seeing to a page -/

theorem page?_of_not_isCached {s : Store} {id : PageId} (h : ¬ s.cache.isCached id = true) :
    s.cache.page? id = none := by
  rw [Cache.isCached, ExtTreeMap.contains_iff_mem] at h
  rw [Cache.page?, ExtTreeMap.getElem?_eq_none h]
  rfl

/-- What comes of seeing to it that a page is cached. -/
inductive Ensured (s : Store) (t : TransactionId) (f : TableFile) (id : PageId) :
    Except StoreError Unit × Store → Prop
  /-- It is cached. -/
  | hit : s.cache.isCached id = true → Ensured s t f id (.ok (), s.count .hits)
  /-- There is no room for it. -/
  | crowded {e : StoreError} : Ensured s t f id (.error e, s.count .misses)
  /-- There is room for it, but it cannot be read. -/
  | unread {s₁ : Store} {e : StoreError} :
      (s.count .misses).makeRoom t = .ok s₁ → Ensured s t f id (.error e, s₁)
  /-- It is read. -/
  | read {s₁ : Store} {page : Page} :
      s.cache.page? id = none → (s.count .misses).makeRoom t = .ok s₁ →
        s₁.disk.readPage f id = .ok page →
          Ensured s t f id (.ok (), (s₁.count .pagesRead).onCache fun c => c.load page)

theorem ensured (s : Store) (t : TransactionId) (f : TableFile) (id : PageId) :
    Ensured s t f id (s.ensureCached t f id) := by
  rw [ensureCached]
  split
  · rename_i hc
    exact .hit hc
  · rename_i hc
    rw [Store.read]
    split
    · exact .crowded
    · rename_i s₁ hr
      split
      · exact .unread hr
      · rename_i page hp
        exact .read (page?_of_not_isCached hc) hr hp

end Store

end PagedStore

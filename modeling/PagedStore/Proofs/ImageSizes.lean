import PagedStore.Proofs.CurrentPages
import PagedStore.Proofs.IntactPages

/-!
# The sizes of images

A cached page carries the image that it had before its changes, and when the page is written
early this image is kept.  All these images have the size of a page, in whatever store a run leads
to (`Traffic.Sized.step`, `Traffic.Sized.write`).  Tables may be replaced and files may be changed
on the way, in any manner, as long as the files of the tables that are registered have one page
size.  A page comes in with the image that it is read from, and gets another one when it is
written for good.  Both times the file sees to it that the image has the size of a page.
-/

namespace PagedStore

open Std (ExtTreeMap)

variable {size : Nat}

/-- The files of all tables have a page size. -/
def Catalog.OfSize (c : Catalog) (size : Nat) : Prop :=
  ∀ ⦃t f⦄, c.file t = .ok f → f.pageSize = size

/-! ## The cache -/

namespace Cache

variable {c : Cache} {id : PageId} {page : Page} {f : Page → Page} {t : TransactionId}
  {image : Bytes}

/-- The before images have the size of a page, those of the cached pages and those that are
kept. -/
structure Sized (size : Nat) (c : Cache) : Prop where
  before : ∀ ⦃id page⦄, c.page? id = some page → page.beforeImage.length = size
  kept : ∀ ⦃t⦄ ⦃id : PageId⦄ ⦃image : Bytes⦄,
    (c.keptFor t)[id]? = some image → image.length = size

namespace Sized

theorem empty (size : Nat) : (∅ : Cache).Sized size where
  before id page hp := by
    have hnone : (∅ : Cache).page? id = none := rfl
    rw [hnone] at hp
    cases hp
  kept t id image hk := by
    have hnone : ((∅ : Cache).keptFor t)[id]? = none := rfl
    rw [hnone] at hk
    cases hk

theorem load (h : c.Sized size) (hp : page.beforeImage.length = size) :
    (c.load page).Sized size where
  before id q hq := by
    rw [page?_load] at hq
    split at hq
    · cases hq
      exact hp
    · exact h.before hq
  kept t id image hk := by
    rw [keptFor_load] at hk
    exact h.kept hk

theorem update (h : c.Sized size)
    (hf : ∀ page, c.page? id = some page → (f page).beforeImage.length = size) :
    (c.update id f).Sized size where
  before q page hq := by
    rw [page?_update] at hq
    split at hq
    · rename_i hid
      obtain ⟨old, hold, rfl⟩ := Option.map_eq_some_iff.1 hq
      exact hf old (hid ▸ hold)
    · exact h.before hq
  kept t q image hk := by
    rw [keptFor_update] at hk
    exact h.kept hk

theorem drop (h : c.Sized size) (id : PageId) : (c.drop id).Sized size where
  before q page hq := by
    rw [page?_drop] at hq
    split at hq
    · cases hq
    · exact h.before hq
  kept t q image hk := by
    rw [keptFor_drop] at hk
    exact h.kept hk

theorem keep (h : c.Sized size) (hl : image.length = size) : (c.keep t id image).Sized size where
  before q page hq := h.before hq
  kept u q other hk := by
    rw [keptFor_keep] at hk
    split at hk
    · cases hk
      exact hl
    · exact h.kept hk

theorem forget (h : c.Sized size) (t : TransactionId) : (c.forget t).Sized size where
  before q page hq := h.before hq
  kept u q image hk := by
    rw [keptFor_forget] at hk
    split at hk
    · rw [ExtTreeMap.getElem?_empty] at hk
      cases hk
    · exact h.kept hk

/-- A copy is replaced by one with as long a before image. -/
theorem updateCopy (h : c.Sized size) {hd : Handle} {page' : Page}
    (hc : c.copy? hd.page hd.copy = some page)
    (hb : page'.beforeImage.length = page.beforeImage.length) :
    (c.updateCopy hd.page hd.copy fun _ => page').Sized size := by
  by_cases hhas : c.Has hd
  · rw [copy?_of_has hhas] at hc
    rw [updateCopy_of_has hhas]
    exact h.update fun _ _ => hb.trans (h.before hc)
  · rw [updateCopy_of_not_has hhas]
    exact ⟨h.before, h.kept⟩

end Sized

end Cache

/-! ## The operations of a store -/

namespace Store

variable {s s' : Store} {t : TransactionId} {id : PageId} {page : Page} {f : TableFile}

/-- The files of the tables have a page size, and so have the before images. -/
structure Sized (size : Nat) (s : Store) : Prop where
  files : s.catalog.OfSize size
  cache : s.cache.Sized size

namespace Sized

theorem onCache (h : s.Sized size) {f : Cache → Cache} (hf : (f s.cache).Sized size) :
    (s.onCache f).Sized size := ⟨h.files, hf⟩

theorem writeOut (h : s.Sized size) (hw : s.writeOut page = .ok s') :
    s'.Sized size ∧ page.encode.length = size := by
  obtain ⟨f, disk, hf, hd, rfl⟩ := writeOut_eq_ok hw
  obtain ⟨data, hdata, rfl⟩ := Disk.writeImage_eq_ok hd
  obtain ⟨-, hl, -⟩ := TableFile.writeImage_eq_ok hdata
  exact ⟨⟨h.files, h.cache⟩, hl.trans (h.files hf)⟩

/-- What is kept of a page that is written early is its before image. -/
theorem writeBack (h : s.Sized size) (hp : s.cache.page? id = some page)
    (hw : s.writeBack page = .ok s') : s'.Sized size := by
  cases ho : page.owner with
  | none =>
      rw [Store.writeBack, ho] at hw
      cases hw
      exact h
  | some owner =>
      obtain ⟨s₁, hout, rfl⟩ := writeBack_eq_ok hw ho
      obtain ⟨h₁, -⟩ := h.writeOut hout
      exact h₁.onCache (h₁.cache.keep (h.cache.before hp))

theorem flushPage (h : s.Sized size) (hw : s.flushPage id = .ok s') : s'.Sized size := by
  rw [Store.flushPage] at hw
  split at hw
  · cases hw
    exact h
  · rename_i page hp
    exact h.writeBack hp hw

/-- The before image of a page that is written for good is the image that is written. -/
theorem commitPage (h : s.Sized size) (hw : s.commitPage id = .ok s') : s'.Sized size := by
  rw [Store.commitPage] at hw
  split at hw
  · cases hw
    exact h
  · rename_i page hp
    split at hw
    · cases hw
    · rename_i s₁ hout
      cases hw
      obtain ⟨h₁, hl⟩ := h.writeOut hout
      obtain ⟨f, disk, -, -, rfl⟩ := writeOut_eq_ok hout
      refine h₁.onCache (h₁.cache.update fun q hq => ?_)
      obtain rfl : page = q := Option.some.inj (hp.symm.trans hq)
      exact hl

theorem untilError {α : Type} {f : Store → α → Except StoreError Store}
    (hf : ∀ {s a s'}, Store.Sized size s → f s a = .ok s' → s'.Sized size) (h : s.Sized size)
    (as : List α) : (untilError f s as).2.Sized size := by
  induction as generalizing s with
  | nil => exact h
  | cons a as ih =>
      rw [Store.untilError]
      split
      · exact h
      · rename_i s₁ hs
        exact ih (hf h hs)

theorem commit (h : s.Sized size) (t : TransactionId) : (s.commit t).2.Sized size := by
  have hpages := h.untilError (f := Store.commitPage) commitPage (s.cache.ownedBy t)
  rw [Store.commit]
  split
  · rename_i e s₁ hu
    rw [hu] at hpages
    exact hpages
  · rename_i s₁ hu
    rw [hu] at hpages
    exact ⟨hpages.files, hpages.cache.forget t⟩

theorem foldl_dropSpoiled (h : s.Sized size) (ids : List PageId) :
    (ids.foldl dropSpoiled s).Sized size := by
  induction ids generalizing s with
  | nil => exact h
  | cons id ids ih =>
      have hdrop : (s.dropSpoiled id).Sized size := ⟨h.files, h.cache.drop id⟩
      exact ih hdrop

theorem abort (h : s.Sized size) (t : TransactionId) : (s.abort t).2.Sized size := by
  have hdropped := h.foldl_dropSpoiled (s.spoiled t)
  have hr := restored_restoreAll (s.keptImages t) (s.dropped t)
  have hcatalog : (s.abort t).2.catalog = ((s.spoiled t).foldl dropSpoiled s).catalog := hr.catalog
  have hcache : (s.abort t).2.cache = ((s.spoiled t).foldl dropSpoiled s).cache.forget t :=
    hr.cache
  exact ⟨hcatalog ▸ hdropped.files, hcache ▸ hdropped.cache.forget t⟩

theorem discard (h : s.Sized size) (id : PageId) : (s.discard id).Sized size := by
  obtain he | ⟨counters, he⟩ := s.discard_eq id
  · rw [he]
    exact h
  · rw [he]
    exact ⟨h.files, h.cache.drop id⟩

/-! ### Fetching -/

theorem makeRoom (h : s.Sized size) (hr : s.makeRoom t = .ok s') : s'.Sized size := by
  rcases makeRoom_cases hr with rfl | ⟨id, page, -, -, rfl⟩ | ⟨id, page, s₁, hp, -, hw, rfl⟩
  · exact h
  · exact ⟨h.files, h.cache.drop id⟩
  · have h₁ := h.writeBack hp hw
    exact ⟨h₁.files, h₁.cache.drop page.id⟩

/-- The before image of a page that comes in is the image that it is read from. -/
theorem ensureCached (h : s.Sized size) (t : TransactionId) (hf : f.pageSize = size)
    (id : PageId) : (s.ensureCached t f id).2.Sized size := by
  have hensured := s.ensured t f id
  generalize s.ensureCached t f id = result at hensured ⊢
  have hmissed : (s.count .misses).Sized size := ⟨h.files, h.cache⟩
  cases hensured with
  | hit => exact ⟨h.files, h.cache⟩
  | crowded => exact hmissed
  | unread hr => exact hmissed.makeRoom hr
  | read _ hr hp =>
      have h₁ := hmissed.makeRoom hr
      obtain ⟨image, hi, hd⟩ := Disk.readPage_eq_ok hp
      obtain ⟨-, -, -, -, -, hb⟩ := Page.decode_eq_ok hd
      refine ⟨h₁.files, h₁.cache.load ?_⟩
      rw [hb, ← hf]
      exact TableFile.length_of_image? hi

theorem take (h : s.Sized size) (t : TransactionId) (id : PageId) (mode : LockMode) :
    (s.take t id mode).Sized size := by
  have htouched : (s.cache.touch id).Sized size := ⟨h.cache.before, h.cache.kept⟩
  cases mode with
  | shared => exact ⟨h.files, htouched⟩
  | exclusive =>
      refine ⟨h.files, htouched.update (f := fun page => page.withOwner (some t)) fun q hq => ?_⟩
      have hbefore : q.beforeImage.length = size := htouched.before hq
      exact hbefore

theorem fetch (h : s.Sized size) (t : TransactionId) (hf : f.pageSize = size) (id : PageId)
    (mode : LockMode) : (s.fetch t f id mode).2.Sized size := by
  have hensured := h.ensureCached t hf id
  rw [Store.fetch]
  split
  · rename_i e s₁ he
    rw [he] at hensured
    exact hensured
  · rename_i s₁ he
    rw [he] at hensured
    have htaken := hensured.take t id mode
    dsimp only
    split
    · exact htaken
    · exact htaken

/-! ### Tasks -/

theorem search (h : s.Sized size) (task : Insertion) (t : TransactionId) (page count : Nat) :
    (task.search s t page count).1.Sized size := by
  rw [Insertion.search]
  split
  · exact h
  · exact ⟨h.files, h.cache⟩

theorem begin (h : s.Sized size) (t : TransactionId) (table : TableId) (schema : Schema)
    (stored : List RecordId) (rows : List (List Field)) :
    (Insertion.begin s t table schema stored rows).1.Sized size := by
  cases rows with
  | nil => exact h
  | cons fields rows =>
      rw [Insertion.begin]
      split
      · exact h
      · split
        · exact h
        · split
          · exact h.search ..
          · exact h

theorem start (h : s.Sized size) (request : Request) (t : TransactionId) :
    (request.start s t).1.Sized size := by
  simp only [Request.start]
  split
  · exact h
  · exact h.begin ..
  · split
    · exact h
    · exact h.begin ..
  · exact h
  · split <;> exact h
  · split
    · exact h
    · split
      · exact h
      · split <;> exact h
  · exact h

/-- A page that is cached is replaced by one with the same before image. -/
theorem edited (h : s.Sized size) {page' : Page} (hp : s.cache.page? id = some page)
    (hb : page'.beforeImage = page.beforeImage) :
    (s.onCache fun c => c.update page'.id fun _ => page').Sized size :=
  h.onCache (h.cache.update fun _ _ => hb ▸ h.cache.before hp)

/-- A stage goes on with a page that is cached. -/
theorem resume (h : s.Sized size) (id : PageId) (stage : Stage) (t : TransactionId)
    {r : Except StoreError Frame}
    (hr : ∀ frame, r = .ok frame → s.cache.page? id = some frame.page) :
    (stage.resume s t r).1.Sized size := by
  cases r with
  | error e =>
      rw [stage.resume_error]
      exact h
  | ok frame =>
      have hp := hr frame rfl
      cases stage with
      | get => exact h
      | look task page count heldBefore =>
          rw [Stage.resume, Insertion.looked]
          split
          · exact h
          · cases heldBefore with
            | true => exact h.search ..
            | false =>
                have hreleased : (s.releasePage t frame.page.id).2.Sized size :=
                  ⟨h.files, h.cache⟩
                exact hreleased.search ..
      | place task =>
          rw [Stage.resume, Insertion.place]
          split
          · exact h
          · rename_i record page' hins
            have hb : page'.beforeImage = frame.page.beforeImage := by
              rw [(Page.insert_eq_ok hins).2.2]
            exact (h.edited hp hb).begin ..
      | delete record answer =>
          rw [Stage.resume]
          split
          · exact h
          · rename_i page' hdel
            have hb : page'.beforeImage = frame.page.beforeImage := by
              rw [(Page.delete_eq_ok hdel).2]
            exact h.edited hp hb
      | feed => exact h

theorem submit (h : s.Sized size) (t : TransactionId) (hf : f.pageSize = size) (r : LockRequest)
    (stage : Stage) : (submit s t f r stage).2.Sized size := by
  have hlocks : Store.Sized size { s with locks := (s.locks.consider t r).2 } :=
    ⟨h.files, h.cache⟩
  rw [PagedStore.submit]
  dsimp only
  split
  · exact hlocks
  · exact hlocks.resume r.page stage t fun _ hframe => by cases hframe
  · refine (hlocks.fetch t hf r.page r.mode).resume r.page stage t fun frame hframe => ?_
    exact Cache.page?_eq_some.2 ⟨frame, (frame_of_fetch (Prod.ext hframe rfl)).1, rfl⟩

end Sized

end Store

/-! ## Runs -/

namespace Traffic

variable {w w' : Traffic} {move : Move} {events : List Event} {t : TransactionId}

/-- What is asked of a move: tables may be replaced and files changed past the store, as long as
the tables are registered properly and have files of the page size. -/
def KeepsSize (size : Nat) (_ : Ledger) (_ : Traffic) (move : Move) (_ : Traffic) : Prop :=
  match move with
  | .replace catalog _ => catalog.Sound ∧ catalog.OfSize size
  | _ => True

/-- Everything has the page size: the files of the tables and those that requests have looked up,
and the before images. -/
structure Sized (size : Nat) (w : Traffic) : Prop where
  catalog : w.store.catalog.Sound
  store : w.store.Sized size
  asked : ∀ ⦃t task source⦄, w.tasks t = some task → task.source = some source →
    source.pageSize = size

namespace Sized

theorem pageSize_of_sourceOf (h : w.Sized size) {task : Task} {source : TableFile}
    (ht : w.tasks t = some task) (hs : w.sourceOf task = .ok source) : source.pageSize = size := by
  rw [sourceOf] at hs
  split at hs
  · rename_i hlooked
    cases hs
    exact h.asked ht hlooked
  · exact h.store.files hs

theorem store_of_step (h : w.Sized size)
    (hr : ∀ {catalog disk}, move = .replace catalog disk → catalog.OfSize size)
    (hs : w.step move = some (events, w')) : w'.store.Sized size := by
  cases move with
  | start t request =>
      simp only [Traffic.step] at hs
      split at hs
      · cases hs
      · cases hs
        exact h.store.start request t
  | resume t =>
      obtain ⟨task, ht, hr⟩ := Option.map_eq_some_iff.1 hs
      cases hsource : w.sourceOf task with
      | ok source =>
          rw [resume_of_source hsource] at hr
          have hsub := h.store.submit t (h.pageSize_of_sourceOf ht hsource)
            { page := task.page, mode := task.mode } task.stage
          rwa [← store_submit, hr] at hsub
      | error e =>
          rw [resume_of_error hsource, task.stage.resume_error] at hr
          cases hr
          exact h.store
  | commit t =>
      cases hs
      exact h.store.commit t
  | abort t =>
      cases hs
      exact h.store.abort t
  | flushPage page =>
      simp only [Traffic.step] at hs
      split at hs
      · rename_i store hf
        cases hs
        exact h.store.flushPage hf
      · cases hs
        exact h.store
  | flushPages t =>
      cases hs
      exact h.store.untilError Store.Sized.flushPage _
  | flushAll =>
      cases hs
      exact h.store.untilError Store.Sized.flushPage _
  | discard page =>
      cases hs
      exact h.store.discard page
  | release t page =>
      cases hs
      exact ⟨h.store.files, h.store.cache⟩
  | replace catalog disk =>
      cases hs
      exact ⟨hr rfl, h.store.cache⟩

/-- What every move does. -/
theorem step {l : Ledger} (h : w.Sized size) (hr : KeepsSize size l w move w')
    (hs : w.step move = some (events, w')) : w'.Sized size where
  catalog := by
    cases move with
    | replace catalog disk =>
        cases hs
        exact hr.1
    | _ =>
        rw [catalog_of_step (by simp) hs]
        exact h.catalog
  store := h.store_of_step (by rintro catalog disk rfl; exact hr.2) hs
  asked t task source ht hsource := by
    obtain ⟨old, hold, -, hlooked⟩ := asked_of_step hs ht hsource
    exact h.pageSize_of_sourceOf hold hlooked

/-- What a change through a handle does. -/
theorem write (h : w.Sized size) {hd : Handle} {page page' : Page} {change : Change}
    (hc : w.store.cache.copy? hd.page hd.copy = some page) (hm : change.Made page page') :
    (w.write hd page').Sized size :=
  ⟨h.catalog, ⟨h.store.files, h.store.cache.updateCopy hc (by rw [hm.same])⟩, h.asked⟩

end Sized

/-- Everything has the page size all along, whatever is done to the files and through handles. -/
theorem sized_of_run {s₀ : Store} {free : Cache → Handle → Prop} {history : List Event}
    {grips : List (TransactionId × Handle)} (h₀ : Fresh s₀) (hsize : s₀.catalog.OfSize size)
    (h : HandleRun (KeepsSize size) free s₀ history w grips) : w.Sized size := by
  induction h with
  | start =>
      exact ⟨h₀.catalog, ⟨hsize, h₀.cache ▸ .empty size⟩, fun _ _ _ ht => by cases ht⟩
  | move _ hr hs ih => exact ih.step hr hs
  | write _ _ _ hcopy hmade ih => exact ih.write hcopy hmade

end Traffic

end PagedStore

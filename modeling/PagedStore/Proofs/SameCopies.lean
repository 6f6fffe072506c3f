import PagedStore.Proofs.AlikeTasks

/-!
# Stores with the same copies

A flush writes pages to their files and keeps images of them, and leaves everything else in
the cache as it is: the copies, their numbers, and the order of their use.  Two stores that
differ in flushes only are alike and have the same copies (`Store.SameCopies`).

Such stores give up the same pages to make room, read the same pages from their files, and hand
out the very same copies (`Store.SameCopies.fetch`).  So a task does exactly the same on both
(`submit_sameCopies`), and so does everything else that is asked of the cache.
-/

namespace PagedStore

/-! ## What flushes leave as it is -/

/-- The cache without the images that are kept. -/
def Cache.bare (c : Cache) : Cache := { c with kept := ∅ }

namespace Cache

theorem bare_drop (c : Cache) (id : PageId) : (c.drop id).bare = c.bare.drop id := by
  have hframes : c.bare.frames = c.frames := rfl
  rw [drop, drop, hframes]
  cases c.frames[id]? <;> rfl

end Cache

variable {s s' s₁ s₁' : Store} {l l' : Ledger} {t : TransactionId} {id : PageId} {f : TableFile}

namespace Store

/-- The caches have room for as many pages, and differ only in the images that are kept. -/
structure SameCopies (s s' : Store) : Prop where
  settings : s'.settings = s.settings
  cache : s'.cache.bare = s.cache.bare

namespace SameCopies

theorem refl (s : Store) : s.SameCopies s := ⟨rfl, rfl⟩

theorem symm (h : s.SameCopies s') : s'.SameCopies s := ⟨h.settings.symm, h.cache.symm⟩

theorem trans {s'' : Store} (h : s.SameCopies s') (h' : s'.SameCopies s'') : s.SameCopies s'' :=
  ⟨h'.settings.trans h.settings, h'.cache.trans h.cache⟩

/-- What can be told of a cache whatever images it keeps is the same. -/
theorem told {α : Type} (h : s.SameCopies s') (g : Cache → α) (hg : ∀ c : Cache, g c.bare = g c) :
    g s'.cache = g s.cache := by
  rw [← hg, h.cache, hg]

theorem frames (h : s.SameCopies s') : s'.cache.frames = s.cache.frames :=
  h.told Cache.frames fun _ => rfl

theorem page? (h : s.SameCopies s') (id : PageId) : s'.cache.page? id = s.cache.page? id :=
  h.told (fun c => c.page? id) fun _ => rfl

theorem ids (h : s.SameCopies s') : s'.cache.ids = s.cache.ids := h.told Cache.ids fun _ => rfl

/-- Each of the stores goes on, and leaves its cache as it is. -/
theorem both (h : s.SameCopies s') (hs : s.SameCopies s₁) (hs' : s'.SameCopies s₁') :
    s₁.SameCopies s₁' :=
  (hs.symm.trans h).trans hs'

/-- The caches are changed in the same way, which has nothing to do with the images. -/
theorem onCache (h : s.SameCopies s') {g : Cache → Cache}
    (hg : ∀ c : Cache, (g c).bare = (g c.bare).bare) :
    (s.onCache g).SameCopies (s'.onCache g) := by
  refine ⟨h.settings, ?_⟩
  show (g s'.cache).bare = (g s.cache).bare
  rw [hg, h.cache, ← hg]

theorem drop (h : s.SameCopies s') (id : PageId) :
    (s.onCache fun c => c.drop id).SameCopies (s'.onCache fun c => c.drop id) :=
  h.onCache fun c => by rw [Cache.bare_drop, Cache.bare_drop]; rfl

end SameCopies

/-! ## Making room -/

theorem sameCopies_writeOut {page : Page} (h : s.writeOut page = .ok s') : s.SameCopies s' := by
  obtain ⟨f, disk, -, -, rfl⟩ := writeOut_eq_ok h
  exact ⟨rfl, rfl⟩

theorem sameCopies_writeBack {page : Page} (h : s.writeBack page = .ok s') : s.SameCopies s' := by
  rw [writeBack] at h
  split at h
  · cases h
    exact .refl s
  · split at h
    · cases h
    · rename_i s₁ hw
      cases h
      have hkeep := sameCopies_writeOut hw
      exact ⟨hkeep.settings, hkeep.cache⟩

theorem SameCopies.evict (h : s.SameCopies s') (id : PageId) :
    (s.evict id).SameCopies (s'.evict id) := ⟨h.settings, (h.drop id).cache⟩

/-- The same page is given up, if any. -/
theorem SameCopies.makeRoom (h : s.SameCopies s') (hs : s.Follows l) (hs' : s'.Follows l')
    (t : TransactionId) :
    (s.makeRoom t = .error .noEvictablePage ∧ s'.makeRoom t = .error .noEvictablePage) ∨
      ∃ s₁ s₁', s.makeRoom t = .ok s₁ ∧ s'.makeRoom t = .ok s₁' ∧ s₁.SameCopies s₁' := by
  have hsize : s'.cache.size = s.cache.size := h.told Cache.size fun _ => rfl
  have hcapacity : s'.capacity = s.capacity := congrArg Settings.poolPages h.settings
  have hclean : s'.cache.recency.victim? s'.cache.isClean =
      s.cache.recency.victim? s.cache.isClean :=
    h.told (fun c => c.recency.victim? c.isClean) fun _ => rfl
  have hown : s'.ownVictim? t = s.ownVictim? t :=
    h.told (fun c => (c.recency.victim? (c.isOwnedBy t)).bind c.page?) fun _ => rfl
  rw [Store.makeRoom, Store.makeRoom, hsize, hcapacity]
  split
  · exact Or.inr ⟨s, s', rfl, rfl, h⟩
  · rw [evictOne, evictOne, hclean, hown]
    cases s.cache.recency.victim? s.cache.isClean with
    | some id => exact Or.inr ⟨_, _, rfl, rfl, h.evict id⟩
    | none =>
        cases hv : s.ownVictim? t with
        | none => exact Or.inl ⟨rfl, rfl⟩
        | some page =>
            obtain ⟨id, hp, -⟩ := ownVictim?_eq_some hv
            obtain ⟨s₁, hw⟩ := hs.exists_writeBack hp
            obtain ⟨s₁', hw'⟩ := hs'.exists_writeBack ((h.page? id).trans hp)
            have h₁ := h.both (sameCopies_writeBack hw) (sameCopies_writeBack hw')
            have hcount : (s₁.count .dirtyEvictions).SameCopies (s₁'.count .dirtyEvictions) :=
              ⟨h₁.settings, h₁.cache⟩
            simp only [hw, hw']
            exact Or.inr ⟨_, _, rfl, rfl, hcount.evict page.id⟩

/-! ## Fetching -/

/-- The same page is read from the file, or there is the same reason that it is not. -/
theorem SameCopies.read (h : s.SameCopies s') (ha : s.Alike s') (hs : s.Follows l)
    (hs' : s'.Follows l') (hf : s.catalog.file id.table = .ok f) (ho : (s.view id).OpenTo t)
    (hn : s.cache.page? id = none) :
    (s'.read t f id).1 = (s.read t f id).1 ∧ (s.read t f id).2.SameCopies (s'.read t f id).2 := by
  have hf' : s'.catalog.file id.table = .ok f := ha.catalog ▸ hf
  rw [Store.read, Store.read]
  rcases h.makeRoom hs hs' t with ⟨hr, hr'⟩ | ⟨s₁, s₁', hr, hr', h₁⟩
  · rw [hr, hr']
    exact ⟨rfl, h⟩
  · have hq := silent_makeRoom hr
    have hq' := silent_makeRoom hr'
    have hs₁ := hq.follows hs
    have hs₁' := hq'.follows hs'
    have ha₁ := hq.both hq' ha hs hs'
    have hread : s₁'.disk.readPage f id = s₁.disk.readPage f id := by
      rw [readPage_eq hs₁.sound (hs₁.numbered id) ((hq.quiet id).catalog ▸ hf),
        readPage_eq hs₁'.sound (hs₁'.numbered id) ((hq'.quiet id).catalog ▸ hf')]
      exact (ha₁.view id).read_eq (((hq.alike hs).view id).openTo.2 ho) (page?_makeRoom hr hn)
        (page?_makeRoom hr' ((h.page? id).trans hn))
    simp only [hr, hr', hread]
    split
    · exact ⟨rfl, h₁⟩
    · rename_i page _
      have hcount : (s₁.count .pagesRead).SameCopies (s₁'.count .pagesRead) :=
        ⟨h₁.settings, h₁.cache⟩
      exact ⟨rfl, hcount.onCache (g := fun c => c.load page) fun _ => rfl⟩

theorem SameCopies.ensureCached (h : s.SameCopies s') (ha : s.Alike s') (hs : s.Follows l)
    (hs' : s'.Follows l') (hf : s.catalog.file id.table = .ok f) (ho : (s.view id).OpenTo t) :
    (s'.ensureCached t f id).1 = (s.ensureCached t f id).1 ∧
      (s.ensureCached t f id).2.SameCopies (s'.ensureCached t f id).2 := by
  have hcached : s'.cache.isCached id = s.cache.isCached id :=
    h.told (fun c => c.isCached id) fun _ => rfl
  rw [Store.ensureCached, Store.ensureCached, hcached]
  split
  · exact ⟨rfl, h.settings, h.cache⟩
  · rename_i hc
    have hcount : (s.count .misses).SameCopies (s'.count .misses) := ⟨h.settings, h.cache⟩
    exact hcount.read (ha.withCounters _ _) (hs.withCounters _) (hs'.withCounters _) hf ho
      (page?_of_not_isCached hc)

/-- The very same copy is handed out. -/
theorem SameCopies.fetch (h : s.SameCopies s') (ha : s.Alike s') (hs : s.Follows l)
    (hs' : s'.Follows l') (hf : s.catalog.file id.table = .ok f) (ho : (s.view id).OpenTo t)
    (mode : LockMode) :
    (s'.fetch t f id mode).1 = (s.fetch t f id mode).1 ∧
      (s.fetch t f id mode).2.SameCopies (s'.fetch t f id mode).2 := by
  obtain ⟨hresult, hafter⟩ := h.ensureCached ha hs hs' hf ho
  rw [Store.fetch, Store.fetch]
  revert hresult hafter
  cases s.ensureCached t f id with
  | mk r s₁ =>
      cases s'.ensureCached t f id with
      | mk r' s₁' =>
          rintro (rfl : r' = r) (hafter : s₁.SameCopies s₁')
          cases r' with
          | error e => exact ⟨rfl, hafter⟩
          | ok _ =>
              have htake : (s₁.take t id mode).SameCopies (s₁'.take t id mode) :=
                hafter.onCache fun c => by cases mode <;> rfl
              simp only [htake.frames]
              cases (s₁.take t id mode).cache.frames[id]? <;> exact ⟨rfl, htake⟩

/-! ## Flushing -/

theorem sameCopies_flushPage (h : s.flushPage id = .ok s') : s.SameCopies s' := by
  rw [flushPage] at h
  split at h
  · cases h
    exact .refl s
  · exact sameCopies_writeBack h

theorem sameCopies_untilError_flushPage (s : Store) (ids : List PageId) :
    s.SameCopies (untilError flushPage s ids).2 := by
  induction ids generalizing s with
  | nil => exact .refl s
  | cons id ids ih =>
      rw [untilError]
      split
      · exact .refl s
      · rename_i s₁ h
        exact (sameCopies_flushPage h).trans (ih s₁)

/-! ## The end of a transaction -/

theorem SameCopies.commitPage (h : s.SameCopies s') (hc : s.commitPage id = .ok s₁)
    (hc' : s'.commitPage id = .ok s₁') : s₁.SameCopies s₁' := by
  rw [Store.commitPage] at hc hc'
  rw [h.page?] at hc'
  split at hc
  · rename_i hp
    simp only [hp] at hc'
    cases hc
    cases hc'
    exact h
  · rename_i page hp
    simp only [hp] at hc'
    split at hc
    · cases hc
    · rename_i s₂ hw
      split at hc'
      · cases hc'
      · rename_i s₂' hw'
        cases hc
        cases hc'
        exact (h.both (sameCopies_writeOut hw) (sameCopies_writeOut hw')).onCache
          (g := fun c => c.update id fun page => page.keepImage.withOwner none) fun _ => rfl

theorem SameCopies.untilError_commitPage (h : s.SameCopies s') (ids : List PageId)
    (hc : (untilError Store.commitPage s ids).1 = .ok ())
    (hc' : (untilError Store.commitPage s' ids).1 = .ok ()) :
    (untilError Store.commitPage s ids).2.SameCopies
      (untilError Store.commitPage s' ids).2 := by
  induction ids generalizing s s' with
  | nil => exact h
  | cons id ids ih =>
      rw [untilError] at hc hc' ⊢
      rw [untilError]
      split at hc
      · cases hc
      · rename_i s₁ h₁
        split at hc'
        · cases hc'
        · rename_i s₁' h₁'
          exact ih (h.commitPage h₁ h₁') hc hc'

/-- The copies that are committed are the same. -/
theorem SameCopies.commit (h : s.SameCopies s') (hs : s.Follows l) (hs' : s'.Follows l')
    (t : TransactionId) : (s.commit t).2.SameCopies (s'.commit t).2 := by
  have howned : s'.cache.ownedBy t = s.cache.ownedBy t :=
    h.told (fun c => c.ownedBy t) fun _ => rfl
  have hok := (hs.commit_frame t).1
  have hok' := (hs'.commit_frame t).1
  have huntil := h.untilError_commitPage (s.cache.ownedBy t)
  rw [Store.commit] at hok hok' ⊢
  rw [Store.commit]
  rw [howned] at hok' ⊢
  split at hok
  · cases hok
  · rename_i s₁ hu
    split at hok'
    · cases hok'
    · rename_i s₁' hu'
      rw [hu, hu'] at huntil
      have hforget := (huntil rfl rfl).onCache (g := fun c => c.forget t) fun _ => rfl
      exact ⟨hforget.settings, hforget.cache⟩

/-- The same copies carry changes of a transaction. -/
theorem SameCopies.spoiled (h : s.SameCopies s') (ha : s.Alike s') (t : TransactionId) :
    s'.spoiled t = s.spoiled t := by
  have hmem : ∀ id, id ∈ s'.spoiled t ↔ id ∈ s.spoiled t := by
    intro id
    rw [mem_spoiled, mem_spoiled, h.page?, (ha.view id).owns]
  rw [Store.spoiled, Store.spoiled, h.ids]
  refine List.filter_congr fun id hid => Bool.eq_iff_iff.2 ?_
  have := hmem id
  rw [Store.spoiled, Store.spoiled, h.ids, List.mem_filter, List.mem_filter] at this
  simpa only [hid, true_and] using this

theorem SameCopies.foldl_dropSpoiled (h : s.SameCopies s') (ids : List PageId) :
    (ids.foldl dropSpoiled s).SameCopies (ids.foldl dropSpoiled s') := by
  induction ids generalizing s s' with
  | nil => exact h
  | cons id ids ih => exact ih ⟨h.settings, (h.drop id).cache⟩

theorem sameCopies_restoreAll (s : Store) (images : List (PageId × Bytes)) :
    s.SameCopies (s.restoreAll images).2 := by
  induction images generalizing s with
  | nil => exact .refl s
  | cons entry images ih =>
      rw [restoreAll]
      split
      · rename_i s₁ hr
        have hrestore : s.SameCopies s₁ := by
          obtain ⟨f, disk, -, -, rfl⟩ := restore_eq_ok hr
          exact ⟨rfl, rfl⟩
        exact hrestore.trans (ih s₁)
      · exact ih s

/-- The same copies are dropped. -/
theorem SameCopies.abort (h : s.SameCopies s') (ha : s.Alike s') (t : TransactionId) :
    (s.abort t).2.SameCopies (s'.abort t).2 := by
  have hdrop := (h.foldl_dropSpoiled (s.spoiled t)).onCache (g := fun c => c.forget t) fun _ => rfl
  have hrestore := hdrop.both (sameCopies_restoreAll _ (s.cache.keptFor t).toList)
    (sameCopies_restoreAll _ (s'.cache.keptFor t).toList)
  rw [Store.abort, Store.abort, h.spoiled ha]
  exact ⟨hrestore.settings, hrestore.cache⟩

end Store

/-! ## Tasks -/

open Store (SameCopies)

namespace Insertion

theorem sameCopies_search (task : Insertion) (s : Store) (t : TransactionId) (page count : Nat) :
    s.SameCopies (task.search s t page count).1 := by
  rw [search]
  split <;> exact ⟨rfl, rfl⟩

theorem sameCopies_begin (s : Store) (t : TransactionId) (table : TableId) (schema : Schema)
    (stored : List RecordId) (rows : List (List Field)) :
    s.SameCopies (begin s t table schema stored rows).1 := by
  cases rows with
  | nil => exact .refl s
  | cons fields rows =>
      rw [begin]
      split
      · exact .refl s
      · split
        · exact .refl s
        · split
          · exact sameCopies_search ..
          · exact .refl s

theorem sameCopies_looked (task : Insertion) (s : Store) (t : TransactionId) (page count : Nat)
    (heldBefore : Bool) (frame : Frame) :
    s.SameCopies (task.looked s t page count heldBefore frame).1 := by
  rw [looked]
  split
  · exact .refl s
  · have hrel : s.SameCopies (if heldBefore then s else (s.releasePage t frame.page.id).2) := by
      split <;> exact ⟨rfl, rfl⟩
    exact hrel.trans (sameCopies_search ..)

end Insertion

/-- The same copy is changed, in the same way. -/
theorem Stage.resume_sameCopies (stage : Stage) (h : s.SameCopies s') (t : TransactionId)
    (frame : Frame) :
    (stage.resume s t (.ok frame)).1.SameCopies (stage.resume s' t (.ok frame)).1 := by
  have hupdate : ∀ page : Page, (s.onCache fun c => c.update page.id fun _ => page).SameCopies
      (s'.onCache fun c => c.update page.id fun _ => page) := fun page =>
    h.onCache (g := fun c => c.update page.id fun _ => page) fun _ => rfl
  cases stage with
  | get | feed => exact h
  | look task page count heldBefore =>
      exact h.both (task.sameCopies_looked ..) (task.sameCopies_looked ..)
  | place task =>
      rw [resume, resume, Insertion.place, Insertion.place]
      split
      · exact h
      · rename_i record page _
        exact (hupdate page).both (Insertion.sameCopies_begin ..) (Insertion.sameCopies_begin ..)
  | delete record answer =>
      rw [resume, resume]
      split
      · exact h
      · exact hupdate _

section Submit

variable {r : LockRequest} {source : TableFile}

/-- A page that is granted is fetched from either store, and the very same copy is handed out. -/
theorem Store.SameCopies.fetch_granted (h : s.SameCopies s') (ha : s.Alike s') (hs : s.Follows l)
    (hs' : s'.Follows l') (hf : s.catalog.file r.page.table = .ok source)
    (hv : (s.locks.consider t r).1 = .granted) :
    ({ s' with locks := (s'.locks.consider t r).2 }.fetch t source r.page r.mode).1 =
        ({ s with locks := (s.locks.consider t r).2 }.fetch t source r.page r.mode).1 ∧
      ({ s with locks := (s.locks.consider t r).2 }.fetch t source r.page r.mode).2.SameCopies
        ({ s' with locks := (s'.locks.consider t r).2 }.fetch t source r.page r.mode).2 := by
  have hlocked : SameCopies { s with locks := (s.locks.consider t r).2 }
      { s' with locks := (s'.locks.consider t r).2 } := ⟨h.settings, h.cache⟩
  exact hlocked.fetch (ha.consider t r) (hs.granted hv) (hs'.granted (ha.locks ▸ hv)) hf
    (hs.openTo_of_granted hv) r.mode

theorem Store.SameCopies.lacksRoom (h : s.SameCopies s') (ha : s.Alike s') (hs : s.Follows l)
    (hs' : s'.Follows l') (hf : s.catalog.file r.page.table = .ok source) :
    s'.lacksRoom t source r = s.lacksRoom t source r := by
  have hverdict : (s'.locks.consider t r).1 = (s.locks.consider t r).1 := by rw [ha.locks]
  rw [Store.lacksRoom, Store.lacksRoom, hverdict]
  cases hv : (s.locks.consider t r).1 with
  | granted => rw [(h.fetch_granted ha hs hs' hf hv).1]
  | waits | refused => rfl

/-- Evaluating a request leaves the same copies. -/
theorem submit_sameCopies (stage : Stage) (h : s.SameCopies s') (ha : s.Alike s')
    (hs : s.Follows l) (hs' : s'.Follows l') (hf : s.catalog.file r.page.table = .ok source) :
    (submit s t source r stage).2.SameCopies (submit s' t source r stage).2 := by
  have hverdict : (s'.locks.consider t r).1 = (s.locks.consider t r).1 := by rw [ha.locks]
  cases hv : (s.locks.consider t r).1 with
  | waits =>
      rw [(submit_of_waits source stage hv).2,
        (submit_of_waits source stage (hverdict.trans hv)).2]
      exact ⟨h.settings, h.cache⟩
  | refused =>
      rw [(submit_of_refused source stage hv).2,
        (submit_of_refused source stage (hverdict.trans hv)).2]
      exact ⟨h.settings, h.cache⟩
  | granted =>
      obtain ⟨hresult, hafter⟩ := h.fetch_granted ha hs hs' hf hv
      rw [(submit_of_granted source stage hv rfl).2,
        (submit_of_granted source stage (hverdict.trans hv) rfl).2, hresult]
      cases ({ s with locks := (s.locks.consider t r).2 }.fetch t source r.page r.mode).1 with
      | error e =>
          rw [stage.resume_error, stage.resume_error]
          exact hafter
      | ok frame => exact stage.resume_sameCopies hafter t frame

end Submit

theorem Request.sameCopies_start (request : Request) (s : Store) (t : TransactionId) :
    s.SameCopies (request.start s t).1 := by
  simp only [start]
  split
  · exact .refl s
  · exact Insertion.sameCopies_begin ..
  · split
    · exact .refl s
    · exact Insertion.sameCopies_begin ..
  · exact .refl s
  · split <;> exact .refl s
  · split
    · exact .refl s
    · split
      · exact .refl s
      · split <;> exact .refl s
  · exact .refl s

end PagedStore

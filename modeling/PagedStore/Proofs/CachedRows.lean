import PagedStore.Proofs.CacheOrder
import PagedStore.Proofs.InsertionRuns
import PagedStore.Proofs.Leftovers
import PagedStore.Proofs.Placements
import PagedStore.Proofs.SlotValues

/-!
# Rows of cached pages

The rows of a cached page have columns of their own.  They are as they came: put there by a
transaction, with whatever columns it gave them (`Traffic.row_of_inserted`), or read from the file,
with the columns of the table (`Page.Uniform`).

A slot of a page that is cached after a move has the row that it had there before, or the page was
not cached and has been read, as long as the move has not changed the slot
(`Traffic.shows_of_step`).  What a transaction is given when it fetches a page comes about in the
same way (`Traffic.shows_of_fetched`).
-/

namespace PagedStore

/-! ## Pages that were read -/

namespace Page

/-- Every row of the page has these columns, and the address of its slot. -/
def Uniform (schema : Schema) (page : Page) : Prop :=
  ∀ ⦃slot row⦄, page.rowAt? slot = some row →
    row.schema = schema ∧ row.recordId = some { page := page.id, slot }

theorem slot_of_rowAt {page : Page} {slot : Nat} {row : Row} (h : page.rowAt? slot = some row) :
    page.slots[slot]? = some (some row) := by
  rw [rowAt?] at h
  exact Option.join_eq_some_iff.1 h

theorem rowAt?_of_content {page : Page} {slot : Nat} {fields : List Field}
    (h : page.content[slot]? = some (some fields)) :
    ∃ row, page.rowAt? slot = some row ∧ row.fields = fields := by
  rw [Page.content, List.getElem?_map] at h
  obtain ⟨held, hheld, hmap⟩ := Option.map_eq_some_iff.1 h
  obtain ⟨row, rfl, hfields⟩ := Option.map_eq_some_iff.1 hmap
  refine ⟨row, ?_, hfields⟩
  rw [rowAt?, hheld]
  rfl

theorem uniform_of_decode {id : PageId} {schema : Schema} {pageSize : Nat} {image : Bytes}
    {page : Page} (h : decode id schema pageSize image = .ok page) : page.Uniform schema := by
  intro slot row hrow
  have hslot := slot_of_rowAt hrow
  rw [decode] at h
  split at h
  · simp only at h
    split at h
    · cases h
    · split at h
      · cases h
      · rename_i slots hslots
        cases h
        obtain ⟨-, hschema, hrecord⟩ := fits_of_decodeSlots hslots hslot
        exact ⟨hschema, by rw [hrecord, Nat.zero_add]⟩
  · cases h

theorem rowAt?_congr {page page' : Page} (h : page'.slots = page.slots) (slot : Nat) :
    page'.rowAt? slot = page.rowAt? slot := by
  rw [rowAt?, rowAt?, h]

end Page

/-! ## The operations of a store -/

namespace Store

variable {s s' s'' : Store} {t : TransactionId} {f : TableFile} {p id : PageId} {page : Page}
  {schema : Schema}

/-- If the page is cached, it was cached before with the same rows. -/
def RetainsAt (p : PageId) (s s' : Store) : Prop :=
  ∀ ⦃page'⦄, s'.cache.page? p = some page' →
    ∃ page, s.cache.page? p = some page ∧ page'.slots = page.slots

namespace RetainsAt

theorem refl (p : PageId) (s : Store) : RetainsAt p s s := fun page hp => ⟨page, hp, rfl⟩

theorem trans (h : RetainsAt p s s') (h' : RetainsAt p s' s'') : RetainsAt p s s'' := by
  intro page'' hp''
  obtain ⟨page', hp', hslots'⟩ := h' hp''
  obtain ⟨page, hp, hslots⟩ := h hp'
  exact ⟨page, hp, hslots'.trans hslots⟩

theorem of_eq (h : s'.cache.frames = s.cache.frames) : RetainsAt p s s' := by
  intro page hp
  rw [Cache.page?, h] at hp
  exact ⟨page, hp, rfl⟩

theorem drop (p : PageId) (s : Store) (id : PageId) :
    RetainsAt p s (s.onCache fun c => c.drop id) := by
  intro page hp
  rw [onCache, Cache.page?_drop] at hp
  split at hp
  · cases hp
  · exact ⟨page, hp, rfl⟩

/-- Owners and before images do not matter. -/
theorem update {g : Page → Page} (hg : ∀ page, (g page).slots = page.slots) (p : PageId)
    (s : Store) (id : PageId) : RetainsAt p s (s.onCache fun c => c.update id g) := by
  intro page hp
  rw [onCache, Cache.page?_update] at hp
  split at hp
  · obtain ⟨old, hold, rfl⟩ := Option.map_eq_some_iff.1 hp
    exact ⟨old, hold, hg old⟩
  · exact ⟨page, hp, rfl⟩

theorem untilError {α : Type} {f : Store → α → Except StoreError Store}
    (hf : ∀ {s a s'}, f s a = .ok s' → RetainsAt p s s') (s : Store) (as : List α) :
    RetainsAt p s (untilError f s as).2 := by
  induction as generalizing s with
  | nil => exact .refl p s
  | cons a as ih =>
      rw [Store.untilError]
      split
      · exact .refl p s
      · rename_i s₁ h
        exact (hf h).trans (ih s₁)

theorem writeOut (h : s.writeOut page = .ok s') : RetainsAt p s s' := by
  obtain ⟨f, disk, -, -, rfl⟩ := writeOut_eq_ok h
  exact .of_eq rfl

theorem writeBack (h : s.writeBack page = .ok s') : RetainsAt p s s' :=
  .of_eq (shifts_writeBack (P := fun _ => True) h).2

theorem makeRoom (h : s.makeRoom t = .ok s') : RetainsAt p s s' := by
  rcases makeRoom_cases h with rfl | ⟨id, page, -, -, rfl⟩ | ⟨id, page, s₁, -, -, hw, rfl⟩
  · exact .refl p s'
  · exact drop p s id
  · exact (writeBack hw).trans (drop p s₁ page.id)

theorem flushPage (h : s.flushPage id = .ok s') : RetainsAt p s s' := by
  rw [Store.flushPage] at h
  split at h
  · cases h
    exact .refl p s
  · exact writeBack h

theorem discard (p : PageId) (s : Store) (id : PageId) : RetainsAt p s (s.discard id) := by
  rw [Store.discard]
  split
  · exact .refl p s
  · dsimp only
    split <;> exact drop p s id

theorem commitPage (h : s.commitPage id = .ok s') : RetainsAt p s s' := by
  rw [Store.commitPage] at h
  split at h
  · cases h
    exact .refl p s
  · split at h
    · cases h
    · rename_i s₁ hw
      cases h
      have hsaved : ∀ page : Page, (page.keepImage.withOwner none).slots = page.slots :=
        fun _ => rfl
      exact (writeOut hw).trans (update hsaved p s₁ id)

theorem commit (p : PageId) (s : Store) (t : TransactionId) : RetainsAt p s (s.commit t).2 := by
  have hpages : RetainsAt p s (Store.untilError Store.commitPage s (s.cache.ownedBy t)).2 :=
    untilError commitPage s _
  rw [Store.commit]
  split
  · rename_i e s₁ hu
    rw [hu] at hpages
    exact hpages
  · rename_i s₁ hu
    rw [hu] at hpages
    exact hpages.trans (.of_eq rfl)

theorem restoreAll (p : PageId) (s : Store) (images : List (PageId × Bytes)) :
    RetainsAt p s (s.restoreAll images).2 := by
  induction images generalizing s with
  | nil => exact .refl p s
  | cons entry images ih =>
      rw [Store.restoreAll]
      split
      · rename_i s₁ hr
        obtain ⟨f, disk, -, -, rfl⟩ := restore_eq_ok hr
        exact (RetainsAt.of_eq rfl).trans (ih _)
      · exact ih s

theorem dropSpoiled (p : PageId) (s : Store) (ids : List PageId) :
    RetainsAt p s (ids.foldl dropSpoiled s) := by
  induction ids generalizing s with
  | nil => exact .refl p s
  | cons id ids ih => exact (drop p s id).trans (ih _)

theorem abort (p : PageId) (s : Store) (t : TransactionId) : RetainsAt p s (s.abort t).2 := by
  have hdropped : RetainsAt p s ((s.spoiled t).foldl Store.dropSpoiled s) :=
    dropSpoiled p s (s.spoiled t)
  have hforgotten : RetainsAt p s (Store.onCache _ fun c => c.forget t) :=
    hdropped.trans (.of_eq rfl)
  exact (hforgotten.trans (restoreAll p _ (s.cache.keptFor t).toList)).trans (.of_eq rfl)

theorem start (request : Request) (p : PageId) (s : Store) (t : TransactionId) :
    RetainsAt p s (request.start s t).1 := by
  obtain ⟨disk, he⟩ := request.start_eq s t
  rw [he]
  exact .of_eq rfl

end RetainsAt

/-- If the page is cached, it was cached before with the same rows, or it was not and has been
read with these columns. -/
def BringsAt (p : PageId) (schema : Schema) (s s' : Store) : Prop :=
  ∀ ⦃page'⦄, s'.cache.page? p = some page' →
    (∃ page, s.cache.page? p = some page ∧ page'.slots = page.slots) ∨
      s.cache.page? p = none ∧ page'.Uniform schema

theorem RetainsAt.brings (h : RetainsAt p s s') (schema : Schema) : BringsAt p schema s s' :=
  fun _ hp => Or.inl (h hp)

theorem brings_ensureCached (s : Store) (t : TransactionId) (hf : id = p → f.schema = schema) :
    BringsAt p schema s (s.ensureCached t f id).2 := by
  have hensured := s.ensured t f id
  generalize s.ensureCached t f id = result at hensured ⊢
  cases hensured with
  | hit | crowded => exact (RetainsAt.of_eq rfl).brings schema
  | unread hr => exact (RetainsAt.makeRoom (s := s.count .misses) hr).brings schema
  | @read s₁ page hnone hr hp =>
      obtain ⟨image, -, hd⟩ := Disk.readPage_eq_ok hp
      obtain rfl : page.id = id := (Page.decode_eq_ok hd).2.1
      intro page' hp'
      have hp' : (s₁.cache.load page).page? p = some page' := hp'
      rw [Cache.page?_load] at hp'
      split at hp'
      · rename_i he
        cases hp'
        exact Or.inr ⟨he ▸ hnone, hf he ▸ Page.uniform_of_decode hd⟩
      · exact Or.inl (RetainsAt.makeRoom (s := s.count .misses) hr hp')

/-- A page that is cached after a fetch was cached before, or has been read from its file. -/
theorem brings_fetch (s : Store) (t : TransactionId) (mode : LockMode)
    (hf : id = p → f.schema = schema) : BringsAt p schema s (s.fetch t f id mode).2 := by
  have hbrings := s.brings_ensureCached t hf
  have htaken : BringsAt p schema s ((s.ensureCached t f id).2.take t id mode) := by
    intro page' hp'
    rw [page?_take] at hp'
    split at hp'
    · obtain ⟨old, hold, rfl⟩ := Option.map_eq_some_iff.1 hp'
      cases mode <;> exact (hbrings hold :)
    · exact hbrings hp'
  rcases s.fetch_eq t f id mode with ⟨e, he⟩ | ⟨e, -, he⟩ | ⟨page, frame, -, -, he⟩
  · rw [he]
    exact hbrings
  · rw [he]
    exact htaken
  · rw [he]
    exact htaken

end Store

/-! ## Stages -/

section Stages

variable {s : Store} {t : TransactionId} {l : Ledger} {record : RecordId} {stage : Stage}

/-- A row that is placed goes into the cached page. -/
theorem Insertion.frames_place (task : Insertion) (s : Store) (t : TransactionId)
    {frame : Frame} {record : RecordId} {page : Page}
    (h : frame.page.insert task.row = .ok (record, page)) :
    ((Stage.place task).resume s t (.ok frame)).1.cache.frames =
      (s.cache.update page.id fun _ => page).frames := by
  simp only [Stage.resume, Insertion.place, h]
  obtain ⟨disk, he⟩ := Insertion.begin_eq (s.onCache fun c => c.update page.id fun _ => page)
    t task.table task.schema (record :: task.stored) task.rows
  rw [he]
  rfl

/-- A stage that goes on leaves the cached pages as they are, or replaces its own page by what its
change has made of it.  The slots that the change is not on are the same. -/
theorem Stage.frames_resume (stage : Stage) (s : Store) (t : TransactionId) (frame : Frame) :
    (stage.resume s t (.ok frame)).1.cache.frames = s.cache.frames ∨
      ∃ change page', stage.change? frame.page = some change ∧
        frame.page.SameShape page' ∧
          (∀ slot, change.leaves? { page := frame.page.id, slot } = none →
            page'.rowAt? slot = frame.page.rowAt? slot) ∧
            (stage.resume s t (.ok frame)).1.cache.frames =
              (s.cache.update page'.id fun _ => page').frames := by
  cases stage with
  | get | feed => exact Or.inl rfl
  | look task page count heldBefore =>
      rw [resume, Insertion.looked]
      split
      · exact Or.inl rfl
      · obtain ⟨disk, he⟩ := task.search_eq
          (if heldBefore then s else (s.releasePage t frame.page.id).2) t (page + 1) count
        rw [he]
        cases heldBefore <;> exact Or.inl rfl
  | place task =>
      cases hins : frame.page.insert task.row with
      | error e =>
          rw [resume, Insertion.place, hins]
          exact Or.inl rfl
      | ok placed =>
        obtain ⟨record, page'⟩ := placed
        refine Or.inr ⟨.insert record task.row.fields, page', ?_, Page.sameShape_of_insert hins,
          fun slot hslot => ?_, Insertion.frames_place task s t hins⟩
        · simp only [change?, hins]
        · obtain ⟨-, hid, rfl⟩ := Page.insert_eq_ok hins
          have hne : record.slot ≠ slot := by
            rintro rfl
            rw [← hid, Change.leaves?, if_pos rfl] at hslot
            cases hslot
          rw [Page.rowAt?, Page.rowAt?, List.getElem?_set_ne hne]
  | delete record answer =>
      rw [resume]
      split
      · exact Or.inl rfl
      · rename_i page' hdel
        refine Or.inr ⟨.delete record, page', ?_, Page.sameShape_of_delete hdel,
          fun slot hslot => ?_, rfl⟩
        · simp only [change?, hdel]
        · obtain ⟨hid, rfl⟩ := Page.delete_eq_ok hdel
          have hne : record.slot ≠ slot := by
            rintro rfl
            rw [← hid, Change.leaves?, if_pos rfl] at hslot
            cases hslot
          rw [Page.rowAt?, Page.rowAt?, List.getElem?_set_ne hne]

end Stages

/-! ## Moves -/

namespace Store

variable {s s' : Store} {record : RecordId} {schema : Schema} {page page' : Page}

/-- The row at an address is the one that the cached page has there, or the page is not cached
and the row has these columns. -/
def Shows (record : RecordId) (schema : Schema) (s : Store) (page' : Page) : Prop :=
  (∃ page, s.cache.page? record.page = some page ∧
      page'.rowAt? record.slot = page.rowAt? record.slot) ∨
    s.cache.page? record.page = none ∧ ∀ ⦃row⦄, page'.rowAt? record.slot = some row →
      row.schema = schema ∧ row.recordId = some record

theorem BringsAt.shows (h : BringsAt record.page schema s s')
    (hp : s'.cache.page? record.page = some page) (hid : page.id = record.page) :
    s.Shows record schema page := by
  rcases h hp with ⟨old, hold, hslots⟩ | ⟨hnone, huniform⟩
  · exact Or.inl ⟨old, hold, Page.rowAt?_congr hslots _⟩
  · refine Or.inr ⟨hnone, fun row hrow => ?_⟩
    obtain ⟨hschema, hrecord⟩ := huniform hrow
    exact ⟨hschema, by rw [hrecord, hid]⟩

theorem Shows.of_row_eq (h : s.Shows record schema page)
    (hrow : page'.rowAt? record.slot = page.rowAt? record.slot) : s.Shows record schema page' := by
  rcases h with ⟨old, hold, hsame⟩ | ⟨hnone, hcolumns⟩
  · exact Or.inl ⟨old, hold, hrow.trans hsame⟩
  · exact Or.inr ⟨hnone, fun row hr => hcolumns (hrow ▸ hr)⟩

/-- What a page shows after a stage has gone on with the page that it was given, if it has not
changed the slot. -/
theorem BringsAt.shows_of_resume {stage : Stage} {t : TransactionId} {frame : Frame} {q : PageId}
    (h : BringsAt record.page schema s s') (hframe : s'.cache.page? q = some frame.page)
    (hq : frame.page.id = q)
    (hquiet : ∀ ⦃change⦄, stage.change? frame.page = some change → change.leaves? record = none)
    (hp : (stage.resume s' t (.ok frame)).1.cache.page? record.page = some page)
    (hid : page.id = record.page) : s.Shows record schema page := by
  rcases stage.frames_resume s' t frame with
    hsame | ⟨change, page', hchange, hshape, hrows, hframes⟩
  · rw [Cache.page?, hsame] at hp
    exact h.shows hp hid
  · rw [Cache.page?, hframes] at hp
    have hp : (s'.cache.update page'.id fun _ => page').page? record.page = some page := hp
    rw [Cache.page?_update, hshape.id_eq, hq] at hp
    split at hp
    · rename_i hpage
      rw [hpage] at hframe hq
      rw [hframe] at hp
      cases hp
      have hnone : change.leaves? { page := frame.page.id, slot := record.slot } = none := by
        rw [hq]
        exact hquiet hchange
      exact (h.shows hframe hq).of_row_eq (hrows _ hnone)
    · exact h.shows hp hid

/-- The row of a cached page. -/
theorem Shows.row_eq (h : s.Shows record schema page')
    (hp : s.cache.page? record.page = some page) :
    page'.rowAt? record.slot = page.rowAt? record.slot := by
  rcases h with ⟨old, hold, hsame⟩ | ⟨hnone, -⟩
  · rw [hp] at hold
    cases hold
    exact hsame
  · rw [hp] at hnone
    cases hnone

/-- The columns of a row are those of the table if they are so in the cache. -/
theorem Shows.columns (h : s.Shows record schema page')
    (hcached : ∀ ⦃page row⦄, s.cache.page? record.page = some page →
      page.rowAt? record.slot = some row → row.schema = schema ∧ row.recordId = some record)
    {row : Row} (hrow : page'.rowAt? record.slot = some row) :
    row.schema = schema ∧ row.recordId = some record := by
  rcases h with ⟨old, hold, hsame⟩ | ⟨-, hcolumns⟩
  · exact hcached hold (hsame ▸ hrow)
  · exact hcolumns hrow

end Store

namespace Traffic

variable {w w' : Traffic} {move : Move} {events : List Event} {l : Ledger} {record : RecordId}
  {t u : TransactionId} {mode : LockMode} {copy page : Page} {f : TableFile}

/-- The file that a task reads its page from is the one that the table of the page is registered
with. -/
theorem schema_of_sourceOf (h : ∀ p, w.SoundAt p l) {task : Task} {source : TableFile}
    (ht : w.tasks t = some task) (hs : w.sourceOf task = .ok source)
    (hf : w.store.catalog.file record.page.table = .ok f) (hp : task.page = record.page) :
    source.schema = f.schema := by
  have hfile := (h task.page).file_of_sourceOf ht hs
  rw [hp, hf] at hfile
  cases hfile
  rfl

/-- What a transaction is given shows the row that the page has in the cache, or else in its
file. -/
theorem shows_of_fetched (h : ∀ p, w.SoundAt p l) (hs : w.step move = some (events, w'))
    (hf : w.store.catalog.file record.page.table = .ok f)
    (hm : .fetched u record.page mode copy ∈ events) : w.store.Shows record f.schema copy := by
  obtain ⟨t, task, source, -, ht, hsource, hsub⟩ := exists_submit_of_fetched hs hm
  obtain ⟨es, es', he⟩ := List.append_of_mem hm
  obtain ⟨hv, -, hpage, -, frame, hframe, rfl⟩ :=
    submitEvents_eq_append ((congrArg Prod.fst hsub).trans he)
  have hfile := (h task.page).file_of_sourceOf ht hsource
  rcases (SoundAt.storeFollows h).granted_fetch hfile hv with
    ⟨e, -, hfetch⟩ | ⟨s₁, frame', l', hs₁, -, -, hp, -, hfetch⟩
  · rw [hfetch] at hframe
    cases hframe
  · have hbrings := Store.brings_fetch
      { w.store with locks :=
          (w.store.locks.consider t { page := task.page, mode := task.mode }).2 }
      t task.mode (schema_of_sourceOf h ht hsource hf)
    rw [hfetch] at hframe hbrings
    cases hframe
    have hp : s₁.cache.page? record.page = some frame.page := hpage ▸ hp
    exact hbrings.shows hp (hs₁.sound.keyed hp)

theorem shows_of_resume {task : Task} (h : ∀ p, w.SoundAt p l) (ht : w.tasks t = some task)
    (hf : w.store.catalog.file record.page.table = .ok f)
    (hquiet : ∀ ⦃u change⦄, .changed u change ∈ (w.resume t task).1 →
      change.leaves? record = none)
    (hp : (w.resume t task).2.store.cache.page? record.page = some page)
    (hid : page.id = record.page) : w.store.Shows record f.schema page := by
  have hkept : ∀ {s : Store}, s.cache.frames = w.store.cache.frames →
      s.cache.page? record.page = some page → w.store.Shows record f.schema page := by
    intro s he hp
    rw [Cache.page?, he] at hp
    exact Or.inl ⟨page, hp, rfl⟩
  cases hsource : w.sourceOf task with
  | error e =>
      rw [resume_of_error hsource, Stage.resume_error] at hp
      exact hkept rfl hp
  | ok source =>
      rw [resume_of_source hsource] at hquiet
      rw [resume_of_source hsource, store_submit] at hp
      have hquiet : ∀ ⦃u change⦄, .changed u change ∈ submitEvents w.store t source
          { page := task.page, mode := task.mode } task.stage → change.leaves? record = none :=
        hquiet
      cases hv : (w.store.locks.consider t { page := task.page, mode := task.mode }).1 with
      | waits =>
          rw [(submit_of_waits source task.stage hv).2] at hp
          exact hkept rfl hp
      | refused =>
          rw [(submit_of_refused source task.stage hv).2] at hp
          exact hkept rfl hp
      | granted =>
          have hbrings := Store.brings_fetch
            { w.store with locks :=
                (w.store.locks.consider t { page := task.page, mode := task.mode }).2 }
            t task.mode (schema_of_sourceOf h ht hsource hf)
          obtain ⟨hevents, hsub⟩ := submit_of_granted source task.stage hv rfl
          rw [hsub] at hp
          rw [hevents] at hquiet
          rcases (SoundAt.storeFollows h).granted_fetch
            ((h task.page).file_of_sourceOf ht hsource) hv with
            ⟨e, -, hfetch⟩ | ⟨s₁, frame, l', hs₁, -, -, hcached, -, hfetch⟩
          · rw [hfetch, Stage.resume_error] at hp
            exact hbrings.shows hp hid
          · rw [hfetch] at hp hquiet hbrings
            refine hbrings.shows_of_resume hcached (hs₁.sound.keyed hcached) (fun change hchange =>
              hquiet (u := t) (List.mem_append_right _ (List.mem_cons_of_mem _ ?_))) hp hid
            rw [hchange]
            exact List.mem_singleton_self _

/-- A page that is cached after a move that has not changed a slot shows the row that it had
there in the cache, or else in its file. -/
theorem shows_of_step (h : ∀ p, w.SoundAt p l) (hs : w.step move = some (events, w'))
    (hf : w.store.catalog.file record.page.table = .ok f)
    (hquiet : ∀ ⦃u change⦄, .changed u change ∈ events → change.leaves? record = none)
    (hp : w'.store.cache.page? record.page = some page) (hid : page.id = record.page) :
    w.store.Shows record f.schema page := by
  have hkept : ∀ {s : Store}, Store.RetainsAt record.page w.store s →
      s.cache.page? record.page = some page → w.store.Shows record f.schema page :=
    fun hretains hp => (hretains.brings _).shows hp hid
  cases move with
  | start u request =>
      simp only [step] at hs
      split at hs <;> cases hs
      exact hkept (.start request _ _ u) hp
  | resume u =>
      obtain ⟨task, ht, hresume⟩ := Option.map_eq_some_iff.1 hs
      refine shows_of_resume h ht hf ?_ ?_ hid
      · rw [hresume]
        exact hquiet
      · rw [hresume]
        exact hp
  | commit u =>
      cases hs
      exact hkept (.commit _ _ u) hp
  | abort u =>
      cases hs
      exact hkept (.abort _ _ u) hp
  | flushPage q =>
      simp only [step] at hs
      split at hs
      · rename_i store hflush
        cases hs
        exact hkept (.flushPage hflush) hp
      · cases hs
        exact hkept (.refl _ _) hp
  | flushPages u =>
      cases hs
      exact hkept (.untilError .flushPage _ _) hp
  | flushAll =>
      cases hs
      exact hkept (.untilError .flushPage _ _) hp
  | discard q =>
      cases hs
      exact hkept (.discard _ _ q) hp
  | release | replace =>
      cases hs
      exact hkept (.of_eq rfl) hp

section Inserted

variable {task : Task} {i : Insertion} {fields : List Field}

/-- A row is placed in its page once that is granted and fetched. -/
theorem placed_of_inserted (h : ∀ p, w.SoundAt p l) (ht : w.tasks t = some task)
    (hi : task.stage = .place i)
    (hm : .changed u (.insert record fields) ∈ (w.resume t task).1) :
    u = t ∧ i.row.fields = fields ∧ record.page = task.page ∧ ∃ source frame s₁ page',
      w.sourceOf task = .ok source ∧
        (w.store.locks.consider t { page := task.page, mode := task.mode }).1 = .granted ∧
          Store.fetch { w.store with locks :=
              (w.store.locks.consider t { page := task.page, mode := task.mode }).2 }
            t source task.page task.mode = (.ok frame, s₁) ∧
            s₁.cache.page? record.page = some frame.page ∧
              frame.page.insert i.row = .ok (record, page') := by
  obtain ⟨rfl, source, frame, hsource, hv, hframe, hchange⟩ := granted_of_changed hm
  rw [hi] at hchange
  simp only [Stage.change?] at hchange
  split at hchange
  · rename_i record' page' hins
    cases hchange
    rcases (SoundAt.storeFollows h).granted_fetch ((h task.page).file_of_sourceOf ht hsource) hv
      with ⟨e, -, hfetch⟩ | ⟨s₁, frame', l', hs₁, -, -, hcached, -, hfetch⟩
    · rw [hfetch] at hframe
      cases hframe
    · rw [hfetch] at hframe
      cases hframe
      have hid : frame.page.id = task.page := hs₁.sound.keyed hcached
      have hpage : record.page = task.page := (Page.insert_eq_ok hins).2.1.trans hid
      exact ⟨rfl, rfl, hpage, source, frame, s₁, page', hsource, hv, hfetch, hpage ▸ hcached, hins⟩
  · cases hchange

/-- A row that is placed is cached, with the columns that it came with. -/
theorem row_of_inserted (h : ∀ p, w.SoundAt p l) (ht : w.tasks t = some task)
    (hi : task.stage = .place i)
    (hm : .changed u (.insert record fields) ∈ (w.resume t task).1) :
    ∃ page, (w.resume t task).2.store.cache.page? record.page = some page ∧
      page.rowAt? record.slot = some (i.row.placedAt (some record)) := by
  obtain ⟨rfl, -, -, source, frame, s₁, page', hsource, hv, hfetch, hcached, hins⟩ :=
    placed_of_inserted h ht hi hm
  refine ⟨page', ?_, (Page.stored_of_insert hins).2⟩
  rw [resume_of_source hsource, store_submit, (submit_of_granted source task.stage hv hfetch).2,
    hi, Cache.page?, Insertion.frames_place i s₁ _ hins]
  show (s₁.cache.update page'.id fun _ => page').page? record.page = _
  rw [Cache.page?_update, (Page.sameShape_of_insert hins).id_eq, (Page.insert_eq_ok hins).2.1,
    if_pos rfl, ← (Page.insert_eq_ok hins).2.1, hcached]
  rfl

/-- Right before a row is placed, the transaction is given its page. -/
theorem events_of_inserted (h : ∀ p, w.SoundAt p l) (ht : w.tasks t = some task)
    (hi : task.stage = .place i)
    (hm : .changed u (.insert record fields) ∈ (w.resume t task).1) :
    ∃ es mode copy, (w.resume t task).1 =
        es ++ [.fetched t record.page mode copy, .changed t (.insert record fields)] ∧
      record.slot < copy.content.length := by
  obtain ⟨rfl, rfl, hpage, source, frame, s₁, page', hsource, hv, hfetch, -, hins⟩ :=
    placed_of_inserted h ht hi hm
  refine ⟨(w.store.view task.page).lockEvents u task.mode, task.mode, frame.page, ?_, ?_⟩
  · rw [resume_of_source hsource]
    show submitEvents w.store u source { page := task.page, mode := task.mode } task.stage = _
    rw [(submit_of_granted source task.stage hv hfetch).1, hpage, hi]
    simp only [fetchEvents, Stage.change?, hins]
    rfl
  · obtain ⟨hlt, -⟩ := List.findIdx?_eq_some_iff_getElem.1 (Page.stored_of_insert hins).1
    exact hlt

end Inserted

end Traffic

end PagedStore

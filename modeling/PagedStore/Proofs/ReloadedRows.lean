import PagedStore.Proofs.CachedRows

/-!
# Rows of pages that were read again

A row that is inserted keeps its values for as long as its slot is not changed, and gets the address
of its slot.  But it is cached as it came, with the columns of whoever has inserted it, which need
only have the types of the table's (`Page.insert`).  The file has no columns, so once the page has
been evicted, and read again, the row has those of the table (`Traffic.reloaded_row`).
-/

namespace PagedStore

namespace Traffic

variable {s₀ : Store} {w w' w₁ w₂ w₃ : Traffic} {before history since events events' : List Event}
  {move : Move} {record : RecordId} {row : Row} {f : TableFile} {p : PageId}
  {t u : TransactionId} {mode : LockMode} {copy : Page}

/-! ## Cached pages -/

/-- A move of orderly traffic that leaves the page in the cache. -/
def Keeping (p : PageId) (l : Ledger) (w : Traffic) (move : Move) (w' : Traffic) : Prop :=
  Orderly l w move w' ∧ w'.store.cache.page? p ≠ none

/-- The page was not cached all the time since then. -/
def Dropped (p : PageId) (before : List Event) (w₁ : Traffic) (history : List Event)
    (w : Traffic) : Prop :=
  ∃ gone wg, RunOn Orderly before w₁ gone wg ∧ wg.store.cache.page? p = none ∧
    RunOn Orderly gone wg history w

/-- A page stays in the cache, or is dropped at some time. -/
theorem RunOn.keeping_or_dropped (p : PageId) (hon : RunOn Orderly before w₁ history w) :
    RunOn (Keeping p) before w₁ history w ∨ Dropped p before w₁ history w := by
  induction hon with
  | start => exact Or.inl .start
  | @step _ _ _ w' _ hon hrule hs ih =>
      rcases ih with hkept | ⟨gone, wg, hgone, hnone, hrest⟩
      · by_cases hp' : w'.store.cache.page? p = none
        · exact Or.inr ⟨_, w', hon.step hrule hs, hp', .start⟩
        · exact Or.inl (hkept.step ⟨hrule, hp'⟩ hs)
      · exact Or.inr ⟨gone, wg, hgone, hnone, hrest.step hrule hs⟩

/-- What a cached page shows after an orderly move that has not changed the slot. -/
theorem shows_of_orderly (h₀ : Fresh s₀) (h : Run Orderly s₀ history w)
    (hrule : Orderly (Ledger.of history) w move w') (hs : w.step move = some (events, w'))
    (hn : ∀ p, w'.store.NumberedAt p) (hf : w.store.catalog.file record.page.table = .ok f)
    (hc : ∀ ⦃v change⦄, .changed v change ∈ events → change.leaves? record = none) {page : Page}
    (hp : w'.store.cache.page? record.page = some page) : w.store.Shows record f.schema page := by
  have hid : page.id = record.page :=
    (soundAt_of_orderly h₀ (h.step hrule hs) (hn record.page)).store.keyed hp
  exact shows_of_step
    (fun p => soundAt_of_orderly h₀ h ((grew_of_step hrule hs).numberedAt (hn p))) hs hf hc hp hid

/-- A row of a page that stays in the cache is the same all the time. -/
theorem row_of_keeping (h₀ : Fresh s₀) (h : Run Orderly s₀ before w₁)
    (hf : w₁.store.catalog.file record.page.table = .ok f)
    (hrow : ∃ page, w₁.store.cache.page? record.page = some page ∧
      page.rowAt? record.slot = some row)
    (hon : RunOn (Keeping record.page) before w₁ (before ++ since) w)
    (hn : ∀ p, w.store.NumberedAt p)
    (hc : ∀ ⦃v change⦄, .changed v change ∈ since → change.leaves? record = none) :
    ∃ page, w.store.cache.page? record.page = some page ∧ page.rowAt? record.slot = some row := by
  generalize he : before ++ since = history at hon
  induction hon generalizing since with
  | start => exact hrow
  | @step history events w w' move hon hrule hs ih =>
      obtain ⟨earlier, rfl⟩ := hon.exists_append
      obtain rfl : since = earlier ++ events :=
        List.append_cancel_left (he.trans (List.append_assoc ..))
      have hnow := fun p => (grew_of_step hrule.1 hs).numberedAt (hn p)
      have horderly : RunOn Orderly before w₁ (before ++ earlier) w := hon.mono And.left
      obtain ⟨old, hold, hrow⟩ :=
        ih hnow (fun v change hm => hc (List.mem_append_left _ hm)) rfl
      obtain ⟨page, hp⟩ := Option.ne_none_iff_exists'.1 hrule.2
      refine ⟨page, hp, ?_⟩
      have hshows := shows_of_orderly h₀ (h.on horderly id) hrule.1 hs hn
        (horderly.grew.catalog ▸ hf) (fun v change hm => hc (List.mem_append_right _ hm)) hp
      exact (hshows.row_eq hold).trans hrow

/-- A row of a page that is cached again has the columns of the table. -/
theorem columns_of_dropped (h₀ : Fresh s₀) (h : Run Orderly s₀ before w₁)
    (hf : w₁.store.catalog.file record.page.table = .ok f)
    (hon : Dropped record.page before w₁ (before ++ since) w) (hn : ∀ p, w.store.NumberedAt p)
    (hc : ∀ ⦃v change⦄, .changed v change ∈ since → change.leaves? record = none) {page : Page}
    (hp : w.store.cache.page? record.page = some page)
    (hrow : page.rowAt? record.slot = some row) :
    row.schema = f.schema ∧ row.recordId = some record := by
  obtain ⟨gone, wg, hgone, hnone, hrest⟩ := hon
  obtain ⟨first, rfl⟩ := hgone.exists_append
  obtain ⟨later, hlater⟩ := hrest.exists_append
  obtain rfl : since = first ++ later :=
    List.append_cancel_left (hlater.trans (List.append_assoc ..))
  replace hf : wg.store.catalog.file record.page.table = .ok f := hgone.grew.catalog ▸ hf
  replace hc : ∀ ⦃v change⦄, .changed v change ∈ later → change.leaves? record = none :=
    fun v change hm => hc (List.mem_append_right _ hm)
  -- When the page was out of the cache nothing has to be shown, so the induction starts there.
  generalize before ++ (first ++ later) = history at hrest hlater
  induction hrest generalizing later page row with
  | start =>
      rw [hp] at hnone
      cases hnone
  | @step history events w w' move hon hrule hs ih =>
      obtain ⟨earlier, rfl⟩ := hon.exists_append
      obtain rfl : earlier ++ events = later :=
        List.append_cancel_left ((List.append_assoc ..).symm.trans hlater)
      have hnow := fun p => (grew_of_step hrule hs).numberedAt (hn p)
      have hshows := shows_of_orderly h₀ ((h.on hgone id).on hon id) hrule hs hn
        (hon.grew.catalog ▸ hf) (fun v change hm => hc (List.mem_append_right _ hm)) hp
      exact hshows.columns (fun old row hold hrow => ih hnow hold hrow earlier
        (fun v change hm => hc (List.mem_append_left _ hm)) rfl) hrow

/-! ## Rows that were inserted -/

/-- Before a transaction is given a page, no more can happen in the same move than that it is
granted the lock. -/
theorem append_of_fetched (hs : w.step move = some (events, w'))
    (hm : .fetched u p mode copy ∈ events) :
    ∃ es es', events = es ++ .fetched u p mode copy :: es' ∧
      ∀ event ∈ es, ∃ image, event = .locked u p image := by
  obtain ⟨t, task, source, -, -, -, hsub⟩ := exists_submit_of_fetched hs hm
  obtain ⟨es, es', he⟩ := List.append_of_mem hm
  obtain ⟨-, rfl, rfl, rfl, -⟩ := submitEvents_eq_append ((congrArg Prod.fst hsub).trans he)
  refine ⟨_, es', he, fun event hevent => ?_⟩
  rw [PageView.lockEvents] at hevent
  split at hevent
  · exact ⟨_, List.mem_singleton.1 hevent⟩
  · cases hevent

/-- Whoever is given the page of a row after it was inserted finds its values. -/
theorem content_of_inserted (h₀ : Fresh s₀) {task : Task} {i : Insertion} {fields : List Field}
    (hsound : ∀ p, w.SoundAt p (Ledger.of before)) (ht : w.tasks t = some task)
    (hi : task.stage = .place i)
    (hm : .changed t (.insert record fields) ∈ (w.resume t task).1)
    (hrun : Run Orderly s₀ (before ++ (w.resume t task).1 ++ since ++ events) w')
    (hn : ∀ p, w'.store.NumberedAt p)
    (hc : ∀ ⦃v change⦄, .changed v change ∈ since → change.leaves? record = none)
    (ha : ∀ ⦃a b⦄, since = a ++ .aborted t :: b → .committed t ∈ a)
    (hs : w₂.step move = some (events, w'))
    (hm' : .fetched u record.page mode copy ∈ events) :
    copy.content[record.slot]? = some (some fields) := by
  obtain ⟨es, mode₀, copy₀, hevents, hslot⟩ := events_of_inserted hsound ht hi hm
  obtain ⟨es', later, rfl, hlocked⟩ := append_of_fetched hs hm'
  have he : before ++ (w.resume t task).1 ++ since ++
      (es' ++ .fetched u record.page mode copy :: later) =
        (before ++ es) ++ .fetched t record.page mode₀ copy₀ ::
          .changed t (.insert record fields) ::
            ((since ++ es') ++ .fetched u record.page mode copy :: later) := by
    rw [hevents]
    simp
  refine content_of_left h₀ hrun hn he hslot (if_pos rfl) (fun v other hm => ?_) fun a b he => ?_
  · rcases List.mem_append.1 hm with hm | hm
    · exact hc hm
    · obtain ⟨image, ⟨⟩⟩ := hlocked _ hm
  · rcases append_eq_append_cons he with ⟨rest, -, hrest⟩ | ⟨rest, hrest⟩
    · obtain ⟨image, ⟨⟩⟩ := hlocked _ (hrest ▸ List.mem_append_right _ List.mem_cons_self)
    · exact ha hrest

/-- A transaction has inserted a row, its slot has not been changed since, and it was not aborted
before it committed.  Whoever is given the page then, by a scan or otherwise, finds the row at its
address.  It is as it was inserted if the page has been cached all the time.  If the page has been
read again, the row has the columns of the table, and is the same but for that. -/
theorem reloaded_row (h₀ : Fresh s₀) (h : Run Orderly s₀ before w) {task : Task} {i : Insertion}
    {fields : List Field} (ht : w.tasks t = some task) (hi : task.stage = .place i)
    (hs : w.step (.resume t) = some (events, w₁))
    (hm : .changed t (.insert record fields) ∈ events)
    (hon : RunOn Orderly (before ++ events) w₁ (before ++ events ++ since) w₂)
    (hc : ∀ ⦃v change⦄, .changed v change ∈ since → change.leaves? record = none)
    (ha : ∀ ⦃a b⦄, since = a ++ .aborted t :: b → .committed t ∈ a)
    (hrule : Orderly (Ledger.of (before ++ events ++ since)) w₂ move w₃)
    (hs' : w₂.step move = some (events', w₃)) (hn : ∀ p, w₃.store.NumberedAt p)
    (hm' : .fetched u record.page mode copy ∈ events')
    (hf : w.store.catalog.file record.page.table = .ok f) :
    ∃ row, copy.rowAt? record.slot = some row ∧
      (RunOn (Keeping record.page) (before ++ events) w₁ (before ++ events ++ since) w₂ ∨
        Dropped record.page (before ++ events) w₁ (before ++ events ++ since) w₂) ∧
      (RunOn (Keeping record.page) (before ++ events) w₁ (before ++ events ++ since) w₂ →
        row = i.row.placedAt (some record)) ∧
      (Dropped record.page (before ++ events) w₁ (before ++ events ++ since) w₂ →
        row = { i.row.placedAt (some record) with schema := f.schema }) := by
  have hn₂ := fun p => (grew_of_step hrule hs').numberedAt (hn p)
  have hn₁ := fun p => hon.grew.numberedAt (hn₂ p)
  have hplace : Orderly (Ledger.of before) w (.resume t) w₁ := trivial
  have hgrew := grew_of_step hplace hs
  have hsound := fun p => soundAt_of_orderly h₀ h (hgrew.numberedAt (hn₁ p))
  have hrun₁ := h.step hplace hs
  have hrun₂ := hrun₁.on hon id
  have hresume : w.resume t task = (events, w₁) := by
    rw [step, ht] at hs
    exact Option.some.inj hs
  have hm : .changed t (.insert record fields) ∈ (w.resume t task).1 := hresume ▸ hm
  obtain ⟨-, rfl, -⟩ := placed_of_inserted hsound ht hi hm
  have hinserted := row_of_inserted hsound ht hi hm
  have hcontent := content_of_inserted h₀ hsound ht hi hm
    (hresume.symm ▸ hrun₂.step hrule hs') hn hc ha hs' hm'
  rw [hresume] at hinserted
  obtain ⟨row, hrow, hfields⟩ := Page.rowAt?_of_content hcontent
  have hf₁ : w₁.store.catalog.file record.page.table = .ok f := hgrew.catalog ▸ hf
  have hshows := shows_of_fetched (fun p => soundAt_of_orderly h₀ hrun₂ (hn₂ p)) hs'
    (hon.grew.catalog ▸ hf₁) hm'
  refine ⟨row, hrow, hon.keeping_or_dropped record.page, fun hkept => ?_, fun hdropped => ?_⟩
  · obtain ⟨old, hold, hplaced⟩ := row_of_keeping h₀ hrun₁ hf₁ hinserted hkept hn₂ hc
    exact Option.some.inj (hrow.symm.trans ((hshows.row_eq hold).trans hplaced))
  · have hcolumns := hshows.columns
      (fun _ _ => columns_of_dropped h₀ hrun₁ hf₁ hdropped hn₂ hc) hrow
    -- The file has kept the values, and all else comes from the table and the slot.
    obtain ⟨schema, values, recordId⟩ := row
    obtain ⟨rfl, rfl⟩ := hcolumns
    obtain rfl : values = i.row.fields := hfields
    rfl

namespace Small

/-- The columns of the table under another name. -/
def renamed : Schema := { columns := [{ type := .int, name := some "x" }] }

/-- A transaction comes to insert a row with these columns. -/
def insertingRenamed : List Move :=
  [.start ⟨1⟩ (.insert ⟨1⟩ (some renamed) [[.int 7]]), .resume ⟨1⟩, .resume ⟨1⟩, .resume ⟨1⟩]

/-- What the transaction waits to do. -/
def placingRenamed : Insertion :=
  { insertion with schema := renamed, row := { schema := renamed, fields := [.int 7] } }

/-- The row is inserted. -/
def insertedRenamed : List Event × Traffic :=
  ((after insertingRenamed).2.step (.resume ⟨1⟩)).getD ([], { store })

/-- The transaction commits.  Another one reads as many pages as are cached, and comes to read the
page of the row. -/
def readingOthers : List Move :=
  [.commit ⟨1⟩, .start ⟨2⟩ (.getPage (page 0) .shared), .resume ⟨2⟩,
   .start ⟨2⟩ (.getPage (page 1) .shared), .resume ⟨2⟩, .start ⟨2⟩ (.getPage (page 3) .shared)]

/-- What comes of it. -/
def readOthers : List Event × Traffic :=
  (insertedRenamed.2.steps readingOthers).getD ([], { store })

/-- The page is read. -/
def readAgain : List Event × Traffic :=
  (readOthers.2.step (.resume ⟨2⟩)).getD ([], { store })

/-- The page as it is read. -/
def reread : Page where
  id := page 3
  schema := file.schema
  pageSize := 5
  slots := [some { schema := file.schema, fields := [.int 7], recordId := Small.record 3 }]
  owner := none
  beforeImage := [1, 0, 0, 0, 7]

theorem runOn_readingOthers :
    RunOn Orderly ((after insertingRenamed).1 ++ insertedRenamed.1) insertedRenamed.2
      ((after insertingRenamed).1 ++ insertedRenamed.1 ++ readOthers.1) readOthers.2 := by
  have hplain : ∀ move ∈ readingOthers, move.isPlain = true := by decide
  have hsome : (insertedRenamed.2.steps readingOthers).isSome = true := by decide +kernel
  have hsteps : insertedRenamed.2.steps readingOthers = some readOthers := eq_some_getD hsome _
  exact RunOn.start.steps (fun move hm _ _ _ => orderly_of_isPlain (hplain move hm)) hsteps

theorem step_insertingRenamed :
    (after insertingRenamed).2.step (.resume ⟨1⟩) = some insertedRenamed := by
  have hstep : ((after insertingRenamed).2.step (.resume ⟨1⟩)).isSome = true := by decide +kernel
  exact eq_some_getD hstep _

theorem step_readOthers : readOthers.2.step (.resume ⟨2⟩) = some readAgain := by
  have hstep : (readOthers.2.step (.resume ⟨2⟩)).isSome = true := by decide +kernel
  exact eq_some_getD hstep _

end Small

theorem reloaded_row_small :
    ((Small.insertedRenamed.2.store.cache.page? (Small.page 3)).bind fun page => page.rowAt? 0) =
        some { schema := Small.renamed, fields := [.int 7], recordId := Small.record 3 } ∧
      .fetched ⟨2⟩ (Small.page 3) .shared Small.reread ∈ Small.readAgain.1 ∧
        Small.reread.rowAt? 0 =
            some { schema := Small.file.schema, fields := [.int 7], recordId := Small.record 3 } ∧
          Small.file.schema ≠ Small.renamed := by
  have htask : (Small.after Small.insertingRenamed).2.tasks ⟨1⟩ =
      some { page := Small.page 3, mode := .exclusive, stage := .place Small.placingRenamed } := by
    decide +kernel
  have hinserted : .changed ⟨1⟩ (.insert { page := Small.page 3, slot := 0 } [.int 7]) ∈
      Small.insertedRenamed.1 := by decide +kernel
  have hquiet : ∀ event ∈ Small.readOthers.1, (match event with
      | .changed .. | .aborted _ => false
      | _ => true) = true := by decide +kernel
  have hunchanged : ∀ ⦃v change⦄, .changed v change ∈ Small.readOthers.1 →
      change.leaves? { page := Small.page 3, slot := 0 } = none :=
    fun v change hm => nomatch hquiet _ hm
  have hundone : ∀ ⦃a b⦄, Small.readOthers.1 = a ++ .aborted ⟨1⟩ :: b → .committed ⟨1⟩ ∈ a := by
    intro a b he
    have hm : .aborted ⟨1⟩ ∈ Small.readOthers.1 := by
      rw [he]
      exact List.mem_append_right _ List.mem_cons_self
    exact nomatch hquiet _ hm
  have hread : .fetched ⟨2⟩ (Small.page 3) .shared Small.reread ∈ Small.readAgain.1 := by
    decide +kernel
  have hgone : Small.readOthers.2.store.cache.page? (Small.page 3) = none := by decide +kernel
  have hfile : (Small.after Small.insertingRenamed).2.store.catalog.file ⟨1⟩ = .ok Small.file := by
    rfl
  have hrule : Orderly (Ledger.of ((Small.after Small.insertingRenamed).1 ++
      Small.insertedRenamed.1 ++ Small.readOthers.1)) Small.readOthers.2 (.resume ⟨2⟩)
      Small.readAgain.2 := trivial
  obtain ⟨row, hrow, -, -, hdropped⟩ :=
    reloaded_row Small.fresh (Small.run (by decide) (by decide +kernel)) htask rfl
      Small.step_insertingRenamed hinserted Small.runOn_readingOthers hunchanged hundone hrule
      Small.step_readOthers (Small.numberedAt (by decide +kernel) (by decide +kernel)) hread hfile
  refine ⟨by decide +kernel, hread, ?_, by decide⟩
  rw [show Small.reread.rowAt? 0 = some row from hrow,
    hdropped ⟨_, _, Small.runOn_readingOthers, hgone, .start⟩]
  rfl

end Traffic

end PagedStore

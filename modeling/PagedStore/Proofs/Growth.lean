import PagedStore.Proofs.Endings
import PagedStore.Proofs.TaskSteps

/-!
# Files grow

Whatever is asked of a store, the tables stay the same and no file gets shorter, unless
tables are replaced or files are changed past the store (`Traffic.grew_of_ne_replace`).  An
operation that fails is no exception.  Requests are parked, and taken up again, only where
a request is evaluated (`Store.Steady`).

So if the pages of a table can be counted at the end of an orderly run, they could be
counted all along, and the run was tidy for each of them (`Traffic.Run.tidyAt`).
-/

namespace PagedStore

/-- No page is the only one. -/
theorem PageId.exists_ne (id : PageId) : ∃ p, id ≠ p :=
  ⟨{ id with number := id.number + 1 }, fun h =>
    Nat.ne_of_lt (Nat.lt_succ_self id.number) (congrArg PageId.number h)⟩

namespace Store

variable {s s' s'' : Store}

/-- The tables are the same, and no file is shorter. -/
structure Grew (s s' : Store) : Prop where
  catalog : s'.catalog = s.catalog
  grows : s.disk.Grows s'.disk

/-- Besides, the same requests are parked. -/
structure Steady (s s' : Store) : Prop extends Grew s s' where
  parked : s'.locks.parked = s.locks.parked

namespace Grew

theorem refl (s : Store) : Grew s s := ⟨rfl, Disk.Grows.refl _⟩

theorem trans (h : Grew s s') (h' : Grew s' s'') : Grew s s'' :=
  ⟨h'.catalog.trans h.catalog, h.grows.trans h'.grows⟩

/-- The pages of a table can be counted before if they can be counted after. -/
theorem numberedAt {p : PageId} (h : Grew s s') (hn : s'.NumberedAt p) : s.NumberedAt p :=
  hn.of_grows h.catalog h.grows

/-- A page that lies inside its file stays there. -/
theorem image {p : PageId} (h : Grew s s') (hi : (s.view p).image ≠ none) :
    (s'.view p).image ≠ none := by
  cases hf : s.catalog.file p.table with
  | error e =>
      have hnone : (s.view p).image = none := by
        rw [view, hf]
        rfl
      exact absurd hnone hi
  | ok f =>
      have hlength : (s.disk.contents f).length ≤ (s'.disk.contents f).length := h.grows f.name
      rw [image_view hf, TableFile.image?] at hi
      rw [image_view (h.catalog ▸ hf), TableFile.image?]
      split at hi
      · rename_i hin
        rw [if_pos (Nat.le_trans hin hlength)]
        exact Option.some_ne_none _
      · exact absurd rfl hi

end Grew

namespace Steady

theorem refl (s : Store) : Steady s s := ⟨.refl s, rfl⟩

theorem trans (h : Steady s s') (h' : Steady s' s'') : Steady s s'' :=
  ⟨h.toGrew.trans h'.toGrew, h'.parked.trans h.parked⟩

/-- Only the cache and the counters are changed. -/
theorem of_eq (hc : s'.catalog = s.catalog) (hd : s'.disk = s.disk)
    (hp : s'.locks.parked = s.locks.parked) : Steady s s' := by
  refine ⟨⟨hc, ?_⟩, hp⟩
  rw [hd]
  exact .refl _

end Steady

theorem QuietAt.steady {p : PageId} (h : QuietAt p s s') : Steady s s' :=
  ⟨⟨h.catalog, h.grows⟩, congrArg LockTable.parked h.locks⟩

/-! ## The operations of a store -/

theorem steady_fetch (s : Store) (t : TransactionId) (f : TableFile) (id : PageId)
    (mode : LockMode) : Steady s (s.fetch t f id mode).2 := by
  -- What is known of another page is enough here.
  obtain ⟨p, hne⟩ := id.exists_ne
  rcases fetch_cases (s := s) (t := t) (f := f) mode fun h => absurd h hne with
    ⟨-, hq⟩ | ⟨s₁, page, frame, hq, -, -, -, htake⟩
  · exact hq.steady
  · rw [htake]
    exact hq.steady.trans (.of_eq rfl rfl rfl)

theorem steady_untilError {α : Type} {f : Store → α → Except StoreError Store}
    (hf : ∀ {s a s'}, f s a = .ok s' → Steady s s') (s : Store) (as : List α) :
    Steady s (untilError f s as).2 := by
  induction as generalizing s with
  | nil => exact .refl s
  | cons a as ih =>
      rw [untilError]
      split
      · exact .refl s
      · rename_i s₁ h
        exact (hf h).trans (ih s₁)

theorem steady_flushPage {id : PageId} (h : s.flushPage id = .ok s') : Steady s s' :=
  (quietAt_flushPage (p := id) h).steady

theorem steady_flushPages (s : Store) (t : TransactionId) : Steady s (s.flushPages t).2 :=
  steady_untilError steady_flushPage s _

theorem steady_flushAll (s : Store) : Steady s s.flushAll.2 :=
  steady_untilError steady_flushPage s _

theorem steady_discard (s : Store) (id : PageId) : Steady s (s.discard id) := by
  rw [discard]
  split
  · exact .refl s
  · dsimp only
    split <;> exact .of_eq rfl rfl rfl

theorem steady_writeOut {page : Page} (h : s.writeOut page = .ok s') : Steady s s' := by
  obtain ⟨f, disk, -, hw, rfl⟩ := writeOut_eq_ok h
  exact ⟨⟨rfl, Disk.grows_of_writeImage hw⟩, rfl⟩

theorem steady_commitPage {id : PageId} (h : s.commitPage id = .ok s') : Steady s s' := by
  rw [commitPage] at h
  split at h
  · cases h
    exact .refl s
  · split at h
    · cases h
    · rename_i s₁ hw
      cases h
      exact (steady_writeOut hw).trans (.of_eq rfl rfl rfl)

theorem steady_releaseAll (s : Store) (t : TransactionId) : Steady s (s.releaseAll t) :=
  .of_eq rfl rfl (LockTable.parked_releaseAll s.locks t)

theorem steady_commit (s : Store) (t : TransactionId) : Steady s (s.commit t).2 := by
  have h : Steady s (untilError commitPage s (s.cache.ownedBy t)).2 :=
    steady_untilError steady_commitPage s _
  rw [commit]
  split
  · rename_i e s₁ hu
    rw [hu] at h
    exact h
  · rename_i s₁ hu
    rw [hu] at h
    have hforget : Steady s₁ (s₁.onCache fun c => c.forget t) := .of_eq rfl rfl rfl
    exact (h.trans hforget).trans (steady_releaseAll ..)

theorem steady_restoreAll (s : Store) (images : List (PageId × Bytes)) :
    Steady s (s.restoreAll images).2 := by
  induction images generalizing s with
  | nil => exact .refl s
  | cons entry images ih =>
      rw [restoreAll]
      split
      · rename_i s₁ hr
        obtain ⟨f, disk, -, hw, rfl⟩ := restore_eq_ok hr
        have h : Steady s ({ s with disk }.count .pagesWritten) :=
          ⟨⟨rfl, Disk.grows_of_writeImage hw⟩, rfl⟩
        exact h.trans (ih _)
      · exact ih s

theorem steady_abort (s : Store) (t : TransactionId) : Steady s (s.abort t).2 := by
  obtain ⟨hd, hc, hl, -⟩ := foldl_dropSpoiled (s.spoiled t) s
  have h : Steady s (s.dropped t) := .of_eq hc hd (congrArg LockTable.parked hl)
  exact (h.trans (steady_restoreAll (s.dropped t) (s.keptImages t))).trans
    (steady_releaseAll ..)

end Store

open Store (Grew Steady)

/-! ## Tasks -/

theorem Insertion.steady_search (task : Insertion) (s : Store) (t : TransactionId)
    (page count : Nat) : Steady s (task.search s t page count).1 := by
  rw [search]
  split
  · exact .refl s
  · exact ⟨⟨rfl, Disk.grows_append _ _⟩, rfl⟩

theorem Insertion.steady_begin (s : Store) (t : TransactionId) (table : TableId) (schema : Schema)
    (stored : List RecordId) (rows : List (List Field)) :
    Steady s (begin s t table schema stored rows).1 := by
  cases rows with
  | nil => exact .refl s
  | cons fields rows =>
      rw [begin]
      split
      · exact .refl s
      · split
        · exact .refl s
        · split
          · exact steady_search ..
          · exact .refl s

theorem Insertion.steady_looked (task : Insertion) (s : Store) (t : TransactionId)
    (page count : Nat) (heldBefore : Bool) (frame : Frame) :
    Steady s (task.looked s t page count heldBefore frame).1 := by
  rw [looked]
  split
  · exact .refl s
  · cases heldBefore with
    | true => exact task.steady_search s t _ _
    | false =>
        have h : Steady s (s.releasePage t frame.page.id).2 := .of_eq rfl rfl rfl
        exact h.trans (task.steady_search ..)

theorem Stage.steady_resume (stage : Stage) (s : Store) (t : TransactionId)
    (r : Except StoreError Frame) : Steady s (stage.resume s t r).1 := by
  cases r with
  | error e =>
      rw [stage.resume_error]
      exact .refl s
  | ok frame =>
      cases stage with
      | get => exact .refl s
      | look task page count heldBefore => exact task.steady_looked ..
      | place task =>
          rw [resume, Insertion.place]
          split
          · exact .refl s
          · rename_i record page _
            have h : Steady s (s.onCache fun c => c.update page.id fun _ => page) :=
              .of_eq rfl rfl rfl
            exact h.trans (Insertion.steady_begin ..)
      | delete record answer =>
          rw [resume]
          split
          · exact .refl s
          · exact .of_eq rfl rfl rfl
      | feed => exact .refl s

theorem Request.steady_start (request : Request) (s : Store) (t : TransactionId) :
    Steady s (request.start s t).1 := by
  simp only [start]
  split
  · exact .refl s
  · exact Insertion.steady_begin ..
  · split
    · exact .refl s
    · exact Insertion.steady_begin ..
  · exact .refl s
  · split <;> exact .refl s
  · split
    · exact .refl s
    · split
      · exact .refl s
      · split <;> exact .refl s
  · exact .refl s

/-- After a request is evaluated, the store differs from then on by what is steady. -/
theorem steady_submit (s : Store) (t : TransactionId) (source : TableFile) (r : LockRequest)
    (stage : Stage) :
    Steady { s with locks := (s.locks.consider t r).2 } (submit s t source r stage).2 := by
  rw [submit]
  dsimp only
  split
  · exact .refl _
  · exact stage.steady_resume ..
  · exact (Store.steady_fetch ..).trans (stage.steady_resume ..)

/-! ## Runs -/

namespace Traffic

variable {s₀ : Store} {w w' : Traffic} {move : Move} {history events : List Event} {l : Ledger}

theorem grew_submit (w : Traffic) (t : TransactionId) (task : Task) (source : TableFile) :
    Grew w.store (w.submit t task source).2.store := by
  have h := (steady_submit w.store t source { page := task.page, mode := task.mode }
    task.stage).toGrew
  rw [submit]
  dsimp only
  split
  · rename_i store hs
    rw [hs] at h
    exact ⟨h.catalog, h.grows⟩
  · rename_i next store hs
    rw [hs] at h
    exact ⟨h.catalog, h.grows⟩

theorem grew_resume (w : Traffic) (t : TransactionId) (task : Task) :
    Grew w.store (w.resume t task).2.store := by
  rw [resume]
  split
  · exact grew_submit ..
  · split
    · exact grew_submit ..
    · exact (task.stage.steady_resume ..).toGrew

/-- As long as nothing is changed past the store, the tables stay as they are and no file gets
shorter. -/
theorem grew_of_ne_replace (hr : ∀ catalog disk, move ≠ .replace catalog disk)
    (hs : w.step move = some (events, w')) : Grew w.store w'.store := by
  cases move with
  | start t request =>
      simp only [step] at hs
      split at hs
      · cases hs
      · cases hs
        exact (request.steady_start ..).toGrew
  | resume t =>
      obtain ⟨task, -, hr⟩ := Option.map_eq_some_iff.1 hs
      have := w.grew_resume t task
      rwa [hr] at this
  | commit t =>
      cases hs
      exact (Store.steady_commit ..).toGrew
  | abort t =>
      cases hs
      exact (Store.steady_abort ..).toGrew
  | flushPage page =>
      simp only [step] at hs
      split at hs
      · rename_i store hf
        cases hs
        exact (Store.steady_flushPage hf).toGrew
      · cases hs
        exact .refl _
  | flushPages t =>
      cases hs
      exact (Store.steady_flushPages ..).toGrew
  | flushAll =>
      cases hs
      exact (Store.steady_flushAll ..).toGrew
  | discard page =>
      cases hs
      exact (Store.steady_discard ..).toGrew
  | release t page =>
      cases hs
      exact ⟨rfl, Disk.Grows.refl _⟩
  | replace catalog disk => exact absurd rfl (hr catalog disk)

theorem Orderly.ne_replace (h : Orderly l w move w') (catalog : Catalog) (disk : Disk) :
    move ≠ .replace catalog disk := by
  rintro rfl
  exact h

theorem grew_of_step (hr : Orderly l w move w') (hs : w.step move = some (events, w')) :
    Grew w.store w'.store := grew_of_ne_replace hr.ne_replace hs

theorem RunOn.grew {earlier : List Event} {w₀ : Traffic}
    (h : RunOn Orderly earlier w₀ history w) : Grew w₀.store w.store := by
  induction h with
  | start => exact .refl _
  | step _ hrule hs ih => exact ih.trans (grew_of_step hrule hs)

/-- An orderly move is tidy for a page, if the pages of its table can be counted after it. -/
theorem Orderly.tidyAt {p : PageId} (h : Orderly l w move w')
    (hn : w'.store.NumberedAt p) :
    TidyAt p l w move w' := by
  refine ⟨hn, ?_⟩
  cases move with
  | discard q =>
      rintro rfl
      exact h
  | release t q =>
      rintro rfl
      exact h
  | replace catalog disk => cases h
  | _ => trivial

/-- An orderly run is tidy for a page, if the pages of its table can be counted at the end. -/
theorem Run.tidyAt {p : PageId} (h : Run Orderly s₀ history w) (hn : w.store.NumberedAt p) :
    Run (TidyAt p) s₀ history w := by
  induction h with
  | start => exact .start
  | step _ hrule hs ih =>
      exact .step (ih ((grew_of_step hrule hs).numberedAt hn)) (hrule.tidyAt hn) hs

/-- The same holds for the store that an orderly run began with. -/
theorem Run.numberedAt_start {p : PageId} (h : Run Orderly s₀ history w)
    (hn : w.store.NumberedAt p) : s₀.NumberedAt p := by
  induction h with
  | start => exact hn
  | step _ hrule hs ih => exact ih ((grew_of_step hrule hs).numberedAt hn)

end Traffic

end PagedStore

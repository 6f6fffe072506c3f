import PagedStore.Proofs.Insertions

/-!
# Insertions among others

While a transaction inserts rows others may do what they like.  What its insertion knows of the
page that it has asked for stays true (`Traffic.AptFor.step`), since the page keeps its content
while the transaction holds it.

So there is a slot for every row whose columns have the types of its table, in a page that was
there before the insertion began, and in a page that the transaction holds
(`Traffic.insertion_result`).  The exception is a page that the insertion has put at the end of
the file.  It is not locked yet, and may be full when it is.  This does happen
(`Traffic.insertion_result_small`).
-/

namespace PagedStore

open Store (Grew)

variable {before : Store} {t : TransactionId} {l : Ledger}

/-! ## What an insertion knows all along -/

/-- By the move the transaction is ended, or releases a lock early. -/
def Move.quits (t : TransactionId) : Move → Bool
  | .commit u | .abort u | .release u _ => u = t
  | _ => false

namespace Traffic

variable {s₀ : Store} {w₀ w w' : Traffic} {move : Move} {earlier history events : List Event}

/-- An orderly move, by which the transaction is not ended and releases no lock while it inserts
rows. -/
def Devoted (t : TransactionId) (l : Ledger) (w : Traffic) (move : Move) (w' : Traffic) : Prop :=
  Orderly l w move w' ∧
    (move.quits t = true → ∀ ⦃task⦄, w.tasks t = some task → task.stage.insertion? = none)

theorem devoted_of_isPlain (hp : move.isPlain = true) (hq : move.quits t = false) :
    Devoted t l w move w' :=
  ⟨orderly_of_isPlain hp, fun h => by rw [hq] at h; cases h⟩

/-- No file is shorter than it was before, and the insertion of a transaction knows its page. -/
structure AptFor (before : Store) (t : TransactionId) (w : Traffic) : Prop where
  grew : Grew before w.store
  tasks : ∀ ⦃task i⦄, w.tasks t = some task → task.stage.insertion? = some i →
    i.AptAt before w.store t task.page task.stage

theorem SoundAt.file_of_sourceOf {task : Task} {source : TableFile} (h : w.SoundAt task.page l)
    (ht : w.tasks t = some task) (hs : w.sourceOf task = .ok source) :
    w.store.catalog.file task.page.table = .ok source := by
  rw [sourceOf] at hs
  split at hs
  · rename_i hlooked
    cases hs
    exact h.file_of_source ht hlooked
  · exact hs

/-- Nothing that others do spoils what an insertion knows. -/
theorem AptFor.keep (h₀ : Fresh s₀) (hrun : Run Orderly s₀ history w) (h : w.AptFor before t)
    (hr : Orderly (Ledger.of history) w move w') (hs : w.step move = some (events, w'))
    (hn : ∀ p, w'.store.NumberedAt p) (hne : ∀ ⦃u⦄, move.for? = some u → u ≠ t)
    (ht : w'.tasks t = w.tasks t) : w'.AptFor before t := by
  have hg := grew_of_step hr hs
  refine ⟨h.grew.trans hg, fun task i htask hi => ?_⟩
  have hsound := soundAt_of_orderly h₀ hrun (hg.numberedAt (hn task.page))
  exact (h.tasks (ht ▸ htask) hi).keep hg (mode_of_step hsound hr.ne_replace hs (hn _) hne)
    (content_of_step h₀ hrun hr hs hn hne)

/-- What an insertion knows before its request is evaluated it knows after it, or it knows as
much of its next page. -/
theorem AptFor.resume (hw : ∀ p, w.SoundAt p l) (h : w.AptFor before t) {task : Task}
    (ht : w.tasks t = some task) : (w.resume t task).2.AptFor before t := by
  refine ⟨h.grew.trans (w.grew_resume t task), ?_⟩
  have hfollows := SoundAt.storeFollows hw
  cases hsource : w.sourceOf task with
  | error e =>
      rw [resume_of_error hsource]
      intro task' i htask hi
      exact (task.stage.apt_resume_error ..).task ((if_pos rfl).symm.trans htask) hi
  | ok source =>
      rw [resume_of_source hsource, submit_eq_turn]
      intro task' i htask hi
      have hafter := (if_pos rfl).symm.trans htask
      cases hnext : (PagedStore.submit w.store t source { page := task.page, mode := task.mode }
          task.stage).1 with
      | none =>
          rw [hnext] at hafter
          cases hafter
          obtain ⟨hv, hstore⟩ := submit_of_eq_none hnext
          show i.AptAt before (PagedStore.submit ..).2 t _ _
          rw [hstore]
          exact (h.tasks ht hi).keep ⟨rfl, Disk.Grows.refl _⟩
            (LockTable.modeOf?_of_not_granted (by simp [hv]) _ _) fun _ => rfl
      | some next =>
          rw [hnext] at hafter
          have hapt := submit_apt hfollows h.grew ((hw task.page).file_of_sourceOf ht hsource)
            (fun j hj => (h.tasks ht hj).toLocatedAt) hnext
          exact hapt.task hafter hi

theorem AptFor.step (h₀ : Fresh s₀) (hrun : Run Orderly s₀ history w) (h : w.AptFor before t)
    (hr : Devoted t (Ledger.of history) w move w') (hs : w.step move = some (events, w'))
    (hn : ∀ p, w'.store.NumberedAt p) : w'.AptFor before t := by
  have hkeep := h.keep h₀ hrun hr.1 hs hn
  have hsound := fun p => soundAt_of_orderly h₀ hrun ((grew_of_step hr.1 hs).numberedAt (hn p))
  have hidle : w'.tasks t = w.tasks t → (move.for? = some t → move.quits t = true) →
      w'.AptFor before t := by
    intro ht hquits
    by_cases hfor : move.for? = some t
    · refine ⟨h.grew.trans (grew_of_step hr.1 hs), fun task i htask hi => ?_⟩
      rw [hr.2 (hquits hfor) (ht ▸ htask)] at hi
      cases hi
    · exact hkeep (fun u hu he => hfor (he ▸ hu)) ht
  cases move with
  | start u request =>
      simp only [Traffic.step] at hs
      split at hs
      · cases hs
      · cases hs
        by_cases hu : t = u
        · subst hu
          refine ⟨h.grew.trans (request.steady_start ..).toGrew, fun task i htask hi => ?_⟩
          exact (request.start_apt (SoundAt.storeFollows hsound).seated h.grew).task
            ((if_pos rfl).symm.trans htask) hi
        · exact hkeep (fun v hv he => hu (he ▸ Option.some.inj hv.symm)) (if_neg hu)
  | resume u =>
      obtain ⟨task, htask, hresume⟩ := Option.map_eq_some_iff.1 hs
      by_cases hu : t = u
      · subst hu
        have := h.resume hsound htask
        rwa [hresume] at this
      · have htasks := w.tasks_resume task hu
        rw [hresume] at htasks
        exact hkeep (fun v hv he => hu (he ▸ Option.some.inj hv.symm)) htasks
  | commit u | abort u | release u _ =>
      cases hs
      exact hidle rfl fun hfor => decide_eq_true (Option.some.inj hfor)
  | flushPage page =>
      simp only [Traffic.step] at hs
      split at hs <;> cases hs <;> exact hidle rfl fun hfor => by cases hfor
  | flushPages | flushAll | discard | replace =>
      cases hs
      exact hidle rfl fun hfor => by cases hfor

/-- All along, an insertion that is begun after a point knows its page. -/
theorem aptFor_of_runOn (h₀ : Fresh s₀) (h : Run Orderly s₀ earlier w₀) (hidle : w₀.tasks t = none)
    (hon : RunOn (Devoted t) earlier w₀ history w) (hn : ∀ p, w.store.NumberedAt p) :
    w.AptFor w₀.store t := by
  induction hon with
  | start =>
      refine ⟨.refl _, fun task i htask => ?_⟩
      rw [hidle] at htask
      cases htask
  | step hon hrule hs ih =>
      have hbefore := ih fun p => (grew_of_step hrule.1 hs).numberedAt (hn p)
      exact hbefore.step h₀ (h.on hon And.left) hrule hs hn

/-! ## What comes of an insertion -/

/-- A row whose columns have the types of its table is put into a page, or its insertion fails
because the transaction is to be aborted, because there is no room in the cache, or because a page
cannot be read.  There is a slot for the row, whatever others do, except in a page that the
insertion has put at the end of the file and that was filled before its lock was granted. -/
theorem insertion_result (h₀ : Fresh s₀) (h : Run Orderly s₀ earlier w₀)
    (hidle : w₀.tasks t = none) (hon : RunOn (Devoted t) earlier w₀ history w)
    (hn : ∀ p, w.store.NumberedAt p) :
    (∀ ⦃request table schema fields rows row file⦄, w.tasks t = none →
        request.Inserts w.store table schema (fields :: rows) →
          Row.ofFields schema fields = .ok row → w.store.catalog.file table = .ok file →
            row.schema.SameTypes file.schema →
              ∃ page mode stage,
                w.outcome (.start t request) = some (.began (.ask page mode stage)) ∧
                  stage.insertion? = some { table, schema, row, file, rows, stored := [] }) ∧
      ∀ ⦃task i⦄, w.tasks t = some task → task.stage.insertion? = some i →
        ∃ events w' verdict next, w.step (.resume t) = some (events, w') ∧
          w.outcome (.resume t) = some (.evaluated verdict next) ∧
            i.Result w₀.store w.store w'.store t task.page task.stage verdict next := by
  constructor
  · intro request table schema fields rows row file ht hinserts hrow hfile htypes
    obtain ⟨page, mode, stage, hnext, hi⟩ := Insertion.asks_of_search
      { table, schema, row, file, rows, stored := [] } w.store t 0 (w.store.disk.pageCount file)
    refine ⟨page, mode, stage, ?_, hi⟩
    rw [outcome, ht]
    dsimp only
    rw [hinserts.start_eq, Insertion.begin, hrow, hfile]
    dsimp only
    rw [if_pos htypes, hnext]
  · intro task i ht hi
    have hsound := fun p => soundAt_of_orderly h₀ (h.on hon And.left) (hn p)
    have hapt := (aptFor_of_runOn h₀ h hidle hon hn).tasks ht hi
    have hf : w.store.catalog.file task.page.table = .ok i.file := hapt.table ▸ hapt.file
    obtain ⟨hresume, houtcome⟩ := (hsound task.page).resume_of_file ht hf
    have hresult := submit_result (r := { page := task.page, mode := task.mode })
      (SoundAt.storeFollows hsound) hf hi hapt
    rw [← w.store_submit t task i.file] at hresult
    refine ⟨(w.submit t task i.file).1, (w.submit t task i.file).2, _, _, ?_, ?_, hresult⟩
    · rw [Traffic.step, ht, Option.map_some, hresume]
    · rw [outcome, ht, Option.map_some, houtcome]
      rfl

/-! ## A page that is filled by others -/

namespace Small

/-- A transaction finds all pages full, and puts a new one at the end.  Before it locks the page,
another transaction puts its row there and commits. -/
def filling : List Move :=
  [.start ⟨1⟩ (.insert ⟨1⟩ none [[.int 7]]), .resume ⟨1⟩, .resume ⟨1⟩, .resume ⟨1⟩,
   .start ⟨2⟩ (.insert ⟨1⟩ none [[.int 8]]), .resume ⟨2⟩, .resume ⟨2⟩, .resume ⟨2⟩, .resume ⟨2⟩,
   .resume ⟨2⟩, .commit ⟨2⟩]

/-- The insertion of the first transaction. -/
def insertion : Insertion where
  table := ⟨1⟩
  schema := file.schema
  row := { schema := file.schema, fields := [.int 7] }
  file := file
  rows := []
  stored := []

/-- What the first transaction waits to do. -/
def placing : Task := { page := page 3, mode := .exclusive, stage := .place insertion }

theorem runOn_filling :
    RunOn (Devoted ⟨1⟩) [] { store } (after filling).1 (after filling).2 := by
  have hmoves : ∀ move ∈ filling, move.isPlain = true ∧ move.quits ⟨1⟩ = false := by decide
  exact RunOn.start.steps
    (fun move hm _ _ _ => devoted_of_isPlain (hmoves move hm).1 (hmoves move hm).2)
    (eq_some_getD (by decide +kernel) ([], { store }))

end Small

theorem insertion_result_small :
    (∃ page mode stage,
      ({ store := Small.store } : Traffic).outcome (.start ⟨1⟩ (.insert ⟨1⟩ none [[.int 7]])) =
        some (.began (.ask page mode stage)) ∧ stage.insertion? = some Small.insertion) ∧
      (Small.after Small.filling).2.tasks ⟨1⟩ = some Small.placing ∧
        (PagedStore.submit (Small.after Small.filling).2.store ⟨1⟩ Small.file
            { page := Small.page 3, mode := .exclusive } (.place Small.insertion)).1 =
          some (Insertion.stop [] (some (.pageFull (Small.page 3)))) ∧
          ∃ events w' verdict next,
            (Small.after Small.filling).2.step (.resume ⟨1⟩) = some (events, w') ∧
              (Small.after Small.filling).2.outcome (.resume ⟨1⟩) =
                  some (.evaluated verdict next) ∧
                Small.insertion.Result Small.store (Small.after Small.filling).2.store w'.store ⟨1⟩
                  (Small.page 3) (.place Small.insertion) verdict next := by
  have htask : (Small.after Small.filling).2.tasks ⟨1⟩ = some Small.placing := by decide +kernel
  have hfile : Small.store.catalog.file ⟨1⟩ = .ok Small.file := by rfl
  have hbegin := (insertion_result (t := ⟨1⟩) Small.fresh .start rfl .start
    (Small.numberedAt rfl (by decide +kernel))).1
  have hend := (insertion_result Small.fresh .start rfl Small.runOn_filling
    (Small.numberedAt (by decide +kernel) (by decide +kernel))).2 htask rfl
  exact ⟨hbegin rfl (.ofTable rfl) rfl hfile rfl, htask, by decide +kernel, hend⟩

end Traffic

end PagedStore

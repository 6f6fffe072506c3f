import PagedStore.Proofs.CacheOrder
import PagedStore.Proofs.Sessions

/-!
# The cache is in order all along

Whatever moves are made on a store, and whatever is done to pages through handles, the cache is
in order after each of them, if it was empty to begin with (`Traffic.inOrder_of_run`).  There is
no rule for the moves.  Pages may be dropped with changes on them, locks may be released early,
tables may be replaced and files may be cut.  The same is true of a session, whatever it is asked
to serve (`Session.inOrder_serveAll`).

Both rest on what a move does to the cache.  It is a series of shifts, and no page comes in but
the one that a resumed task asks for (`Traffic.shifts_of_step`).
-/

namespace PagedStore

open Std (ExtTreeMap)

/-! ## Tasks -/

namespace Store

variable {s : Store} {P : Page → Prop}

theorem shifts_search (task : Insertion) (s : Store) (t : TransactionId) (page count : Nat) :
    Shifts P s (task.search s t page count).1 := by
  rw [Insertion.search]
  split
  · exact .refl P s
  · exact .beside rfl rfl rfl

theorem shifts_begin (s : Store) (t : TransactionId) (table : TableId) (schema : Schema)
    (stored : List RecordId) (rows : List (List Field)) :
    Shifts P s (Insertion.begin s t table schema stored rows).1 := by
  cases rows with
  | nil => exact .refl P s
  | cons fields rows =>
      rw [Insertion.begin]
      split
      · exact .refl P s
      · split
        · exact .refl P s
        · split
          · exact shifts_search ..
          · exact .refl P s

/-- A cached page is replaced by what has become of it. -/
theorem shifts_edited {page page' : Page} (hc : s.cache.page? page.id = some page)
    (h : page.SameShape page') :
    Shifts P s (s.onCache fun c => c.update page'.id fun _ => page') := by
  have hedit : Cache.Shift P s.capacity s.cache (s.cache.update page'.id fun _ => page') := by
    refine .edit fun q hq => ?_
    rw [h.id_eq, hc] at hq
    rw [← Option.some.inj hq]
    exact h
  exact .single rfl hedit

/-- A stage goes on with a page that is cached. -/
theorem shifts_resume (stage : Stage) (t : TransactionId) {r : Except StoreError Frame}
    (hr : ∀ frame, r = .ok frame → s.cache.page? frame.page.id = some frame.page) :
    Shifts P s (stage.resume s t r).1 := by
  cases r with
  | error e =>
      rw [stage.resume_error]
      exact .refl P s
  | ok frame =>
      have hc := hr frame rfl
      cases stage with
      | get => exact .refl P s
      | look task page count heldBefore =>
          rw [Stage.resume, Insertion.looked]
          split
          · exact .refl P s
          · cases heldBefore with
            | true => exact shifts_search ..
            | false =>
                have hreleased : Shifts P s (s.releasePage t frame.page.id).2 :=
                  .beside rfl rfl rfl
                exact hreleased.trans (shifts_search ..)
      | place task =>
          rw [Stage.resume, Insertion.place]
          split
          · exact .refl P s
          · rename_i record page hins
            exact (shifts_edited hc (Page.sameShape_of_insert hins)).trans (shifts_begin ..)
      | delete record answer =>
          rw [Stage.resume]
          split
          · exact .refl P s
          · rename_i page hdel
            exact shifts_edited hc (Page.sameShape_of_delete hdel)
      | feed => exact .refl P s

theorem shifts_start (request : Request) (s : Store) (t : TransactionId) :
    Shifts P s (request.start s t).1 := by
  simp only [Request.start]
  split
  · exact .refl P s
  · exact shifts_begin ..
  · split
    · exact .refl P s
    · exact shifts_begin ..
  · exact .refl P s
  · split <;> exact .refl P s
  · split
    · exact .refl P s
    · split
      · exact .refl P s
      · split <;> exact .refl P s
  · exact .refl P s

/-- A page that is fetched is cached then. -/
theorem InOrder.page?_of_fetch (h : s.InOrder) {t : TransactionId} {f : TableFile} {id : PageId}
    {mode : LockMode} {frame : Frame} (hf : (s.fetch t f id mode).1 = .ok frame) :
    (s.fetch t f id mode).2.cache.page? frame.page.id = some frame.page := by
  have hfetch : s.fetch t f id mode = (.ok frame, (s.fetch t f id mode).2) := Prod.ext hf rfl
  have hframe := (frame_of_fetch hfetch).1
  have hpage := Cache.page?_eq_some.2 ⟨frame, hframe, rfl⟩
  have hkeyed := ((h.fetch t f id mode).inOrder h).keyed
  rwa [hkeyed hpage]

/-- When a request is evaluated, no page comes in but the one that is asked for. -/
theorem InOrder.submit (h : s.InOrder) (t : TransactionId) (source : TableFile) (r : LockRequest)
    (stage : Stage) : Shifts (source.Yields r.page) s (submit s t source r stage).2 := by
  have hlocks : Shifts (source.Yields r.page) s { s with locks := (s.locks.consider t r).2 } :=
    .beside rfl rfl rfl
  rw [PagedStore.submit]
  dsimp only
  split
  · exact hlocks
  · exact hlocks.trans (shifts_resume stage t fun frame hframe => by cases hframe)
  · have hfetched := (hlocks.inOrder h).fetch t source r.page r.mode
    exact (hlocks.trans hfetched).trans
      (shifts_resume stage t fun frame hframe => (hlocks.inOrder h).page?_of_fetch hframe)

end Store

/-! ## Runs -/

namespace Traffic

variable {s₀ : Store} {w w' : Traffic} {move : Move} {history events : List Event}
  {grips : List (TransactionId × Handle)} {rule : Ledger → Traffic → Move → Traffic → Prop}
  {free : Cache → Handle → Prop}

/-- The page may come in with the move: it is what a task that is resumed asks for. -/
def Admits (w : Traffic) (move : Move) (page : Page) : Prop :=
  ∃ t task source, move = .resume t ∧ w.tasks t = some task ∧ w.sourceOf task = .ok source ∧
    source.Yields task.page page

theorem shifts_submit (h : w.store.InOrder) (t : TransactionId) (task : Task)
    (source : TableFile) :
    w.store.Shifts (source.Yields task.page) (w.submit t task source).2.store := by
  have hs := h.submit t source { page := task.page, mode := task.mode } task.stage
  rwa [← store_submit] at hs

/-- What a move does to the cache. -/
theorem shifts_of_step (h : w.store.InOrder) (hs : w.step move = some (events, w')) :
    w.store.Shifts (w.Admits move) w'.store := by
  cases move with
  | start t request =>
      simp only [step] at hs
      split at hs
      · cases hs
      · cases hs
        exact Store.shifts_start ..
  | resume t =>
      obtain ⟨task, ht, hr⟩ := Option.map_eq_some_iff.1 hs
      cases hsource : w.sourceOf task with
      | ok source =>
          rw [resume_of_source hsource] at hr
          have hsub := shifts_submit h t task source
          rw [hr] at hsub
          exact hsub.mono fun page hpage => ⟨t, task, source, rfl, ht, hsource, hpage⟩
      | error e =>
          rw [resume_of_error hsource, task.stage.resume_error] at hr
          cases hr
          exact .refl ..
  | commit t =>
      cases hs
      exact Store.shifts_commit ..
  | abort t =>
      cases hs
      exact Store.shifts_abort ..
  | flushPage page =>
      simp only [step] at hs
      split at hs
      · rename_i store hf
        cases hs
        exact Store.shifts_flushPage hf
      · cases hs
        exact .refl ..
  | flushPages t =>
      cases hs
      exact Store.shifts_untilError Store.shifts_flushPage ..
  | flushAll =>
      cases hs
      exact Store.shifts_untilError Store.shifts_flushPage ..
  | discard page =>
      cases hs
      exact Store.shifts_discard ..
  | release t page =>
      cases hs
      exact .beside rfl rfl rfl
  | replace catalog disk =>
      cases hs
      exact .beside rfl rfl rfl

/-- A change through a handle is a shift of the cache. -/
theorem shifts_write {hd : Handle} {page page' : Page} {P : Page → Prop}
    (hc : w.store.cache.copy? hd.page hd.copy = some page) (h : page.SameShape page') :
    w.store.Shifts P (w.write hd page').store :=
  .single rfl (Cache.shift_replaceCopy hc h)

/-- Whatever moves are made, and whatever is done through handles, each of them keeps the cache in
order. -/
theorem order_of_run (h₀ : s₀.cache = ∅) (h : HandleRun rule free s₀ history w grips) :
    w.store.InOrder := by
  induction h with
  | start =>
      show s₀.cache.InOrder s₀.capacity
      rw [h₀]
      exact .empty _
  | move _ _ hs ih => exact (shifts_of_step ih hs).inOrder ih
  | write _ _ _ hcopy hmade ih => exact ih.shifts (shifts_write hcopy hmade.sameShape)

/-- Whatever moves are made, and whatever is done through handles, the cache is in order all
along, and a search for a page to give up overlooks no cached page and proposes no other. -/
theorem inOrder_of_run (h₀ : s₀.cache = ∅) (h : HandleRun rule free s₀ history w grips) :
    w.store.cache.InOrder w.store.capacity ∧ w.store.cache.Searched :=
  ⟨order_of_run h₀ h, (order_of_run h₀ h).searched⟩

namespace Small

/-- Three pages are fetched into a cache that holds two.  The first is marked, so the second
has to go. -/
def crowded : List Move :=
  [.start ⟨0⟩ (.getPage (page 0) .exclusive), .resume ⟨0⟩,
   .start ⟨1⟩ (.getPage (page 1) .shared), .resume ⟨1⟩,
   .start ⟨1⟩ (.getPage (page 2) .shared), .resume ⟨1⟩]

end Small

theorem inOrder_of_run_small :
    (Small.after Small.crowded).2.store.cache.InOrder 2 ∧
      (Small.after Small.crowded).2.store.cache.Searched :=
  inOrder_of_run rfl
    (@Small.handleRun (fun _ _ => True) Small.crowded (by decide) (by decide +kernel))

example : (Small.after Small.crowded).2.store.cache.ids = [Small.page 0, Small.page 2] := by
  decide +kernel

end Traffic

/-! ## Sessions -/

theorem Store.InOrder.advance {s : Store} (h : s.InOrder) (t : TransactionId) (n : Next) :
    (advance s t n).2.InOrder := by
  fun_induction PagedStore.advance s t n with
  | case1 => exact h
  | case2 s page mode stage e _ ih =>
      exact ih (h.shifts (Store.shifts_resume stage t fun _ hframe => by cases hframe))
  | case3 s page mode stage source _ s' hs =>
      have hsub := (h.submit t source { page, mode } stage).inOrder h
      rw [hs] at hsub
      exact hsub
  | case4 s page mode stage source _ s' next hs ih =>
      have hsub := (h.submit t source { page, mode } stage).inOrder h
      rw [hs] at hsub
      exact ih hsub

theorem Workload.inOrder_settleFrom (answers : ExtTreeMap TransactionId Answer) {w : Workload}
    (h : w.store.InOrder) : (w.settleFrom answers).2.store.InOrder := by
  fun_induction Workload.settleFrom answers w with
  | case1 => exact h
  | case2 answers w job r others _ s hs ih =>
      have hsub := (h.submit job.transaction job.source r job.stage).inOrder h
      rw [hs] at hsub
      exact ih hsub
  | case3 answers w job r others _ next s hs a s' ha ih =>
      have hsub := (h.submit job.transaction job.source r job.stage).inOrder h
      rw [hs] at hsub
      have hadv := hsub.advance job.transaction next
      rw [ha] at hadv
      exact ih hadv
  | case4 answers w job r others _ next s hs job' s' ha ih =>
      have hsub := (h.submit job.transaction job.source r job.stage).inOrder h
      rw [hs] at hsub
      have hadv := hsub.advance job.transaction next
      rw [ha] at hadv
      exact ih hadv

theorem Workload.inOrder_begin {w : Workload} (h : w.store.InOrder) (t : TransactionId)
    (r : Request) : (w.begin t r).2.store.InOrder := by
  have hadv := (h.shifts (Store.shifts_start r w.store t)).advance t (r.start w.store t).2
  rw [begin]
  split
  · rename_i a store ha
    rw [ha] at hadv
    exact hadv
  · rename_i job store ha
    rw [ha] at hadv
    exact hadv

namespace Session

variable {s : Session}

theorem inOrder_request (h : s.store.InOrder) (t : TransactionId) (r : Request) :
    (s.request t r).2.store.InOrder := by
  have hbegin := Workload.inOrder_begin (w := s.work) h t r
  rw [request]
  split
  · exact hbegin
  · rw [store, work_note]
    exact hbegin

theorem inOrder_useScan (h : s.store.InOrder) (name : String)
    {use : Nat → Scan → Reply × Session} (hu : ∀ number scan, (use number scan).2.store.InOrder) :
    (s.useScan name use).2.store.InOrder := by
  rw [useScan]
  split
  · exact h
  · split
    · exact h
    · exact hu ..

theorem inOrder_useHandle (h : s.store.InOrder) (name : String) (action : HandleAction) :
    (s.useHandle name action).2.store.InOrder := by
  rw [useHandle]
  split
  · exact h
  · rename_i hd page hget
    obtain ⟨hd', -, hcopy⟩ := Option.bind_eq_some_iff.1 hget
    obtain ⟨page', hcopy, hpair⟩ := Option.map_eq_some_iff.1 hcopy
    cases hpair
    have hedit : ∀ page', page.SameShape page' →
        (s.updateCopy hd fun _ => page').store.InOrder := by
      intro page' hsame
      exact h.shift (P := fun _ => True) (Cache.shift_replaceCopy hcopy hsame)
    cases action with
    | insert fields =>
        rw [useCopy]
        split
        · exact h
        · split
          · exact h
          · rename_i record page' hins
            exact hedit _ (Page.sameShape_of_insert hins)
    | delete record =>
        rw [useCopy]
        split
        · exact h
        · rename_i page' hdel
          exact hedit _ (Page.sameShape_of_delete hdel)
    | mark owner =>
        exact h.shift (P := fun _ => True) (Cache.shift_updateCopy fun _ _ => ⟨rfl, rfl, rfl⟩)
    | keepImage =>
        exact h.shift (P := fun _ => True) (Cache.shift_updateCopy fun _ _ => ⟨rfl, rfl, rfl⟩)
    | inspect => exact h

/-- A session that begins anew begins with an empty cache. -/
theorem inOrder_reopen (h : s.store.InOrder) (pageSize poolPages : Option Nat) :
    (s.reopen pageSize poolPages).2.store.InOrder := by
  rw [reopen]
  dsimp only
  split
  · exact h
  · rename_i store hs
    rw [Store.start] at hs
    split at hs
    · cases hs
    · cases hs
      exact .empty _

theorem inOrder_perform (h : s.store.InOrder) (c : Command) : (s.perform c).2.store.InOrder := by
  cases c with
  | getPage t page mode handle => exact inOrder_request h ..
  | insert t table schema rows => exact inOrder_request h ..
  | delete t record => exact inOrder_request h ..
  | deleteFrom t table record => exact inOrder_request h ..
  | pull t name wanted => exact inOrder_useScan h name fun _ _ => inOrder_request h ..
  | commit t => exact h.shifts (Store.shifts_commit ..)
  | abort t => exact h.shifts (Store.shifts_abort ..)
  | flushPage page =>
      rw [perform]
      split
      · exact h
      · rename_i store hf
        exact h.shifts (Store.shifts_flushPage hf)
  | flushPages t => exact h.shifts (Store.shifts_untilError Store.shifts_flushPage ..)
  | flushAll => exact h.shifts (Store.shifts_untilError Store.shifts_flushPage ..)
  | discard page => exact h.shifts (Store.shifts_discard ..)
  | handle name action => exact inOrder_useHandle h name action
  | rewind name => exact inOrder_useScan h name fun _ _ => h
  | close name => exact inOrder_useScan h name fun _ _ => h
  | reopen pageSize poolPages => exact inOrder_reopen h pageSize poolPages
  | scan t table name =>
      rw [perform, addScan]
      split <;> exact h
  | addTable file name key =>
      rw [perform, addTable]
      split
      · exact h
      · dsimp only
        split <;> exact h
  | loadSchema data =>
      rw [perform, loadSchema]
      split <;> exact h
  | writeFile path data =>
      rw [perform]
      cases s.disk.write path data <;> exact h
  | setLength path length =>
      rw [perform]
      cases s.disk.setLength path length <;> exact h
  | openFile how name path schema pageSize =>
      rw [perform, nameFile]
      split <;> exact h
  | onFile file action =>
      rw [perform]
      split
      · exact h
      · rename_i f _
        cases action with
        | writeImage id image =>
            rw [useFile]
            cases s.disk.writeImage f id image <;> exact h
        | writeRows id pageSize rows =>
            rw [useFile]
            split
            · exact h
            · rename_i page _
              cases s.disk.writePage f page <;> exact h
        | _ => exact h
  | _ => exact h

/-- Whatever a session is asked to serve, its cache is in order. -/
theorem inOrder_serve (h : s.store.InOrder) (c : Command) : (s.serve c).2.2.store.InOrder := by
  cases hb : c.transaction?.any s.work.isParked with
  | true =>
      rw [serve, if_pos hb]
      exact h
  | false =>
      rw [store, work_serve hb]
      exact Workload.inOrder_settleFrom ∅ (inOrder_perform h c)

theorem inOrder_serveAll (h : s.store.InOrder) (commands : List Command) :
    (s.serveAll commands).store.InOrder := by
  induction commands generalizing s with
  | nil => exact h
  | cons c commands ih => exact ih (inOrder_serve h c)

end Session

end PagedStore

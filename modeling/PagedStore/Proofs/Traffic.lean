import PagedStore.Proofs.PageView
import PagedStore.Proofs.StoreView
import PagedStore.Tasks.Workload

/-!
# Traffic

The traffic on a store are the tasks of its transactions, any number of them, and
what else is asked of it: flushes, commits, aborts, and so on (`Move`).  Between two
moves each transaction has no task, or one that has asked for a page.  A move that
resumes a task evaluates its request.  The task then waits, or goes on to its answer
or to the next page.  The moves come in any order.  In particular a request may be
evaluated again at any time, whether it was woken or not.

A move gives events for the ledger (`Traffic.step`).  A *run* is a sequence of moves
that keep to a rule, and its *history* are the events (`Traffic.Run`).
-/

namespace PagedStore

open Std (ExtTreeMap)

/-! ## Tasks and moves -/

/-- A task that has asked for a page. -/
structure Task where
  /-- The page. -/
  page : PageId
  /-- The mode in which the page is asked for. -/
  mode : LockMode
  /-- What is done with the page. -/
  stage : Stage
  /-- The file that the page is in, from the first evaluation on. -/
  source : Option TableFile := none
deriving DecidableEq

/-- The task that is left by what a task does next. -/
def Task.ofNext : Next → Option Task
  | .answer _ => none
  | .ask page mode stage => some { page, mode, stage }

/-- One thing that happens to a store. -/
inductive Move where
  /-- A transaction begins a task. -/
  | start (t : TransactionId) (request : Request)
  /-- The request of a task is evaluated. -/
  | resume (t : TransactionId)
  /-- A transaction is committed. -/
  | commit (t : TransactionId)
  /-- A transaction is aborted. -/
  | abort (t : TransactionId)
  /-- A page is written early. -/
  | flushPage (page : PageId)
  /-- The pages of a transaction are written early. -/
  | flushPages (t : TransactionId)
  /-- All pages are written early. -/
  | flushAll
  /-- A page is dropped from the cache. -/
  | discard (page : PageId)
  /-- The lock of a page is released early. -/
  | release (t : TransactionId) (page : PageId)
  /-- Tables are replaced or files are changed past the store. -/
  | replace (catalog : Catalog) (disk : Disk)

/-- Dropping pages, releasing locks early and replacing tables apart, a move may be made at
any time. -/
def Move.isPlain : Move → Bool
  | .discard _ | .release .. | .replace .. => false
  | _ => true

/-- A store and the tasks of its transactions. -/
structure Traffic where
  /-- The store. -/
  store : Store
  /-- The task of each transaction that has one. -/
  tasks : TransactionId → Option Task := fun _ => none

/-! ## Events -/

/-- The change that a stage makes to the page it gets. -/
def Stage.change? : Stage → Page → Option Change
  | .place task, page =>
      match page.insert task.row with
      | .ok (record, _) => some (.insert record task.row.fields)
      | .error _ => none
  | .delete record _, page =>
      match page.delete (some record) with
      | .ok _ => some (.delete record)
      | .error _ => none
  | _, _ => none

/-- The events when a page was fetched, or could not be. -/
def fetchEvents (t : TransactionId) (r : LockRequest) (stage : Stage) :
    Except StoreError Frame → List Event
  | .error _ => []
  | .ok frame =>
      .fetched t r.page r.mode frame.page ::
        (stage.change? frame.page).toList.map (.changed t)

/-- The events when a request is evaluated. -/
def submitEvents (s : Store) (t : TransactionId) (source : TableFile) (r : LockRequest)
    (stage : Stage) : List Event :=
  let verdict := s.locks.consider t r
  match verdict.1 with
  | .granted =>
      (s.view r.page).lockEvents t r.mode ++
        fetchEvents t r stage ({ s with locks := verdict.2 }.fetch t source r.page r.mode).1
  | _ => []

/-- The event when a commit was tried. -/
def commitEvent (t : TransactionId) : Except StoreError Unit → Event
  | .ok _ => .committed t
  | .error _ => .failed t

namespace Traffic

/-! ## Steps -/

/-- The traffic with another store and another task of a transaction. -/
def turn (w : Traffic) (t : TransactionId) (store : Store) (task : Option Task) : Traffic :=
  { store, tasks := fun u => if u = t then task else w.tasks u }

/-- The request of a task is evaluated, with the file that the page is in. -/
def submit (w : Traffic) (t : TransactionId) (task : Task) (source : TableFile) :
    List Event × Traffic :=
  let request : LockRequest := { page := task.page, mode := task.mode }
  (submitEvents w.store t source request task.stage,
    match PagedStore.submit w.store t source request task.stage with
    | (none, store) => w.turn t store (some { task with source := some source })
    | (some next, store) => w.turn t store (Task.ofNext next))

/-- A task goes on.  The first time the file of its page is looked up. -/
def resume (w : Traffic) (t : TransactionId) (task : Task) : List Event × Traffic :=
  match task.source with
  | some source => w.submit t task source
  | none =>
      match w.store.catalog.file task.page.table with
      | .ok source => w.submit t task source
      | .error e =>
          let after := task.stage.resume w.store t (.error e)
          ([], w.turn t after.1 (Task.ofNext after.2))

/-- The file that the page of a task is in: the one that was looked up, or else the one that is
looked up now. -/
def sourceOf (w : Traffic) (task : Task) : Except StoreError TableFile :=
  match task.source with
  | some source => .ok source
  | none => w.store.catalog.file task.page.table

theorem resume_of_source {w : Traffic} {t : TransactionId} {task : Task} {source : TableFile}
    (h : w.sourceOf task = .ok source) : w.resume t task = w.submit t task source := by
  rw [sourceOf] at h
  rw [resume]
  split at h
  · cases h
    rfl
  · simp only [h]

theorem resume_of_error {w : Traffic} {t : TransactionId} {task : Task} {e : StoreError}
    (h : w.sourceOf task = .error e) :
    w.resume t task =
      ([], w.turn t (task.stage.resume w.store t (.error e)).1
        (Task.ofNext (task.stage.resume w.store t (.error e)).2)) := by
  rw [sourceOf] at h
  rw [resume]
  split at h
  · cases h
  · simp only [h]

/-- A move: its events, and the traffic after it.  A transaction begins a task only if
it has none, and only a task that is there can be resumed. -/
def step (w : Traffic) : Move → Option (List Event × Traffic)
  | .start t request =>
      match w.tasks t with
      | some _ => none
      | none =>
          let first := request.start w.store t
          some ([], w.turn t first.1 (Task.ofNext first.2))
  | .resume t => (w.tasks t).map (w.resume t)
  | .commit t =>
      let r := w.store.commit t
      some ([commitEvent t r.1], { w with store := r.2 })
  | .abort t => some ([.aborted t], { w with store := (w.store.abort t).2 })
  | .flushPage page =>
      match w.store.flushPage page with
      | .ok store => some ([], { w with store })
      | .error _ => some ([], w)
  | .flushPages t => some ([], { w with store := (w.store.flushPages t).2 })
  | .flushAll => some ([], { w with store := w.store.flushAll.2 })
  | .discard page => some ([], { w with store := w.store.discard page })
  | .release t page => some ([], { w with store := (w.store.releasePage t page).2 })
  | .replace catalog disk => some ([], { w with store := { w.store with catalog, disk } })

/-- Many moves, one after another: their events, and the traffic after them. -/
def steps (w : Traffic) : List Move → Option (List Event × Traffic)
  | [] => some ([], w)
  | move :: moves =>
      match w.step move with
      | none => none
      | some (events, w') => (w'.steps moves).map fun r => (events ++ r.1, r.2)

/-! ## Runs -/

/-- The history of a run from a store, and the traffic after it.  Each move keeps to a
rule, which may look at the ledger and at the traffic before and after. -/
inductive Run (rule : Ledger → Traffic → Move → Traffic → Prop) (s₀ : Store) :
    List Event → Traffic → Prop
  | start : Run rule s₀ [] { store := s₀ }
  | step {history events : List Event} {w w' : Traffic} {move : Move} :
      Run rule s₀ history w → rule (Ledger.of history) w move w' →
        w.step move = some (events, w') → Run rule s₀ (history ++ events) w'

/-- What is asked of a move for the sake of one page.  The pages of its table can be
counted, the page is not dropped with changes on it, its lock is released early only by a
transaction that has not fetched it for writing, and nothing else changes its table or
its file. -/
def TidyAt (p : PageId) (l : Ledger) (w : Traffic) (move : Move) (w' : Traffic) : Prop :=
  w'.store.NumberedAt p ∧
    match move with
    | .discard q => q = p → (w.store.view p).owner? = none
    | .release t q => q = p → l.wrote t p = false
    | .replace catalog _ => catalog.Sound ∧ w'.store.view p = w.store.view p
    | _ => True

/-- What is asked of a move of orderly traffic.  A page with changes is not dropped, a lock
is released early only by a transaction that has not fetched the page for writing, and no
table or file is changed past the store. -/
def Orderly (l : Ledger) (w : Traffic) (move : Move) (_ : Traffic) : Prop :=
  match move with
  | .discard q => (w.store.view q).owner? = none
  | .release t q => l.wrote t q = false
  | .replace .. => False
  | _ => True

/-- A store to begin with: the tables are registered, nothing is cached and no lock is
held. -/
structure Fresh (s : Store) : Prop where
  catalog : s.catalog.Sound
  cache : s.cache = ∅
  locks : s.locks = ∅

theorem orderly_of_isPlain {l : Ledger} {w w' : Traffic} {move : Move}
    (h : move.isPlain = true) : Orderly l w move w' := by
  cases move with
  | discard | release | replace => cases h
  | _ => trivial

/-- What follows on a history and its traffic: more moves that keep to a rule. -/
inductive RunOn (rule : Ledger → Traffic → Move → Traffic → Prop) (earlier : List Event)
    (w₀ : Traffic) : List Event → Traffic → Prop
  | start : RunOn rule earlier w₀ earlier w₀
  | step {history events : List Event} {w w' : Traffic} {move : Move} :
      RunOn rule earlier w₀ history w → rule (Ledger.of history) w move w' →
        w.step move = some (events, w') → RunOn rule earlier w₀ (history ++ events) w'

section RunOn

variable {rule : Ledger → Traffic → Move → Traffic → Prop} {s₀ : Store}
  {earlier history events : List Event} {w₀ w w' : Traffic} {moves : List Move}

/-- A run and what follows on it are a run. -/
theorem Run.on {more : Ledger → Traffic → Move → Traffic → Prop} (h : Run rule s₀ earlier w₀)
    (hon : RunOn more earlier w₀ history w)
    (hr : ∀ {l w move w'}, more l w move w' → rule l w move w') : Run rule s₀ history w := by
  induction hon with
  | start => exact h
  | step _ hrule hs ih => exact ih.step (hr hrule) hs

/-- What keeps to a rule keeps to a weaker one. -/
theorem RunOn.mono {more : Ledger → Traffic → Move → Traffic → Prop}
    (h : RunOn rule earlier w₀ history w)
    (hr : ∀ {l w move w'}, rule l w move w' → more l w move w') :
    RunOn more earlier w₀ history w := by
  induction h with
  | start => exact .start
  | step _ hrule hs ih => exact ih.step (hr hrule) hs

theorem RunOn.exists_append (h : RunOn rule earlier w₀ history w) :
    ∃ since, history = earlier ++ since := by
  induction h with
  | start => exact ⟨[], (List.append_nil _).symm⟩
  | @step _ events _ _ _ _ _ _ ih =>
      obtain ⟨since, rfl⟩ := ih
      exact ⟨since ++ events, List.append_assoc ..⟩

/-- What some moves come to follows on a history, if each of them keeps to the rule. -/
theorem RunOn.steps (h : RunOn rule earlier w₀ history w)
    (hr : ∀ move ∈ moves, ∀ l w w', rule l w move w') (hs : w.steps moves = some (events, w')) :
    RunOn rule earlier w₀ (history ++ events) w' := by
  induction moves generalizing history events w with
  | nil =>
      cases hs
      rw [List.append_nil]
      exact h
  | cons move moves ih =>
      rw [Traffic.steps] at hs
      split at hs
      · cases hs
      · rename_i first w₁ hstep
        obtain ⟨⟨rest, w₂⟩, hrest, hmk⟩ := Option.map_eq_some_iff.1 hs
        cases hmk
        have hnext := h.step (hr move List.mem_cons_self _ _ _) hstep
        rw [← List.append_assoc]
        exact ih hnext (fun m hm => hr m (List.mem_cons_of_mem _ hm)) hrest

/-- A run goes on with more moves that keep to the rule. -/
theorem Run.steps (h : Run rule s₀ history w) (hr : ∀ move ∈ moves, ∀ l w w', rule l w move w')
    (hs : w.steps moves = some (events, w')) : Run rule s₀ (history ++ events) w' :=
  h.on (RunOn.start.steps hr hs) id

end RunOn

/-! ## A small store -/

/-- If there is a value, the default does not matter. -/
theorem eq_some_getD {α : Type} {o : Option α} (h : o.isSome = true) (a : α) :
    o = some (o.getD a) :=
  (Option.eq_some_of_isSome h).trans (congrArg some (Option.get_eq_getD _))

namespace Small

/-- The file of a table with one column of numbers and one row to a page. -/
def file : TableFile where
  name := "a"
  table := ⟨1⟩
  schema := { columns := [{ type := .int }] }
  pageSize := 5
  fits := by decide

/-- A store of this table, with three full pages.  The cache holds two of them. -/
def store : Store where
  settings := { pageSize := 5, poolPages := 2 }
  disk :=
    { directory := "/d"
      files := ExtTreeMap.insert ∅ "a" (.ofBytes [1, 0, 0, 0, 1, 1, 0, 0, 0, 2, 1, 0, 0, 0, 3]) }
  catalog :=
    { pageSize := 5
      tables := ExtTreeMap.insert ∅ ⟨1⟩ { name := "a", key := none, file }
      names := ExtTreeMap.insert ∅ "a" ⟨1⟩ }

/-- A page of the table. -/
def page (number : Nat) : PageId := { table := ⟨1⟩, number }

/-- The address of the row on a page. -/
def record (number : Nat) : Option RecordId := some { page := page number, slot := 0 }

theorem file_eq {t : TableId} {f : TableFile} (h : store.catalog.file t = .ok f) :
    t = ⟨1⟩ ∧ f = file := by
  have hget : store.catalog.tables[t]? =
      if (⟨1⟩ : TableId) = t then some { name := "a", key := none, file } else none := by
    simp [store, ExtTreeMap.getElem?_insert]
  unfold Catalog.file Catalog.entry at h
  rw [hget] at h
  split at h
  · rename_i e he
    split at he
    · rename_i ht
      cases he
      cases h
      exact ⟨ht.symm, rfl⟩
    · cases he
  · cases h

theorem fresh : Fresh store where
  catalog :=
    { table := fun h => by
        obtain ⟨rfl, rfl⟩ := file_eq h
        rfl
      apart := fun h h' _ => (file_eq h).1.trans (file_eq h').1.symm }
  cache := rfl
  locks := rfl

/-- The pages can be counted as long as the file is short. -/
theorem numberedAt {s : Store} (hc : s.catalog = store.catalog)
    (hl : (s.disk.contents file).length / 5 < 4294967296) (p : PageId) : s.NumberedAt p := by
  intro f hf
  rw [hc] at hf
  obtain ⟨-, rfl⟩ := file_eq hf
  exact hl

/-- What some moves on the store come to. -/
def after (moves : List Move) : List Event × Traffic :=
  (({ store } : Traffic).steps moves).getD ([], { store })

theorem run_of {rule : Ledger → Traffic → Move → Traffic → Prop} {moves : List Move}
    (hr : ∀ move ∈ moves, ∀ l w w', rule l w move w')
    (hs : (({ store } : Traffic).steps moves).isSome = true) :
    Run rule store (after moves).1 (after moves).2 :=
  Run.steps .start hr (eq_some_getD hs _)

theorem run {moves : List Move} (hp : ∀ move ∈ moves, move.isPlain = true)
    (hs : (({ store } : Traffic).steps moves).isSome = true) :
    Run Orderly store (after moves).1 (after moves).2 :=
  run_of (fun move hm _ _ _ => orderly_of_isPlain (hp move hm)) hs

/-- A transaction deletes a row and commits.  Another one puts a row in its place, which is
then written early. -/
def moves : List Move :=
  [.start ⟨0⟩ (.delete (record 0)), .resume ⟨0⟩, .commit ⟨0⟩,
   .start ⟨1⟩ (.insert ⟨1⟩ none [[.int 7]]), .resume ⟨1⟩, .resume ⟨1⟩, .flushAll]

theorem run_moves : Run Orderly store (after moves).1 (after moves).2 :=
  run (by decide) (by decide +kernel)

theorem numberedAt_moves (p : PageId) : (after moves).2.store.NumberedAt p :=
  numberedAt (by decide +kernel) (by decide +kernel) p

end Small

end Traffic

end PagedStore

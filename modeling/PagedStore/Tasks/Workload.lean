import PagedStore.Tasks.Basic

/-!
# Running tasks

A task runs until it ends or has to wait for a lock (`advance`).  In the second
case it is *parked* as a job.  A job remembers the file that the page would have
been read from when the task asked for it.

A workload is a store with its parked jobs.  To *settle* it, jobs whose lock
request is woken are evaluated again, and go on if they can, until there is none
left.  The answers of the tasks that end meanwhile are collected.

Settling ends, since a task gets cheaper with each of its stages, and a woken
request that has to wait again is no longer woken.
-/

namespace PagedStore

open Std (ExtTreeMap ExtTreeSet)

/-- A task that waits for the lock of a page. -/
structure Job where
  /-- The transaction that it belongs to. -/
  transaction : TransactionId
  /-- The file that the page is in. -/
  source : TableFile
  /-- What is done with the page. -/
  stage : Stage
deriving DecidableEq

/-- How far a task got. -/
inductive Progress where
  /-- It has ended. -/
  | ended (answer : Answer)
  /-- It is parked. -/
  | parked (job : Job)

/-! ## One task -/

/-- Evaluates the request of a task for a page.  If it is granted or refused the task
goes on. -/
def submit (s : Store) (t : TransactionId) (source : TableFile) (r : LockRequest)
    (stage : Stage) : Option Next × Store :=
  let verdict := s.locks.consider t r
  let s := { s with locks := verdict.2 }
  match verdict.1 with
  | .waits => (none, s)
  | .refused =>
      let after := stage.resume s t (.error (.aborted t))
      (some after.2, after.1)
  | .granted =>
      let fetched := s.fetch t source r.page r.mode
      let after := stage.resume fetched.2 t fetched.1
      (some after.2, after.1)

/-- A task that goes on is at a cheaper stage. -/
theorem cheaper_of_submit {s : Store} {t : TransactionId} {source : TableFile} {r : LockRequest}
    {stage : Stage} {n : Next} {s' : Store} (h : submit s t source r stage = (some n, s')) :
    Cheaper n.cost stage.cost := by
  unfold submit at h
  dsimp only at h
  split at h <;> cases h
  · exact Stage.cost_resume_lt ..
  · exact Stage.cost_resume_lt ..

/-- Runs a task until it ends or has to wait. -/
def advance (s : Store) (t : TransactionId) (n : Next) : Progress × Store :=
  match n with
  | .answer a => (.ended a, s)
  | .ask page mode stage =>
      match s.catalog.file page.table with
      | .error e =>
          advance (stage.resume s t (.error e)).1 t (stage.resume s t (.error e)).2
      | .ok source =>
          match _ : submit s t source { page, mode } stage with
          | (none, s) => (.parked { transaction := t, source, stage }, s)
          | (some n, s) => advance s t n
termination_by n.cost
decreasing_by
  · exact Stage.cost_resume_lt ..
  · exact cheaper_of_submit ‹_›

theorem Cheaper.trans {a b c : Nat × Nat} (hab : Cheaper a b) (hbc : Cheaper b c) :
    Cheaper a c := by
  rw [Cheaper, Prod.lex_def] at *
  omega

/-- A task that is parked is at no dearer stage than the one it began with. -/
theorem cheaper_of_advance {s s' : Store} {t : TransactionId} {n : Next} {job : Job}
    {cost : Nat × Nat} (h : advance s t n = (.parked job, s')) (hn : Cheaper n.cost cost) :
    Cheaper job.stage.cost cost := by
  fun_induction advance s t n with
  | case1 => cases h
  | case2 s page mode stage e he ih => exact ih h ((Stage.cost_resume_lt ..).trans hn)
  | case3 =>
      cases h
      exact hn
  | case4 s page mode stage source hf s'' n hs ih => exact ih h ((cheaper_of_submit hs).trans hn)

/-! ## Many tasks -/

/-- A store and the tasks that are parked. -/
structure Workload where
  /-- The store. -/
  store : Store
  /-- The parked tasks, the one that was parked last at the end. -/
  jobs : List Job := []

/-- The first job with a woken request, the request, and the other jobs. -/
def wokenJob? (l : LockTable) : List Job → Option (Job × LockRequest × List Job)
  | [] => none
  | job :: jobs =>
      match if l.woken.contains job.transaction then l.parked[job.transaction]? else none with
      | some r => some (job, r, jobs)
      | none => (wokenJob? l jobs).map fun (found, r, others) => (found, r, job :: others)

/-- What some jobs can still cost together. -/
def totalCost : List Job → Nat × Nat
  | [] => (0, 0)
  | job :: jobs => (job.stage.cost.1 + (totalCost jobs).1, job.stage.cost.2 + (totalCost jobs).2)

theorem totalCost_append_one (jobs : List Job) (job : Job) :
    totalCost (jobs ++ [job]) =
      (job.stage.cost.1 + (totalCost jobs).1, job.stage.cost.2 + (totalCost jobs).2) := by
  induction jobs with
  | nil => rfl
  | cons j jobs ih =>
      rw [List.cons_append, totalCost, ih, totalCost]
      simp only [Prod.mk.injEq]
      omega

theorem totalCost_of_wokenJob? {l : LockTable} {jobs others : List Job} {job : Job}
    {r : LockRequest} (h : wokenJob? l jobs = some (job, r, others)) :
    totalCost jobs =
      (job.stage.cost.1 + (totalCost others).1, job.stage.cost.2 + (totalCost others).2) := by
  induction jobs generalizing others with
  | nil => cases h
  | cons j jobs ih =>
      rw [wokenJob?] at h
      split at h
      · cases h
        rfl
      · obtain ⟨⟨found, r', others'⟩, h1, h2⟩ := Option.map_eq_some_iff.1 h
        cases h2
        rw [totalCost, ih h1, totalCost]
        simp only [Prod.mk.injEq]
        omega

theorem woken_of_wokenJob? {l : LockTable} {jobs others : List Job} {job : Job}
    {r : LockRequest} (h : wokenJob? l jobs = some (job, r, others)) :
    job.transaction ∈ l.woken := by
  induction jobs generalizing others with
  | nil => cases h
  | cons j jobs ih =>
      rw [wokenJob?] at h
      split at h
      · rename_i hc
        cases h
        split at hc
        · rename_i hw
          exact ExtTreeSet.contains_iff_mem.1 hw
        · cases hc
      · obtain ⟨⟨found, r', others'⟩, h1, h2⟩ := Option.map_eq_some_iff.1 h
        cases h2
        exact ih h1

namespace Workload

/-- What is left to do: the stages and pages of the parked tasks, and the woken
requests. -/
def left (w : Workload) : (Nat × Nat) × Nat := (totalCost w.jobs, w.store.locks.woken.size)

/-- Less is left to do. -/
abbrev Nearer : (Nat × Nat) × Nat → (Nat × Nat) × Nat → Prop := Prod.Lex Cheaper (· < ·)

/-- A request that has to wait again is no longer woken. -/
theorem nearer_of_waits {w : Workload} {job : Job} {others : List Job} {r : LockRequest}
    {s : Store} (hj : wokenJob? w.store.locks w.jobs = some (job, r, others))
    (hs : submit w.store job.transaction job.source r job.stage = (none, s)) :
    Nearer (left { w with store := s }) w.left := by
  refine Prod.Lex.right _ ?_
  have hw := woken_of_wokenJob? hj
  unfold submit at hs
  dsimp only at hs
  split at hs <;> cases hs
  rename_i hv
  simp only [(LockTable.consider_of_waits hv).2]
  exact LockTable.size_erase_lt hw

/-- A task that ends is no longer parked. -/
theorem nearer_of_ended {w : Workload} {job : Job} {others : List Job} {r : LockRequest}
    (s : Store) (hj : wokenJob? w.store.locks w.jobs = some (job, r, others)) :
    Nearer (left { store := s, jobs := others }) w.left := by
  refine Prod.Lex.left _ _ (Cheaper.of_fst ?_)
  have h := job.stage.cost_fst_pos
  simp only [totalCost_of_wokenJob? hj]
  omega

/-- A task that goes on is parked at a cheaper stage. -/
theorem nearer_of_parked {w : Workload} {job job' : Job} {others : List Job} {r : LockRequest}
    (s : Store) (hj : wokenJob? w.store.locks w.jobs = some (job, r, others))
    (hc : Cheaper job'.stage.cost job.stage.cost) :
    Nearer (left { store := s, jobs := others ++ [job'] }) w.left := by
  refine Prod.Lex.left _ _ ?_
  rw [Cheaper, Prod.lex_def] at hc ⊢
  simp only [totalCost_of_wokenJob? hj, totalCost_append_one]
  omega

/-- Lets woken tasks go on until none is left.  The answers are added to those
given. -/
def settleFrom (answers : ExtTreeMap TransactionId Answer) (w : Workload) :
    ExtTreeMap TransactionId Answer × Workload :=
  match _ : wokenJob? w.store.locks w.jobs with
  | none => (answers, w)
  | some (job, r, others) =>
      match _ : submit w.store job.transaction job.source r job.stage with
      | (none, s) => settleFrom answers { w with store := s }
      | (some n, s) =>
          match _ : advance s job.transaction n with
          | (.ended a, s) =>
              settleFrom (answers.insert job.transaction a) { store := s, jobs := others }
          | (.parked job', s) => settleFrom answers { store := s, jobs := others ++ [job'] }
termination_by w.left
decreasing_by
  · exact nearer_of_waits ‹_› ‹_›
  · exact nearer_of_ended _ ‹_›
  · exact nearer_of_parked _ ‹_› (cheaper_of_advance ‹_› (cheaper_of_submit ‹_›))

/-- Lets woken tasks go on until none is left. -/
def settle (w : Workload) : ExtTreeMap TransactionId Answer × Workload := w.settleFrom ∅

/-- The transaction has a parked task. -/
def isParked (w : Workload) (t : TransactionId) : Bool := w.store.locks.isParked t

/-- Begins a task and lets it run.  It may be parked. -/
def begin (w : Workload) (t : TransactionId) (r : Request) : Option Answer × Workload :=
  let first := r.start w.store t
  match advance first.1 t first.2 with
  | (.ended a, store) => (some a, { w with store })
  | (.parked job, store) => (none, { store, jobs := w.jobs ++ [job] })

end Workload

end PagedStore

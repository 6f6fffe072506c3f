import PagedStore.Proofs.AlikeTasks
import PagedStore.Proofs.Growth
import PagedStore.Proofs.Marks

/-!
# Alike traffic

What the clients get to know of a move is its *outcome* (`Traffic.outcome`): what a task does
first or next, whether a page was locked, and whether a commit, an abort or a flush could be
done.

Two traffics are *the same for a transaction* (`Traffic.SameFor`) if a likeness relates their
stores, and the transaction is at the same task on both, so far as bare forms tell.  A move of
the transaction that is not left without room has the same outcome on both, and they are the
same for it afterwards (`Traffic.SameFor.step`).

Two traffics are *alike* (`Traffic.Alike`) if their stores are, and each transaction is at the
same task on both.  Then every move that is not left without room has the same outcome on both,
and leaves them alike (`Traffic.Alike.step`).
-/

namespace PagedStore

variable {w w' v v' : Traffic} {move move' : Move} {events events' : List Event} {l l' : Ledger}
  {t u : TransactionId} {task task' : Task} {source : TableFile} {S : Scope}
  {R : Store → Store → Prop}

/-! ## Outcomes -/

/-- What the clients get to know of a move. -/
inductive Outcome where
  /-- What a new task does first. -/
  | began (next : Next)
  /-- What came of a request for a page, and what the task does next if it goes on. -/
  | evaluated (verdict : Verdict) (next : Option Next)
  /-- What a task does next if there is no table with the page that it asked for. -/
  | astray (next : Next)
  /-- Whether a thing could be done. -/
  | done (result : Except StoreError Unit)

/-- What can be told from an outcome, the column names of rows and the numbers of copies
apart. -/
def Outcome.bare : Outcome → Outcome
  | .began next => .began next.bare
  | .evaluated verdict next => .evaluated verdict (next.map Next.bare)
  | .astray next => .astray next.bare
  | .done result => .done result

namespace Traffic

/-- What is told when the request of a task is evaluated. -/
def submitOutcome (w : Traffic) (t : TransactionId) (task : Task) (source : TableFile) : Outcome :=
  let request : LockRequest := { page := task.page, mode := task.mode }
  .evaluated (w.store.locks.consider t request).1
    (PagedStore.submit w.store t source request task.stage).1

/-- What is told when a task goes on. -/
def resumeOutcome (w : Traffic) (t : TransactionId) (task : Task) : Outcome :=
  match task.source with
  | some source => w.submitOutcome t task source
  | none =>
      match w.store.catalog.file task.page.table with
      | .ok source => w.submitOutcome t task source
      | .error e => .astray (task.stage.resume w.store t (.error e)).2

/-- What is told of a move, if it can be made. -/
def outcome (w : Traffic) : Move → Option Outcome
  | .start t request =>
      match w.tasks t with
      | some _ => none
      | none => some (.began (request.start w.store t).2)
  | .resume t => (w.tasks t).map (w.resumeOutcome t)
  | .commit t => some (.done (w.store.commit t).1)
  | .abort t => some (.done (w.store.abort t).1)
  | .flushPage page => some (.done ((w.store.flushPage page).map fun _ => ()))
  | .flushPages t => some (.done (w.store.flushPages t).1)
  | .flushAll => some (.done w.store.flushAll.1)
  | .discard _ | .release .. | .replace .. => some (.done (.ok ()))

/-- A page is granted to the task that is resumed, and there is no room for it in the
cache. -/
def lacksRoom (w : Traffic) : Move → Bool
  | .resume t =>
      match w.tasks t with
      | none => false
      | some task =>
          match w.store.catalog.file task.page.table with
          | .error _ => false
          | .ok source => w.store.lacksRoom t source { page := task.page, mode := task.mode }
  | _ => false

/-- There is an outcome of the moves that can be made. -/
theorem outcome_eq_none_iff : w.outcome move = none ↔ w.step move = none := by
  cases move with
  | start t request =>
      rw [outcome, step]
      cases w.tasks t <;> simp
  | resume t => simp only [outcome, step, Option.map_eq_none_iff]
  | flushPage page =>
      rw [outcome, step]
      cases w.store.flushPage page <;> simp
  | _ => simp [outcome, step]

end Traffic

/-- The moves are the same, but for the column names in the rows of a scan. -/
inductive Move.Matches : Move → Move → Prop
  | same (move : Move) : Matches move move
  | start (t : TransactionId) {request request' : Request} :
      request'.bare = request.bare → Matches (.start t request) (.start t request')

theorem Move.Matches.isPlain (h : move.Matches move') : move'.isPlain = move.isPlain := by
  cases h <;> rfl

theorem Move.Matches.transaction? (h : move.Matches move') :
    move'.transaction? = move.transaction? := by
  cases h <;> rfl

/-- Only what is in the scope is wanted by the move. -/
def Move.Within (S : Scope) : Move → Prop
  | .start _ request => request.Within S
  | _ => True

theorem Move.within_all (move : Move) : move.Within .all := by
  cases move with
  | start t request => exact request.within_all
  | _ => trivial

/-! ## Alike traffic -/

theorem Task.bare_ofNext (next : Next) :
    (Task.ofNext next).map Task.bare = Task.ofNext next.bare := by
  cases next <;> rfl

/-- The tasks that are left by what can be told to be the same. -/
theorem Task.bare_ofNext_congr {next next' : Next} (h : next'.bare = next.bare) :
    (Task.ofNext next').map Task.bare = (Task.ofNext next).map Task.bare := by
  rw [bare_ofNext, bare_ofNext, h]

/-- The task after its request was evaluated, with the file that the page is in. -/
def Task.after (task : Task) (source : TableFile) : Option Next → Option Task
  | none => some { task with source := some source }
  | some next => Task.ofNext next

theorem Task.bare_after_congr (hb : task'.bare = task.bare) {o o' : Option Next}
    (h : o'.map Next.bare = o.map Next.bare) :
    (task'.after source o').map Task.bare = (task.after source o).map Task.bare := by
  cases o with
  | none =>
      rw [Option.map_eq_none_iff.1 h]
      exact congrArg (fun task : Task => some { task with source := some source }) hb
  | some next =>
      obtain ⟨next', rfl, hn⟩ := Option.map_eq_some_iff.1 h
      exact bare_ofNext_congr hn

namespace Traffic

/-- The stores are alike, and so are the tasks. -/
structure Alike (w w' : Traffic) : Prop where
  store : w.store.Alike w'.store
  tasks : ∀ t, (w'.tasks t).map Task.bare = (w.tasks t).map Task.bare

theorem SoundAt.storeFollows (hs : ∀ p, w.SoundAt p l) : w.store.Follows l :=
  ⟨(hs ⟨⟨0⟩, 0⟩).store, fun p => (hs p).numbered, fun p => (hs p).agrees⟩

/-- Evaluating the request of a task leaves another store and another task. -/
theorem submit_eq_turn (w : Traffic) (t : TransactionId) (task : Task) (source : TableFile) :
    (w.submit t task source).2 = w.turn t
      (PagedStore.submit w.store t source { page := task.page, mode := task.mode } task.stage).2
      (task.after source (PagedStore.submit w.store t source
        { page := task.page, mode := task.mode } task.stage).1) := by
  rw [submit]
  dsimp only
  split <;> rename_i hs <;> rw [hs] <;> rfl

/-- The file that a task remembers is that of the table. -/
theorem SoundAt.file_of_source (hs : w.SoundAt task.page l) (ht : w.tasks t = some task)
    (hsource : task.source = some source) : w.store.catalog.file task.page.table = .ok source :=
  Store.file_of_view ((hs.tasks ht).source rfl hsource)

/-- A task that goes on has its request evaluated, if there is a table with the page. -/
theorem SoundAt.resume_of_file (hs : w.SoundAt task.page l) (ht : w.tasks t = some task)
    (hf : w.store.catalog.file task.page.table = .ok source) :
    w.resume t task = w.submit t task source ∧
      w.resumeOutcome t task = w.submitOutcome t task source := by
  rw [Traffic.resume, resumeOutcome]
  cases hsource : task.source with
  | none => simp only [hf, and_self]
  | some f =>
      rw [hs.file_of_source ht hsource] at hf
      cases hf
      exact ⟨rfl, rfl⟩

/-- Without the table it goes on without the page. -/
theorem SoundAt.resume_of_error {e : StoreError} (hs : w.SoundAt task.page l)
    (ht : w.tasks t = some task) (hf : w.store.catalog.file task.page.table = .error e) :
    w.resume t task = ([], w.turn t (task.stage.resume w.store t (.error e)).1
        (Task.ofNext (task.stage.resume w.store t (.error e)).2)) ∧
      w.resumeOutcome t task = .astray (task.stage.resume w.store t (.error e)).2 := by
  rw [Traffic.resume, resumeOutcome]
  cases hsource : task.source with
  | none => simp only [hf, and_self]
  | some f =>
      rw [hs.file_of_source ht hsource] at hf
      cases hf

/-- A task that goes on changes no other task. -/
theorem tasks_resume (w : Traffic) {u : TransactionId} (task : Task) (hu : t ≠ u) :
    (w.resume u task).2.tasks t = w.tasks t := by
  cases hsource : w.sourceOf task with
  | error e =>
      rw [resume_of_error hsource]
      exact if_neg hu
  | ok source =>
      rw [resume_of_source hsource, submit_eq_turn]
      exact if_neg hu

/-- A move changes the task of its own transaction only. -/
theorem tasks_of_other (hs : w.step move = some (events, v))
    (hu : ∀ ⦃t⦄, move.transaction? = some t → u ≠ t) : v.tasks u = w.tasks u := by
  cases move with
  | start t request =>
      simp only [step] at hs
      split at hs <;> cases hs
      exact if_neg (hu rfl)
  | resume t =>
      obtain ⟨task, -, hresume⟩ := Option.map_eq_some_iff.1 hs
      have htasks := tasks_resume w task (hu rfl)
      rwa [hresume] at htasks
  | flushPage page =>
      simp only [step] at hs
      split at hs <;> cases hs <;> rfl
  | commit | abort | flushPages | flushAll | discard | release | replace =>
      cases hs
      rfl

/-- A move of one transaction changes no task of another. -/
theorem tasks_of_ne (hs : w.step move = some (events, v)) (ht : move.transaction? = some t)
    (hu : u ≠ t) : v.tasks u = w.tasks u := by
  refine tasks_of_other hs ?_
  rw [ht]
  rintro _ ⟨rfl⟩
  exact hu

/-! ## The same for a transaction -/

/-- A likeness relates the stores, and the transaction is at the same task. -/
structure SameFor (t : TransactionId) (R : Store → Store → Prop) (w w' : Traffic) : Prop where
  store : R w.store w'.store
  task : (w'.tasks t).map Task.bare = (w.tasks t).map Task.bare

namespace SameFor

theorem turn {s s' : Store} (hs : R s s') {o o' : Option Task}
    (ho : o'.map Task.bare = o.map Task.bare) : (w.turn t s o).SameFor t R (w'.turn t s' o') :=
  ⟨hs, by simpa only [Traffic.turn, if_true] using ho⟩

/-- It has a task on both, or on none. -/
theorem task_cases (h : w.SameFor t R w') :
    (w.tasks t = none ∧ w'.tasks t = none) ∨
      ∃ task task', w.tasks t = some task ∧ w'.tasks t = some task' ∧ task'.bare = task.bare := by
  have ht := h.task
  cases hw : w.tasks t with
  | none =>
      rw [hw] at ht
      exact Or.inl ⟨rfl, Option.map_eq_none_iff.1 ht⟩
  | some task =>
      rw [hw] at ht
      obtain ⟨task', hw', hb⟩ := Option.map_eq_some_iff.1 ht
      exact Or.inr ⟨task, task', rfl, hw', hb⟩

/-- The transaction begins a task. -/
theorem start (h : w.SameFor t R w') (hR : Store.Likeness t S R) (hs : w.store.Follows l)
    (hs' : w'.store.Follows l') {request request' : Request} (hin : request.Within S)
    (hb : request'.bare = request.bare) :
    (w'.outcome (.start t request')).map Outcome.bare =
        (w.outcome (.start t request)).map Outcome.bare ∧
      ∀ ⦃r r'⦄, w.step (.start t request) = some r → w'.step (.start t request') = some r' →
        r.2.SameFor t R r'.2 := by
  obtain ⟨hlike, hsame⟩ := hR.start h.store hs hs' hin
  obtain ⟨hstore, hbare⟩ := request.start_bare w'.store t
  obtain ⟨hstore', hbare'⟩ := request'.start_bare w'.store t
  rw [hb] at hstore' hbare'
  have hnext : (request'.start w'.store t).2.bare = (request.start w.store t).2.bare := by
    rw [← hbare', hbare, hsame]
  rw [← hstore, hstore'] at hlike
  rcases h.task_cases with ⟨ht, ht'⟩ | ⟨task, task', ht, ht', -⟩
  · rw [outcome, outcome, Traffic.step, Traffic.step, ht, ht']
    refine ⟨congrArg (fun next => some (Outcome.began next)) hnext, ?_⟩
    rintro _ _ ⟨rfl⟩ ⟨rfl⟩
    exact turn hlike (Task.bare_ofNext_congr hnext)
  · rw [outcome, outcome, Traffic.step, ht, ht']
    exact ⟨rfl, fun _ _ hr => by cases hr⟩

/-- The request of the task is evaluated. -/
theorem submit (h : w.SameFor t R w') (hR : Store.Likeness t S R) (hs : ∀ p, w.SoundAt p l)
    (hs' : ∀ p, w'.SoundAt p l') (ht : w.tasks t = some task) (ht' : w'.tasks t = some task')
    (hb : task'.bare = task.bare) (hin : task.Within S)
    (hf : w.store.catalog.file task.page.table = .ok source)
    (hroom : w'.store.lacksRoom t source { page := task.page, mode := task.mode } =
      w.store.lacksRoom t source { page := task.page, mode := task.mode }) :
    (w.submit t task source).2.SameFor t R (w'.submit t task' source).2 ∧
      (w'.submitOutcome t task' source).bare = (w.submitOutcome t task source).bare := by
  obtain ⟨hpage, hmode, hstage⟩ := Task.asked_of_bare_eq hb
  have hreleases : task'.stage.releases = task.stage.releases := by
    rw [← Stage.releases_bare, hstage, Stage.releases_bare]
  have htask := fun p => (hs p).tasks ht
  have hverdict := (hR.consider (r := { page := task.page, mode := task.mode }) h.store hin.page).1
  obtain ⟨hstore, hnext, -⟩ := hR.submit h.store (SoundAt.storeFollows hs)
    (SoundAt.storeFollows hs') hin.stage hin.page hf (fun p => (htask p).insertion)
    (htask task.page).writes ((htask task.page).releases rfl)
    (fun hx => (((hs' task.page).tasks ht').releases hpage (hreleases.trans hx)).2) hroom
  -- The stage of the other task may differ in what its scan has for column names.
  obtain ⟨hsame, hbare⟩ := submit_bare w'.store t source
    { page := task.page, mode := task.mode } task.stage
  obtain ⟨hsame', hbare'⟩ := submit_bare w'.store t source
    { page := task.page, mode := task.mode } task'.stage
  rw [hstage] at hsame' hbare'
  rw [← hsame, hsame'] at hstore
  rw [← hbare, hbare'] at hnext
  rw [submit_eq_turn, submit_eq_turn, submitOutcome, submitOutcome, hpage, hmode]
  refine ⟨turn hstore (Task.bare_after_congr hb hnext), ?_⟩
  simp only [Outcome.bare, hnext, hverdict]

/-- The task goes on. -/
theorem resume (h : w.SameFor t R w') (hR : Store.Likeness t S R) (hs : ∀ p, w.SoundAt p l)
    (hs' : ∀ p, w'.SoundAt p l') (ht : w.tasks t = some task) (ht' : w'.tasks t = some task')
    (hb : task'.bare = task.bare) (hin : task.Within S)
    (hroom : w'.lacksRoom (.resume t) = w.lacksRoom (.resume t)) :
    (w.resume t task).2.SameFor t R (w'.resume t task').2 ∧
      (w'.resumeOutcome t task').bare = (w.resumeOutcome t task).bare := by
  obtain ⟨hpage, hmode, hstage⟩ := Task.asked_of_bare_eq hb
  cases hf : w.store.catalog.file task.page.table with
  | ok source =>
      have hf' : w'.store.catalog.file task.page.table = .ok source := by
        rw [hR.catalog h.store, hf]
      obtain ⟨hr, ho⟩ := (hs task.page).resume_of_file ht hf
      obtain ⟨hr', ho'⟩ := (hs' task'.page).resume_of_file ht' (hpage.symm ▸ hf')
      rw [hr, ho, hr', ho']
      simp only [lacksRoom, ht, ht', hf, hf', hpage, hmode] at hroom
      exact h.submit hR hs hs' ht ht' hb hin hf hroom
  | error e =>
      have hf' : w'.store.catalog.file task'.page.table = .error e := by
        rw [hpage, hR.catalog h.store, hf]
      obtain ⟨hr, ho⟩ := (hs task.page).resume_of_error ht hf
      obtain ⟨hr', ho'⟩ := (hs' task'.page).resume_of_error ht' hf'
      have hnext : (task'.stage.resume w'.store t (.error e)).2.bare =
          (task.stage.resume w.store t (.error e)).2.bare := by
        rw [← (task'.stage.resume_bare w'.store t (.error e)).2, hstage,
          (task.stage.resume_bare w'.store t (.error e)).2, hR.resume_error h.store hin.stage e]
      rw [hr, ho, hr', ho', Stage.resume_error, Stage.resume_error]
      exact ⟨turn h.store (Task.bare_ofNext_congr hnext), congrArg Outcome.astray hnext⟩

/-- A move of the transaction within the scope is the same on both, unless only one of them
lacks room. -/
theorem step (h : w.SameFor t R w') (hR : Store.Likeness t S R) (hs : ∀ p, w.SoundAt p l)
    (hs' : ∀ p, w'.SoundAt p l') (hin : move.Within S)
    (htask : ∀ ⦃task⦄, w.tasks t = some task → task.Within S) (ht : move.transaction? = some t)
    (hm : move.Matches move') (hroom : w'.lacksRoom move' = w.lacksRoom move) :
    (w'.outcome move').map Outcome.bare = (w.outcome move).map Outcome.bare ∧
      ∀ ⦃r r'⦄, w.step move = some r → w'.step move' = some r' → r.2.SameFor t R r'.2 := by
  have ha := SoundAt.storeFollows hs
  have ha' := SoundAt.storeFollows hs'
  cases hm with
  | start u hb =>
      cases ht
      exact h.start hR ha ha' hin hb
  | same =>
      cases move with
      | start u request =>
          cases ht
          exact h.start hR ha ha' hin rfl
      | resume u =>
          cases ht
          rcases h.task_cases with ⟨ht, ht'⟩ | ⟨task, task', ht, ht', hb⟩
          · rw [outcome, outcome, Traffic.step, ht, ht']
            exact ⟨rfl, fun _ _ hr => by cases hr⟩
          · obtain ⟨hsame, hout⟩ := h.resume hR hs hs' ht ht' hb (htask ht) hroom
            rw [outcome, outcome, Traffic.step, Traffic.step, ht, ht']
            refine ⟨congrArg some hout, ?_⟩
            rintro _ _ ⟨rfl⟩ ⟨rfl⟩
            exact hsame
      | commit u =>
          cases ht
          obtain ⟨hr, hlike⟩ := hR.commit h.store ha ha'
          refine ⟨by rw [outcome, outcome, hr], ?_⟩
          rintro _ _ ⟨rfl⟩ ⟨rfl⟩
          exact ⟨hlike, h.task⟩
      | abort u =>
          cases ht
          obtain ⟨hr, hlike⟩ := hR.abort h.store ha ha'
          refine ⟨by rw [outcome, outcome, hr], ?_⟩
          rintro _ _ ⟨rfl⟩ ⟨rfl⟩
          exact ⟨hlike, h.task⟩
      | flushPage | flushPages | flushAll | discard | release | replace => cases ht

end SameFor

/-! ## The same for everyone -/

namespace Alike

theorem sameFor (h : w.Alike w') (t : TransactionId) : w.SameFor t Store.Alike w' :=
  ⟨h.store, h.tasks t⟩

theorem withStore (h : w.Alike w') {s s' : Store} (hs : s.Alike s') :
    Alike { w with store := s } { w' with store := s' } := ⟨hs, h.tasks⟩

/-- Two traffics that are alike are so after the same move, and what is told of it is the
same, unless only one of them lacks room. -/
theorem step (h : w.Alike w') (hs : ∀ p, w.SoundAt p l) (hs' : ∀ p, w'.SoundAt p l')
    (hp : move.isPlain = true) (hm : move.Matches move')
    (hroom : w'.lacksRoom move' = w.lacksRoom move) :
    (w'.outcome move').map Outcome.bare = (w.outcome move).map Outcome.bare ∧
      ∀ ⦃r r'⦄, w.step move = some r → w'.step move' = some r' → r.2.Alike r'.2 := by
  have ha := SoundAt.storeFollows hs
  have ha' := SoundAt.storeFollows hs'
  cases ht : move.transaction? with
  | some t =>
      obtain ⟨hout, hsame⟩ := (h.sameFor t).step (Store.likeness_alike t) hs hs' move.within_all
        (fun task _ => task.within_all) ht hm hroom
      refine ⟨hout, fun r r' hr hr' => ⟨(hsame hr hr').store, fun u => ?_⟩⟩
      by_cases hu : u = t
      · exact hu ▸ (hsame hr hr').task
      · rw [tasks_of_ne hr ht hu, tasks_of_ne hr' (hm.transaction?.trans ht) hu, h.tasks]
  | none =>
      -- Only flushes are left, and they are silent.
      cases hm with
      | start => cases ht
      | same =>
          cases move with
          | start | resume | commit | abort => cases ht
          | flushPage page =>
              obtain ⟨s, hf⟩ := ha.exists_flushPage page
              obtain ⟨s', hf'⟩ := ha'.exists_flushPage page
              rw [outcome, outcome, Traffic.step, Traffic.step, hf, hf']
              refine ⟨rfl, ?_⟩
              rintro _ _ ⟨rfl⟩ ⟨rfl⟩
              exact h.withStore
                ((Store.silent_flushPage hf).both (Store.silent_flushPage hf') h.store ha ha')
          | flushPages t =>
              refine ⟨?_, ?_⟩
              · rw [outcome, outcome, Store.flushPages, Store.flushPages, ha.untilError_flushPage,
                  ha'.untilError_flushPage]
              · rintro _ _ ⟨rfl⟩ ⟨rfl⟩
                exact h.withStore
                  ((Store.silent_flushPages ..).both (Store.silent_flushPages ..) h.store ha ha')
          | flushAll =>
              refine ⟨?_, ?_⟩
              · rw [outcome, outcome, Store.flushAll, Store.flushAll, ha.untilError_flushPage,
                  ha'.untilError_flushPage]
              · rintro _ _ ⟨rfl⟩ ⟨rfl⟩
                exact h.withStore
                  ((Store.silent_flushAll _).both (Store.silent_flushAll _) h.store ha ha')
          | discard | release | replace => cases hp

end Alike

end Traffic

end PagedStore

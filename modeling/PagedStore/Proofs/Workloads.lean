import PagedStore.Proofs.Growth

/-!
# Workloads are traffic

The parked jobs of a workload are the tasks of its traffic (`Workload.traffic`).  To
begin a task, and to settle, comes to moves of this traffic: the task begins, and
requests are evaluated again (`Workload.reaches_begin`, `Workload.reaches_settle`).  So
what is known of all orderly runs is known of workloads.

This needs that each transaction has one job at most, and that it has one if and only if
its request is parked (`Workload.Matched`).
-/

namespace PagedStore

open Std (ExtTreeMap)

namespace Traffic

variable {w w' : Traffic} {t : TransactionId}

/-- A plain move leads from one traffic to another. -/
def PlainStep (w w' : Traffic) : Prop :=
  ∃ move events, move.isPlain = true ∧ w.step move = some (events, w')

/-- Any number of plain moves lead from one traffic to another. -/
abbrev Reaches : Traffic → Traffic → Prop := Relation.ReflTransGen PlainStep

/-- An orderly run goes on with plain moves. -/
theorem Run.reaches {s₀ : Store} {history : List Event} (h : Run Orderly s₀ history w)
    (hr : w.Reaches w') : ∃ more, Run Orderly s₀ (history ++ more) w' := by
  induction hr with
  | refl => exact ⟨[], by rwa [List.append_nil]⟩
  | tail _ hstep ih =>
      obtain ⟨more, hrun⟩ := ih
      obtain ⟨move, events, hp, hs⟩ := hstep
      refine ⟨more ++ events, ?_⟩
      rw [← List.append_assoc]
      exact .step hrun (orderly_of_isPlain hp) hs

theorem plainStep_resume {task : Task} (h : w.tasks t = some task) :
    PlainStep w (w.resume t task).2 := by
  refine ⟨.resume t, (w.resume t task).1, rfl, ?_⟩
  rw [step, h]
  rfl

theorem turn_turn (w : Traffic) (t : TransactionId) (s s' : Store) (o o' : Option Task) :
    (w.turn t s o).turn t s' o' = w.turn t s' o' := by
  have htasks : ((w.turn t s o).turn t s' o').tasks = (w.turn t s' o').tasks := by
    funext u
    simp only [turn]
    split <;> rfl
  exact congrArg (Traffic.mk s') htasks

variable {s : Store} {source : TableFile} {n : Next}

/-- The request of a task has to wait. -/
theorem submit_of_none (w : Traffic) (task : Task)
    (h : PagedStore.submit w.store t source { page := task.page, mode := task.mode } task.stage =
      (none, s)) :
    (w.submit t task source).2 = w.turn t s (some { task with source := some source }) := by
  simp only [submit, h]

/-- A task goes on. -/
theorem submit_of_some (w : Traffic) (task : Task)
    (h : PagedStore.submit w.store t source { page := task.page, mode := task.mode } task.stage =
      (some n, s)) :
    (w.submit t task source).2 = w.turn t s (Task.ofNext n) := by
  simp only [submit, h]

theorem tasks_turn (w : Traffic) (t : TransactionId) (s : Store) (o : Option Task) :
    (w.turn t s o).tasks t = o := if_pos rfl

end Traffic

open Traffic (Reaches PlainStep)

/-! ## One task -/

/-- The task that a job with a request is. -/
def Job.taskFor (job : Job) (r : LockRequest) : Task :=
  { page := r.page, mode := r.mode, stage := job.stage, source := some job.source }

/-- The task that a parked job is. -/
def Job.task? (l : LockTable) (job : Job) : Option Task :=
  l.parked[job.transaction]?.map job.taskFor

/-- The job that is left. -/
def Progress.job? : Progress → Option Job
  | .ended _ => none
  | .parked job => some job

section Advance

variable {s s' : Store} {t : TransactionId} {source : TableFile} {r : LockRequest}
  {stage : Stage} {n : Next}

/-- A request that has to wait is parked. -/
theorem parked_of_submit_none (h : submit s t source r stage = (none, s')) (u : TransactionId) :
    s'.locks.parked[u]? = if t = u then some r else s.locks.parked[u]? := by
  have hp := (steady_submit s t source r stage).parked
  rw [h] at hp
  have hv : (s.locks.consider t r).1 = .waits := by
    rw [submit] at h
    dsimp only at h
    split at h
    · assumption
    · cases h
    · cases h
  rw [show s'.locks.parked = _ from hp, (LockTable.consider_of_waits hv).1,
    Std.ExtTreeMap.getElem?_insert, Std.ExtTreeMap.getElem?_erase]
  simp only [Std.LawfulEqCmp.compare_eq_iff_eq]
  split <;> rfl

/-- A task that goes on is not parked. -/
theorem parked_of_submit_some (h : submit s t source r stage = (some n, s')) (u : TransactionId) :
    s'.locks.parked[u]? = if t = u then none else s.locks.parked[u]? := by
  have hp := (steady_submit s t source r stage).parked
  rw [h] at hp
  have hv : (s.locks.consider t r).1 ≠ .waits := by
    intro hv
    rw [submit] at h
    dsimp only at h
    rw [hv] at h
    cases h
  rw [show s'.locks.parked = _ from hp, LockTable.parked_consider_of_ne_waits hv,
    Std.ExtTreeMap.getElem?_erase]
  simp only [Std.LawfulEqCmp.compare_eq_iff_eq]

/-- A task that runs is parked in the end if a job is left, and only then.  Others stay parked as
they are. -/
theorem parked_advance (hp : s.locks.parked[t]? = none) :
    (∀ u, t ≠ u → (advance s t n).2.locks.parked[u]? = s.locks.parked[u]?) ∧
      (∀ job, (advance s t n).1.job? = some job → job.transaction = t) ∧
        ((advance s t n).2.locks.parked[t]? = none ↔ (advance s t n).1.job? = none) := by
  fun_induction advance s t n with
  | case1 s a =>
      refine ⟨fun _ _ => rfl, ?_, fun _ => rfl, fun _ => hp⟩
      rintro job ⟨⟩
  | case2 s page mode stage e he ih =>
      have hparked := (stage.steady_resume s t (.error e)).parked
      rw [hparked] at ih
      exact ih hp
  | case3 s page mode stage source hf s' hs =>
      have hparked := parked_of_submit_none hs
      refine ⟨fun u hu => by rw [hparked, if_neg hu], ?_, ?_⟩
      · rintro _ ⟨rfl⟩
        rfl
      · rw [hparked, if_pos rfl]
        simp [Progress.job?]
  | case4 s page mode stage source hf n s' hs ih =>
      have hparked := parked_of_submit_some hs
      obtain ⟨hothers, hjob, hiff⟩ := ih (by rw [hparked, if_pos rfl])
      exact ⟨fun u hu => by rw [hothers u hu, hparked, if_neg hu], hjob, hiff⟩

variable {page : PageId} {mode : LockMode}

/-- The request of a task is evaluated for the first time, and the file of its page is known. -/
theorem plainStep_submit (w : Traffic) (t : TransactionId) (mode : LockMode) (stage : Stage)
    (hf : s.catalog.file page.table = .ok source) :
    PlainStep (w.turn t s (some { page, mode, stage }))
      ((w.turn t s (some { page, mode, stage })).submit t { page, mode, stage } source).2 := by
  have hresume : (w.turn t s (some { page, mode, stage })).resume t { page, mode, stage } =
      (w.turn t s (some { page, mode, stage })).submit t { page, mode, stage } source := by
    simp only [Traffic.resume, Traffic.turn, hf]
  rw [← hresume]
  exact Traffic.plainStep_resume (w.tasks_turn t s _)

/-- Or it is not known. -/
theorem plainStep_error (w : Traffic) {e : StoreError} (he : s.catalog.file page.table = .error e) :
    PlainStep (w.turn t s (some { page, mode, stage }))
      (w.turn t (stage.resume s t (.error e)).1
        (Task.ofNext (stage.resume s t (.error e)).2)) := by
  have hresume : ((w.turn t s (some { page, mode, stage })).resume t { page, mode, stage }).2 =
      (w.turn t s (some { page, mode, stage })).turn t (stage.resume s t (.error e)).1
        (Task.ofNext (stage.resume s t (.error e)).2) := by
    simp only [Traffic.resume, Traffic.turn, he]
  have hstep := Traffic.plainStep_resume (w.tasks_turn t s (some { page, mode, stage }))
  rw [hresume, w.turn_turn] at hstep
  exact hstep

/-- Running a task comes to evaluating its requests. -/
theorem reaches_advance (w : Traffic) (hp : s.locks.parked[t]? = none) :
    (w.turn t s (Task.ofNext n)).Reaches
      (w.turn t (advance s t n).2 ((advance s t n).1.job?.bind
        (Job.task? (advance s t n).2.locks))) := by
  fun_induction advance s t n with
  | case1 s a => exact .refl
  | case2 s page mode stage e he ih =>
      have hparked := (stage.steady_resume s t (.error e)).parked
      rw [hparked] at ih
      exact .head (plainStep_error w he) (ih hp)
  | case3 s page mode stage source hf s' hs =>
      have hstep := plainStep_submit w t mode stage hf
      rw [Traffic.submit_of_none (w.turn t s _) { page, mode, stage } hs, w.turn_turn] at hstep
      have htask : Job.task? s'.locks { transaction := t, source, stage } =
          some { page, mode, stage, source := some source } := by
        rw [Job.task?, parked_of_submit_none hs, if_pos rfl]
        rfl
      rw [Progress.job?, Option.bind_some, htask]
      exact .single hstep
  | case4 s page mode stage source hf n s' hs ih =>
      have hparked := parked_of_submit_some hs
      have hsub : ((w.turn t s (some { page, mode, stage })).submit t { page, mode, stage }
          source).2 = w.turn t s' (Task.ofNext n) := by
        rw [Traffic.submit_of_some (w.turn t s _) { page, mode, stage } hs, w.turn_turn]
      have hstep := plainStep_submit w t mode stage hf
      rw [hsub] at hstep
      exact .head hstep (ih (by rw [hparked, if_pos rfl]))

end Advance

/-! ## Many tasks -/

/-- The job of a transaction. -/
def jobOf? (jobs : List Job) (t : TransactionId) : Option Job :=
  jobs.find? fun job => job.transaction = t

theorem jobOf?_append (jobs more : List Job) (t : TransactionId) :
    jobOf? (jobs ++ more) t = (jobOf? jobs t).or (jobOf? more t) := List.find?_append

theorem jobOf?_eq_none_iff {jobs : List Job} {t : TransactionId} :
    jobOf? jobs t = none ↔ t ∉ jobs.map Job.transaction := by
  simp [jobOf?, List.find?_eq_none]

theorem transaction_of_jobOf? {jobs : List Job} {t : TransactionId} {job : Job}
    (h : jobOf? jobs t = some job) : job.transaction = t := by
  simpa using List.find?_some h

/-- The woken job, and the others. -/
theorem wokenJob?_eq_some {l : LockTable} {jobs others : List Job} {job : Job} {r : LockRequest}
    (h : wokenJob? l jobs = some (job, r, others)) :
    l.parked[job.transaction]? = some r ∧
      ∃ before after, jobs = before ++ job :: after ∧ others = before ++ after := by
  induction jobs generalizing others with
  | nil => cases h
  | cons j jobs ih =>
      rw [wokenJob?] at h
      split at h
      · rename_i hr
        cases h
        split at hr
        · exact ⟨hr, [], jobs, rfl, rfl⟩
        · cases hr
      · obtain ⟨⟨found, r', others'⟩, h1, h2⟩ := Option.map_eq_some_iff.1 h
        cases h2
        obtain ⟨hp, before, after, hjobs, hothers⟩ := ih h1
        exact ⟨hp, j :: before, after, by rw [hjobs]; rfl, by rw [hothers]; rfl⟩

section Others

variable {before after : List Job} {job : Job}
  (hd : ((before ++ job :: after).map Job.transaction).Nodup)

include hd

theorem nodup_others : ((before ++ after).map Job.transaction).Nodup :=
  hd.sublist ((List.sublist_cons_self job after).append_left before |>.map _)

theorem jobOf?_others_self : jobOf? (before ++ after) job.transaction = none := by
  rw [jobOf?_eq_none_iff]
  have hd := (List.perm_middle.map Job.transaction).nodup_iff.1 hd
  exact (List.nodup_cons.1 hd).1

theorem jobOf?_self : jobOf? (before ++ job :: after) job.transaction = some job := by
  have h := jobOf?_others_self hd
  rw [jobOf?_append, Option.or_eq_none_iff] at h
  rw [jobOf?_append, h.1]
  simp [jobOf?]

omit hd in
theorem jobOf?_others {u : TransactionId} (hu : job.transaction ≠ u) :
    jobOf? (before ++ after) u = jobOf? (before ++ job :: after) u := by
  rw [jobOf?_append, jobOf?_append]
  simp [jobOf?, hu]

end Others

namespace Workload

/-- The traffic that a workload is. -/
def traffic (w : Workload) : Traffic where
  store := w.store
  tasks t := (jobOf? w.jobs t).bind (Job.task? w.store.locks)

/-- A transaction has one job if its request is parked, and else none. -/
structure Matched (w : Workload) : Prop where
  distinct : (w.jobs.map Job.transaction).Nodup
  parked : ∀ t, w.store.locks.parked[t]? = none ↔ t ∉ w.jobs.map Job.transaction

variable {w : Workload} {t : TransactionId} {s : Store}

/-- Jobs that are parked as before are the same tasks. -/
theorem bind_task? (jobs : List Job) {l l' : LockTable} (h : l'.parked[t]? = l.parked[t]?) :
    (jobOf? jobs t).bind (Job.task? l') = (jobOf? jobs t).bind (Job.task? l) := by
  cases hj : jobOf? jobs t with
  | none => rfl
  | some job =>
      obtain rfl := transaction_of_jobOf? hj
      rw [Option.bind_some, Option.bind_some, Job.task?, Job.task?, h]

section Replace

variable {others : List Job} {o : Option Job}

theorem jobOf?_toList (ho : ∀ job, o = some job → job.transaction = t) (u : TransactionId) :
    jobOf? o.toList u = if t = u then o else none := by
  cases o with
  | none => simp [jobOf?]
  | some job =>
      obtain rfl := ho job rfl
      rw [Option.toList_some, jobOf?, List.find?_singleton]
      simp

/-- Other jobs come in the place of the job of a transaction. -/
theorem Matched.replace (h : w.Matched) (hsub : ∀ u, t ≠ u → jobOf? others u = jobOf? w.jobs u)
    (hd : (others.map Job.transaction).Nodup) (ht : jobOf? others t = none)
    (ho : ∀ job, o = some job → job.transaction = t)
    (hp : ∀ u, t ≠ u → s.locks.parked[u]? = w.store.locks.parked[u]?)
    (hpt : s.locks.parked[t]? = none ↔ o = none) :
    Matched { store := s, jobs := others ++ o.toList } := by
  refine ⟨?_, fun u => ?_⟩
  · show ((others ++ o.toList).map Job.transaction).Nodup
    rw [List.map_append, List.nodup_append]
    refine ⟨hd, ?_, ?_⟩
    · cases o <;> simp
    · rintro _ hmem u hu rfl
      obtain ⟨job, hjob, rfl⟩ := List.mem_map.1 hu
      rw [ho job (by simpa using hjob)] at hmem
      exact jobOf?_eq_none_iff.1 ht hmem
  · rw [← jobOf?_eq_none_iff]
    show s.locks.parked[u]? = none ↔ jobOf? (others ++ o.toList) u = none
    rw [jobOf?_append, jobOf?_toList ho, Option.or_eq_none_iff]
    by_cases hu : t = u
    · subst hu
      simp [hpt, ht]
    · rw [hp u hu, h.parked, ← jobOf?_eq_none_iff, hsub u hu, if_neg hu]
      simp

theorem traffic_replace (hsub : ∀ u, t ≠ u → jobOf? others u = jobOf? w.jobs u)
    (ht : jobOf? others t = none) (ho : ∀ job, o = some job → job.transaction = t)
    (hp : ∀ u, t ≠ u → s.locks.parked[u]? = w.store.locks.parked[u]?) :
    traffic { store := s, jobs := others ++ o.toList } =
      w.traffic.turn t s (o.bind (Job.task? s.locks)) := by
  refine congrArg (Traffic.mk s) (funext fun u => ?_)
  show (jobOf? (others ++ o.toList) u).bind (Job.task? s.locks) = _
  rw [jobOf?_append, jobOf?_toList ho]
  split
  · rename_i hu
    obtain rfl := hu
    rw [ht, if_pos rfl, Option.none_or]
  · rename_i hu
    rw [if_neg (Ne.symm hu), Option.or_none, hsub u hu]
    exact bind_task? _ (hp u hu)

end Replace

/-! ## Beginning and settling -/

/-- Steady changes of the store leave the tasks as they are. -/
theorem traffic_of_steady (h : Store.Steady w.store s) :
    traffic { w with store := s } = { w.traffic with store := s } :=
  congrArg (Traffic.mk s) (funext fun t => bind_task? _ (by rw [h.parked]))

theorem Matched.of_steady (hw : w.Matched) (h : Store.Steady w.store s) :
    Matched { w with store := s } :=
  ⟨hw.distinct, fun t => by
    show s.locks.parked[t]? = none ↔ _
    rw [h.parked]
    exact hw.parked t⟩

/-- To begin a task comes to moves. -/
theorem reaches_begin (h : w.Matched) (hp : w.store.locks.parked[t]? = none) (r : Request) :
    w.traffic.Reaches (w.begin t r).2.traffic ∧ (w.begin t r).2.Matched := by
  have hsteady := r.steady_start w.store t
  have hjob : jobOf? w.jobs t = none := jobOf?_eq_none_iff.2 ((h.parked t).1 hp)
  have hp₁ : (r.start w.store t).1.locks.parked[t]? = none := by rw [hsteady.parked, hp]
  obtain ⟨hothers, ho, hiff⟩ := parked_advance (n := (r.start w.store t).2) hp₁
  have hbegin : (w.begin t r).2 =
      { store := (advance (r.start w.store t).1 t (r.start w.store t).2).2
        jobs := w.jobs ++
          (advance (r.start w.store t).1 t (r.start w.store t).2).1.job?.toList } := by
    unfold Workload.begin
    dsimp only
    split
    · rename_i ha
      rw [ha]
      simp [Progress.job?]
    · rename_i ha
      rw [ha]
      rfl
  have hparked : ∀ u, t ≠ u →
      (advance (r.start w.store t).1 t (r.start w.store t).2).2.locks.parked[u]? =
        w.store.locks.parked[u]? := by
    intro u hu
    rw [hothers u hu, hsteady.parked]
  rw [hbegin]
  refine ⟨?_, h.replace (fun _ _ => rfl) h.distinct hjob ho hparked hiff⟩
  rw [traffic_replace (fun _ _ => rfl) hjob ho hparked]
  refine .head ⟨.start t r, [], rfl, ?_⟩ (reaches_advance _ hp₁)
  have htask : w.traffic.tasks t = none := by
    show (jobOf? w.jobs t).bind _ = none
    rw [hjob]
    rfl
  simp only [Traffic.step, htask]
  rfl

section Woken

variable {job : Job} {others : List Job} {r : LockRequest}

/-- The task of a woken job. -/
theorem tasks_of_wokenJob? (h : w.Matched)
    (hj : wokenJob? w.store.locks w.jobs = some (job, r, others)) :
    w.traffic.tasks job.transaction =
      some (job.taskFor r) := by
  obtain ⟨hp, before, after, hjobs, -⟩ := wokenJob?_eq_some hj
  have hd := h.distinct
  rw [hjobs] at hd
  show (jobOf? w.jobs job.transaction).bind _ = _
  rw [hjobs, jobOf?_self hd, Option.bind_some, Job.task?, hp]
  rfl

/-- The request of a woken job is evaluated. -/
theorem plainStep_woken (h : w.Matched)
    (hj : wokenJob? w.store.locks w.jobs = some (job, r, others)) :
    PlainStep w.traffic (w.traffic.submit job.transaction (job.taskFor r) job.source).2 :=
  Traffic.plainStep_resume (tasks_of_wokenJob? h hj)

/-- The request of a woken job has to wait again. -/
theorem reaches_wait (h : w.Matched)
    (hj : wokenJob? w.store.locks w.jobs = some (job, r, others))
    (hs : submit w.store job.transaction job.source r job.stage = (none, s)) :
    w.traffic.Reaches (traffic { w with store := s }) ∧ Matched { w with store := s } := by
  have htask := tasks_of_wokenJob? h hj
  obtain ⟨hp, -⟩ := wokenJob?_eq_some hj
  have hparked : ∀ u : TransactionId, s.locks.parked[u]? = w.store.locks.parked[u]? := by
    intro u
    rw [parked_of_submit_none hs]
    split
    · rename_i hu
      rw [← hu, hp]
    · rfl
  refine ⟨.single ?_, ⟨h.distinct, fun u => ?_⟩⟩
  · have hstep := plainStep_woken h hj
    have hnext : traffic { w with store := s } =
        w.traffic.turn job.transaction s (some (job.taskFor r)) := by
      refine congrArg (Traffic.mk s) (funext fun u => ?_)
      show (jobOf? w.jobs u).bind _ = if u = job.transaction then _ else _
      split
      · rename_i hu
        rw [← htask, hu]
        exact bind_task? w.jobs (hparked _)
      · exact bind_task? w.jobs (hparked u)
    rw [Traffic.submit_of_none w.traffic (job.taskFor r) hs] at hstep
    rw [hnext]
    exact hstep
  · show s.locks.parked[u]? = none ↔ _
    rw [hparked]
    exact h.parked u

/-- The request of a woken job is granted or refused, and the task goes on. -/
theorem reaches_goOn (h : w.Matched) {n : Next} {s' : Store} {progress : Progress}
    (hj : wokenJob? w.store.locks w.jobs = some (job, r, others))
    (hs : submit w.store job.transaction job.source r job.stage = (some n, s))
    (ha : advance s job.transaction n = (progress, s')) :
    w.traffic.Reaches (traffic { store := s', jobs := others ++ progress.job?.toList }) ∧
      Matched { store := s', jobs := others ++ progress.job?.toList } := by
  obtain ⟨-, before, after, hjobs, rfl⟩ := wokenJob?_eq_some hj
  have hd := h.distinct
  rw [hjobs] at hd
  have hsub : ∀ u, job.transaction ≠ u → jobOf? (before ++ after) u = jobOf? w.jobs u := by
    intro u hu
    rw [hjobs]
    exact jobOf?_others hu
  have hself := jobOf?_others_self hd
  have hp₁ : s.locks.parked[job.transaction]? = none := by
    rw [parked_of_submit_some hs, if_pos rfl]
  have hadvance := parked_advance (n := n) hp₁
  have hreaches := reaches_advance (n := n) w.traffic hp₁
  rw [ha] at hadvance hreaches
  obtain ⟨hothers, ho, hiff⟩ := hadvance
  have hparked : ∀ u, job.transaction ≠ u →
      s'.locks.parked[u]? = w.store.locks.parked[u]? := by
    intro u hu
    rw [hothers u hu, parked_of_submit_some hs, if_neg hu]
  refine ⟨?_, h.replace hsub (nodup_others hd) hself ho hparked hiff⟩
  have hstep := plainStep_woken h hj
  rw [Traffic.submit_of_some w.traffic (job.taskFor r) hs] at hstep
  rw [traffic_replace hsub hself ho hparked]
  exact .head hstep hreaches

end Woken

/-- To let woken tasks go on comes to moves. -/
theorem reaches_settleFrom (answers : ExtTreeMap TransactionId Answer) (h : w.Matched) :
    w.traffic.Reaches (w.settleFrom answers).2.traffic ∧ (w.settleFrom answers).2.Matched := by
  fun_induction settleFrom answers w with
  | case1 => exact ⟨.refl, h⟩
  | case2 answers w job r others hj s hs ih =>
      obtain ⟨hreaches, hmatched⟩ := reaches_wait h hj hs
      obtain ⟨hrest, hend⟩ := ih hmatched
      exact ⟨hreaches.trans hrest, hend⟩
  | case3 answers w job r others hj n s hs a s' ha ih =>
      obtain ⟨hreaches, hmatched⟩ := reaches_goOn h hj hs ha
      rw [Progress.job?, Option.toList_none, List.append_nil] at hreaches hmatched
      obtain ⟨hrest, hend⟩ := ih hmatched
      exact ⟨hreaches.trans hrest, hend⟩
  | case4 answers w job r others hj n s hs job' s' ha ih =>
      obtain ⟨hreaches, hmatched⟩ := reaches_goOn h hj hs ha
      obtain ⟨hrest, hend⟩ := ih hmatched
      exact ⟨hreaches.trans hrest, hend⟩

end Workload

end PagedStore

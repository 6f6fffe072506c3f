import PagedStore.Proofs.AlikeTraffic
import PagedStore.Proofs.SameCopies
import PagedStore.Proofs.SerialReplay

/-!
# Flushes are invisible

Take any moves that are made on a store, and make them again without the flushes among them.
Then each of the other moves has exactly the outcome that it had, and the same pages are cached
after it.  At the end the files are the same, as long as no page has an owner
(`Traffic.flushes_invisible`).

The two runs are *twins* (`Traffic.Twins`): their stores are alike and have the same copies, and
their tasks are the same.  A flush on one side leaves them so, and any other move that is made
on both sides does (`Traffic.Twins.step`).
-/

namespace PagedStore

/-- The move writes pages early. -/
def Move.isFlush : Move → Bool
  | .flushPage _ | .flushPages _ | .flushAll => true
  | _ => false

namespace Traffic

variable {w w' v v' : Traffic} {move : Move} {moves : List Move} {l l' : Ledger} {t : TransactionId}
  {task : Task} {source : TableFile} {s₀ : Store}

/-- What is observed of some moves, flushes apart: the outcome of each, and the pages that are
cached after it. -/
def observed (w : Traffic) : List Move → List (Option Outcome × List PageId)
  | [] => []
  | move :: moves =>
      match w.step move with
      | none => []
      | some (_, w') =>
          if move.isFlush then w'.observed moves
          else (w.outcome move, w'.store.cache.ids) :: w'.observed moves

theorem observed_of_isFlush {events : List Event} (hs : w.step move = some (events, v))
    (hf : move.isFlush = true) : w.observed (move :: moves) = v.observed moves := by
  rw [observed, hs]
  simp only [hf, if_true]

theorem observed_of_not_isFlush {events : List Event} (hs : w.step move = some (events, v))
    (hf : move.isFlush = false) :
    w.observed (move :: moves) = (w.outcome move, v.store.cache.ids) :: v.observed moves := by
  rw [observed, hs]
  simp only [hf, Bool.false_eq_true, if_false]

theorem steps_cons {events : List Event} {r : List Event × Traffic}
    (hs : w.step move = some (events, v)) (hr : v.steps moves = some r) :
    w.steps (move :: moves) = some (events ++ r.1, r.2) := by
  rw [steps, hs]
  dsimp only
  rw [hr, Option.map_some]

/-! ## Twins -/

/-- The stores differ in flushes only, and the tasks are the same. -/
structure Twins (w w' : Traffic) : Prop where
  store : w.store.Alike w'.store
  copies : w.store.SameCopies w'.store
  tasks : w'.tasks = w.tasks

namespace Twins

theorem withStore (h : w.Twins w') {s s' : Store} (hs : s.Alike s') (hc : s.SameCopies s') :
    Twins { w with store := s } { w' with store := s' } := ⟨hs, hc, h.tasks⟩

theorem turn (h : w.Twins w') {s s' : Store} (hs : s.Alike s') (hc : s.SameCopies s')
    (o : Option Task) : (w.turn t s o).Twins (w'.turn t s' o) :=
  ⟨hs, hc, by rw [Traffic.turn, Traffic.turn, h.tasks]⟩

/-- The same request is evaluated. -/
theorem submit (h : w.Twins w') (hs : ∀ p, w.SoundAt p l) (hs' : ∀ p, w'.SoundAt p l')
    (ht : w.tasks t = some task) (hf : w.store.catalog.file task.page.table = .ok source) :
    (w.submit t task source).2.Twins (w'.submit t task source).2 ∧
      w'.submitOutcome t task source = w.submitOutcome t task source := by
  have ha := SoundAt.storeFollows hs
  have ha' := SoundAt.storeFollows hs'
  have htask := fun p => (hs p).tasks ht
  have htask' := (hs' task.page).tasks (h.tasks ▸ ht)
  have hroom := h.copies.lacksRoom (t := t) (r := { page := task.page, mode := task.mode })
    h.store ha ha' hf
  obtain ⟨halike, -, hsame⟩ := (Store.likeness_alike t).submit h.store ha ha'
    task.stage.within_all trivial hf (fun p => (htask p).insertion) (htask task.page).writes
    ((htask task.page).releases rfl) (fun hx => (htask'.releases rfl hx).2) hroom
  have hnext := hsame fun hv => (h.copies.fetch_granted h.store ha ha' hf hv).1
  have hcopies := submit_sameCopies (t := t) (r := { page := task.page, mode := task.mode })
    task.stage h.copies h.store ha ha' hf
  rw [submit_eq_turn, submit_eq_turn, submitOutcome, submitOutcome, hnext, h.store.locks]
  exact ⟨h.turn halike hcopies _, rfl⟩

/-- The same task goes on. -/
theorem resume (h : w.Twins w') (hs : ∀ p, w.SoundAt p l) (hs' : ∀ p, w'.SoundAt p l')
    (ht : w.tasks t = some task) :
    (w.resume t task).2.Twins (w'.resume t task).2 ∧
      w'.resumeOutcome t task = w.resumeOutcome t task := by
  have ht' : w'.tasks t = some task := h.tasks ▸ ht
  cases hf : w.store.catalog.file task.page.table with
  | ok source =>
      obtain ⟨hr, ho⟩ := (hs task.page).resume_of_file ht hf
      obtain ⟨hr', ho'⟩ := (hs' task.page).resume_of_file ht' (h.store.catalog ▸ hf)
      rw [hr, ho, hr', ho']
      exact h.submit hs hs' ht hf
  | error e =>
      obtain ⟨hr, ho⟩ := (hs task.page).resume_of_error ht hf
      obtain ⟨hr', ho'⟩ := (hs' task.page).resume_of_error ht' (h.store.catalog ▸ hf)
      rw [hr, ho, hr', ho', Stage.resume_error, Stage.resume_error,
        (Store.likeness_alike t).resume_error h.store task.stage.within_all e]
      exact ⟨h.turn h.store h.copies _, rfl⟩

/-- Twins stay twins if the same move is made on both, and it has the same outcome. -/
theorem step (h : w.Twins w') (hs : ∀ p, w.SoundAt p l) (hs' : ∀ p, w'.SoundAt p l')
    (hp : move.isPlain = true) (hf : move.isFlush = false) :
    w'.outcome move = w.outcome move ∧
      ∀ ⦃r r'⦄, w.step move = some r → w'.step move = some r' → r.2.Twins r'.2 := by
  have ha := SoundAt.storeFollows hs
  have ha' := SoundAt.storeFollows hs'
  cases move with
  | start t request =>
      obtain ⟨halike, hnext⟩ := (Store.likeness_alike t).start h.store ha ha' request.within_all
      have hcopies := h.copies.both (request.sameCopies_start w.store t)
        (request.sameCopies_start w'.store t)
      have hturn : Twins
          (w.turn t (request.start w.store t).1 (Task.ofNext (request.start w.store t).2))
          (w'.turn t (request.start w'.store t).1 (Task.ofNext (request.start w'.store t).2)) := by
        rw [hnext]
        exact h.turn halike hcopies _
      rw [outcome, outcome, Traffic.step, Traffic.step, h.tasks]
      cases w.tasks t with
      | none =>
          refine ⟨congrArg (fun next => some (Outcome.began next)) hnext, ?_⟩
          rintro _ _ ⟨rfl⟩ ⟨rfl⟩
          exact hturn
      | some task => exact ⟨rfl, fun _ _ hr => by cases hr⟩
  | resume t =>
      rw [outcome, outcome, Traffic.step, Traffic.step, h.tasks]
      cases ht : w.tasks t with
      | none => exact ⟨rfl, fun _ _ hr => by cases hr⟩
      | some task =>
          obtain ⟨htwins, hout⟩ := h.resume hs hs' ht
          refine ⟨congrArg some hout, ?_⟩
          rintro _ _ ⟨rfl⟩ ⟨rfl⟩
          exact htwins
  | commit t =>
      obtain ⟨hr, halike⟩ := h.store.commit ha ha' t
      refine ⟨by rw [outcome, outcome, hr], ?_⟩
      rintro _ _ ⟨rfl⟩ ⟨rfl⟩
      exact h.withStore halike (h.copies.commit ha ha' t)
  | abort t =>
      obtain ⟨hr, halike⟩ := h.store.abort ha ha' t
      refine ⟨by rw [outcome, outcome, hr], ?_⟩
      rintro _ _ ⟨rfl⟩ ⟨rfl⟩
      exact h.withStore halike (h.copies.abort h.store t)
  | flushPage | flushPages | flushAll => cases hf
  | discard | release | replace => cases hp

end Twins

/-- A flush is always possible. -/
theorem exists_step_of_isFlush (w : Traffic) (hf : move.isFlush = true) :
    ∃ events v, w.step move = some (events, v) := by
  cases move with
  | flushPage page =>
      rw [step]
      cases w.store.flushPage page <;> exact ⟨_, _, rfl⟩
  | flushPages | flushAll => exact ⟨_, _, rfl⟩
  | _ => cases hf

/-- Twins stay twins if one of them is flushed. -/
theorem Twins.flush {events : List Event} (h : w.Twins w') (ha : w.store.Follows l)
    (hf : move.isFlush = true) (hs : w.step move = some (events, v)) : v.Twins w' := by
  have hafter : ∀ {s : Store}, Store.Silent w.store s → w.store.SameCopies s →
      Twins { w with store := s } w' := fun hq hc =>
    ⟨(hq.alike ha).symm.trans h.store, hc.symm.trans h.copies, h.tasks⟩
  cases move with
  | flushPage page =>
      obtain ⟨s, hflush⟩ := ha.exists_flushPage page
      rw [Traffic.step, hflush] at hs
      cases hs
      exact hafter (Store.silent_flushPage hflush) (Store.sameCopies_flushPage hflush)
  | flushPages t =>
      cases hs
      exact hafter (Store.silent_flushPages ..) (Store.sameCopies_untilError_flushPage ..)
  | flushAll =>
      cases hs
      exact hafter (Store.silent_flushAll _) (Store.sameCopies_untilError_flushPage ..)
  | _ => cases hf

/-! ## Moves with and without flushes -/

theorem grew_of_steps {r : List Event × Traffic} (hp : ∀ move ∈ moves, move.isPlain = true)
    (hs : w.steps moves = some r) : Store.Grew w.store r.2.store := by
  induction moves generalizing w r with
  | nil =>
      cases hs
      exact .refl _
  | cons move moves ih =>
      rw [steps] at hs
      split at hs
      · cases hs
      · rename_i hstep
        obtain ⟨_, hrest, rfl⟩ := Option.map_eq_some_iff.1 hs
        exact (grew_of_step (l := {}) (orderly_of_isPlain (hp move List.mem_cons_self)) hstep).trans
          (ih (fun m hm => hp m (List.mem_cons_of_mem _ hm)) hrest :)

/-- All is well after a move that may be made at any time. -/
theorem SoundAt.plain {p : PageId} {events : List Event} (h : w.SoundAt p l)
    (hp : move.isPlain = true) (hs : w.step move = some (events, v)) (hn : v.store.NumberedAt p) :
    v.SoundAt p (l.after events) :=
  (turned_of_step h hs ((orderly_of_isPlain hp).tidyAt hn)).sound

/-- Twins stay twins if the flushes among some moves are left out on one side. -/
theorem Twins.steps {r' : List Event × Traffic} (h : w.Twins w') (hs : ∀ p, w.SoundAt p l)
    (hs' : ∀ p, w'.SoundAt p l') (hp : ∀ move ∈ moves, move.isPlain = true)
    (hr' : w'.steps (moves.filter fun move => !move.isFlush) = some r')
    (hn : ∀ p, r'.2.store.NumberedAt p) :
    ∃ r, w.steps moves = some r ∧ r.2.Twins r'.2 ∧
      w'.observed (moves.filter fun move => !move.isFlush) = w.observed moves := by
  induction moves generalizing w w' l l' r' with
  | nil =>
      cases hr'
      exact ⟨_, rfl, h, rfl⟩
  | cons move moves ih =>
      have hplain := hp move List.mem_cons_self
      have hrest := fun m hm => hp m (List.mem_cons_of_mem _ hm)
      cases hf : move.isFlush with
      | true =>
          obtain ⟨events, v, hstep⟩ := w.exists_step_of_isFlush hf
          have htwins := h.flush (SoundAt.storeFollows hs) hf hstep
          have hsound := fun p => (hs p).plain hplain hstep
            (htwins.store.symm.numberedAt (hs' p).numbered)
          rw [List.filter_cons_of_neg (by simp [hf])] at hr' ⊢
          obtain ⟨r, hr, htwins, hobserved⟩ := ih htwins hsound hs' hrest hr' hn
          exact ⟨_, steps_cons hstep hr, htwins,
            hobserved.trans (observed_of_isFlush hstep hf).symm⟩
      | false =>
          rw [List.filter_cons_of_pos (by simp [hf])] at hr' ⊢
          have hplain' : ∀ m ∈ moves.filter fun move => !move.isFlush, m.isPlain = true :=
            fun m hm => hrest m ((List.mem_filter.1 hm).1)
          obtain ⟨hout, htwins⟩ := h.step hs hs' hplain hf
          rw [Traffic.steps] at hr'
          split at hr'
          · cases hr'
          · rename_i events' v' hstep'
            obtain ⟨r'', hrest', rfl⟩ := Option.map_eq_some_iff.1 hr'
            obtain ⟨⟨events, v⟩, hstep⟩ : ∃ r, w.step move = some r := by
              rw [← Option.ne_none_iff_exists', ne_eq, ← outcome_eq_none_iff, ← hout,
                outcome_eq_none_iff, hstep']
              simp
            have hv : v.Twins v' := htwins hstep hstep'
            have hn' := fun p => (grew_of_steps hplain' hrest').numberedAt (hn p)
            have hsound' := fun p => (hs' p).plain hplain hstep' (hn' p)
            have hsound := fun p => (hs p).plain hplain hstep (hv.store.symm.numberedAt (hn' p))
            obtain ⟨r, hr, htwins, hobserved⟩ := ih hv hsound hsound' hrest hrest' hn
            refine ⟨_, steps_cons hstep hr, htwins, ?_⟩
            rw [observed_of_not_isFlush hstep hf, observed_of_not_isFlush hstep' hf, hout,
              hv.copies.ids, hobserved]

/-- Moves that can be made without the flushes among them can be made with them.  The other moves
have the same outcomes and leave the same pages cached, the locks are the same in the end, and
so are the files, as long as no page has an owner.  Every table has fewer than `2 ^ 32` pages. -/
theorem flushes_invisible (h₀ : Fresh s₀) (hp : ∀ move ∈ moves, move.isPlain = true)
    {events' : List Event}
    (hs : ({ store := s₀ } : Traffic).steps (moves.filter fun move => !move.isFlush) =
      some (events', w'))
    (hn : ∀ p, w'.store.NumberedAt p) :
    ∃ events w, ({ store := s₀ } : Traffic).steps moves = some (events, w) ∧
      ({ store := s₀ } : Traffic).observed moves =
          ({ store := s₀ } : Traffic).observed (moves.filter fun move => !move.isFlush) ∧
        w.store.locks = w'.store.locks ∧
          ((∀ p t, ¬ (w'.store.view p).Owns t) → w.store.disk = w'.store.disk) := by
  have hplain : ∀ m ∈ moves.filter fun move => !move.isFlush, m.isPlain = true :=
    fun m hm => hp m ((List.mem_filter.1 hm).1)
  have hn₀ : ∀ p, s₀.NumberedAt p := fun p => (grew_of_steps hplain hs).numberedAt (hn p)
  have h : Twins { store := s₀ } { store := s₀ } := ⟨.refl _, .refl _, rfl⟩
  have hsound := fun p => soundAt_start h₀ (hn₀ p)
  obtain ⟨⟨events, w⟩, hr, htwins, hobserved⟩ := h.steps hsound hsound hp hs hn
  exact ⟨events, w, hr, hobserved.symm, htwins.store.locks.symm, htwins.store.symm.disk_eq⟩

/-- A transaction deletes two rows and is aborted, and pages are written early before and
after. -/
def Small.withFlushes : List Move :=
  [.start ⟨0⟩ (.delete (record 0)), .resume ⟨0⟩, .flushAll, .start ⟨0⟩ (.delete (record 1)),
   .resume ⟨0⟩, .flushPages ⟨0⟩, .abort ⟨0⟩, .flushPage (page 1)]

/-- The same without the flushes. -/
def Small.withoutFlushes : List Move := Small.withFlushes.filter fun move => !move.isFlush

theorem flushes_invisible_small :
    ∃ events w, ({ store := Small.store } : Traffic).steps Small.withFlushes = some (events, w) ∧
      ({ store := Small.store } : Traffic).observed Small.withFlushes =
          ({ store := Small.store } : Traffic).observed Small.withoutFlushes ∧
        w.store.disk = (Small.after Small.withoutFlushes).2.store.disk := by
  obtain ⟨r, hr⟩ := Option.isSome_iff_exists.1
    (show (({ store := Small.store } : Traffic).steps Small.withoutFlushes).isSome = true by
      decide +kernel)
  have hs : ({ store := Small.store } : Traffic).steps Small.withoutFlushes =
      some ((Small.after Small.withoutFlushes).1, (Small.after Small.withoutFlushes).2) := by
    rw [Small.after, hr, Option.getD_some]
  have hn : ∀ p, (Small.after Small.withoutFlushes).2.store.NumberedAt p :=
    Small.numberedAt (by decide +kernel) (by decide +kernel)
  have hrun : Run Orderly Small.store (Small.after Small.withoutFlushes).1
      (Small.after Small.withoutFlushes).2 := Small.run (by decide) (by decide +kernel)
  obtain ⟨events, w, hsteps, hobserved, -, hdisk⟩ :=
    flushes_invisible Small.fresh
      (show ∀ move ∈ Small.withFlushes, move.isPlain = true by decide) hs hn
  exact ⟨events, w, hsteps, hobserved,
    hdisk fun p t => not_owns_of_unlocked Small.fresh hrun (hn p) (by decide +kernel) t⟩

end Traffic

end PagedStore

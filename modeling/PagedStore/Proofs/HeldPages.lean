import PagedStore.Proofs.Marks
import PagedStore.Proofs.SerialReplay

/-!
# Pages that are held

A transaction counts on what it has locked.  Whatever others do, it holds the same pages in
the same modes (`Traffic.mode_of_step`).  A page that it holds, in whatever mode, has the same
content (`Traffic.content_of_step`).  The second follows from the ledger, which says what a page
holds for a transaction that holds it, and to which others add nothing for this page.
-/

namespace PagedStore

open PageView (Replays)

/-- The transaction that a move is made for, also if it only releases a lock. -/
def Move.for? : Move → Option TransactionId
  | .release t _ => some t
  | move => move.transaction?

variable {t u : TransactionId} {p : PageId} {s : Store} {l : Ledger}

/-! ## Locks -/

theorem Store.locks_fetch (s : Store) (t : TransactionId) (f : TableFile) (id : PageId)
    (mode : LockMode) : (s.fetch t f id mode).2.locks = s.locks := by
  -- What is known of another page is enough here.
  obtain ⟨p, hne⟩ := id.exists_ne
  rcases fetch_cases (s := s) (t := t) (f := f) mode fun h => absurd h hne with
    ⟨-, hq⟩ | ⟨s₁, page, frame, hq, -, -, -, htake⟩
  · exact hq.locks
  · rw [htake]
    exact hq.locks

theorem Store.locks_discard (s : Store) (id : PageId) : (s.discard id).locks = s.locks := by
  rw [discard]
  split
  · rfl
  · dsimp only
    split <;> rfl

theorem Insertion.locks_search (task : Insertion) (s : Store) (t : TransactionId)
    (page count : Nat) : (task.search s t page count).1.locks = s.locks := by
  rw [search]
  split <;> rfl

theorem Insertion.locks_begin (s : Store) (t : TransactionId) (table : TableId) (schema : Schema)
    (stored : List RecordId) (rows : List (List Field)) :
    (begin s t table schema stored rows).1.locks = s.locks := by
  cases rows with
  | nil => rfl
  | cons fields rows =>
      rw [begin]
      split
      · rfl
      · split
        · rfl
        · split
          · exact locks_search ..
          · rfl

/-- What a task does with its page leaves the locks of others alone. -/
theorem Stage.modeOf?_resume (stage : Stage) (s : Store) (r : Except StoreError Frame)
    (hu : u ≠ t) (p : PageId) : (stage.resume s u r).1.locks.modeOf? p t = s.locks.modeOf? p t := by
  cases r with
  | error e => rw [stage.resume_error]
  | ok frame =>
      cases stage with
      | get | feed => rfl
      | look task page count heldBefore =>
          rw [resume, Insertion.looked]
          split
          · rfl
          · rw [Insertion.locks_search]
            cases heldBefore with
            | true => rfl
            | false =>
                show (s.locks.release frame.page.id u).2.modeOf? p t = _
                rw [LockTable.modeOf?_release, if_neg fun h => hu h.2]
      | place task =>
          rw [resume, Insertion.place]
          split
          · rfl
          · rw [Insertion.locks_begin]
            rfl
      | delete record answer =>
          rw [resume]
          split <;> rfl

/-- A request that is evaluated changes the locks of its own transaction only. -/
theorem modeOf?_submit (s : Store) (source : TableFile) (r : LockRequest) (stage : Stage)
    (hu : u ≠ t) (p : PageId) :
    (submit s u source r stage).2.locks.modeOf? p t = s.locks.modeOf? p t := by
  have hconsider : (s.locks.consider u r).2.modeOf? p t = s.locks.modeOf? p t := by
    by_cases hg : (s.locks.consider u r).1 = .granted
    · rw [LockTable.modeOf?_of_granted hg, if_neg fun h => hu h.2]
    · exact LockTable.modeOf?_of_not_granted hg p t
  rw [submit]
  dsimp only
  split
  · exact hconsider
  · exact (stage.modeOf?_resume _ _ hu p).trans hconsider
  · rw [stage.modeOf?_resume _ _ hu, Store.locks_fetch]
    exact hconsider

/-! ## The ledger -/

/-- What a transaction does with pages adds to its own changes only. -/
theorem Ledger.after_of_work {events : List Event}
    (h : ∀ event ∈ events, (∃ p image, event = .locked u p image) ∨
      (∃ p mode copy, event = .fetched u p mode copy) ∨ ∃ change, event = .changed u change)
    (hu : u ≠ t) : (l.after events).committed = l.committed ∧
      (l.after events).pending t = l.pending t := by
  induction events generalizing l with
  | nil => exact ⟨rfl, rfl⟩
  | cons event events ih =>
      obtain ⟨hc, hp⟩ := ih (l := l.record event) fun e he => h e (List.mem_cons_of_mem _ he)
      suffices hone : (l.record event).committed = l.committed ∧
          (l.record event).pending t = l.pending t from ⟨hc.trans hone.1, hp.trans hone.2⟩
      rcases h event List.mem_cons_self with
        ⟨p, image, rfl⟩ | ⟨p, mode, copy, rfl⟩ | ⟨change, rfl⟩
      · exact ⟨rfl, rfl⟩
      · cases mode <;> exact ⟨rfl, rfl⟩
      · exact ⟨rfl, if_neg hu.symm⟩

namespace Traffic

variable {s₀ : Store} {w w' : Traffic} {move : Move} {history events : List Event}
  {base : PageId → Option Content}

/-- The events when a task goes on are of its own work. -/
theorem work_of_mem_resume {task : Task} {event : Event} (h : event ∈ (w.resume u task).1) :
    (∃ p image, event = .locked u p image) ∨ (∃ p mode copy, event = .fetched u p mode copy) ∨
      ∃ change, event = .changed u change := by
  cases hsource : w.sourceOf task with
  | error e =>
      rw [resume_of_error hsource] at h
      cases h
  | ok source =>
      rw [resume_of_source hsource] at h
      rcases mem_submitEvents h with ⟨image, he⟩ | ⟨copy, he⟩ | ⟨change, he⟩
      · exact Or.inl ⟨_, image, he⟩
      · exact Or.inr (Or.inl ⟨_, _, copy, he⟩)
      · exact Or.inr (Or.inr ⟨change, he⟩)

/-- A page is changed when a request for it was granted and gave the page, by the stage that the
task is at. -/
theorem granted_of_changed {task : Task} {change : Change} {v : TransactionId}
    (h : .changed v change ∈ (w.resume u task).1) :
    v = u ∧ ∃ source frame, w.sourceOf task = .ok source ∧
      (w.store.locks.consider u { page := task.page, mode := task.mode }).1 = .granted ∧
        (Store.fetch { w.store with locks :=
            (w.store.locks.consider u { page := task.page, mode := task.mode }).2 }
          u source task.page task.mode).1 = .ok frame ∧
          task.stage.change? frame.page = some change := by
  cases hsource : w.sourceOf task with
  | error e =>
      rw [resume_of_error hsource] at h
      cases h
  | ok source =>
      rw [resume_of_source hsource] at h
      have h : .changed v change ∈
          submitEvents w.store u source { page := task.page, mode := task.mode } task.stage := h
      unfold submitEvents at h
      dsimp only at h
      split at h
      · rename_i hv
        rcases List.mem_append.1 h with h | h
        · rw [PageView.lockEvents] at h
          split at h
          · cases List.mem_singleton.1 h
          · cases h
        · simp only [fetchEvents] at h
          split at h
          · cases h
          · rename_i frame hframe
            rcases List.mem_cons.1 h with h | h
            · cases h
            · obtain ⟨change', hc, he⟩ := List.mem_map.1 h
              cases he
              exact ⟨rfl, source, frame, rfl, hv, hframe, Option.mem_toList.1 hc⟩
      · cases h

/-- A transaction is aborted by a move of its own. -/
theorem abort_of_aborted (hs : w.step move = some (events, w')) (hm : .aborted t ∈ events) :
    move = .abort t := by
  cases move with
  | abort u =>
      cases hs
      cases List.mem_singleton.1 hm
      rfl
  | resume u =>
      obtain ⟨task, -, hresume⟩ := Option.map_eq_some_iff.1 hs
      have hmem : .aborted t ∈ (w.resume u task).1 := by
        rw [hresume]
        exact hm
      rcases work_of_mem_resume hmem with ⟨p, image, he⟩ | ⟨p, mode, copy, he⟩ | ⟨change, he⟩ <;>
        cases he
  | start u request =>
      simp only [step] at hs
      split at hs <;> cases hs
      cases hm
  | commit u =>
      cases hs
      have := List.mem_singleton.1 hm
      simp only [commitEvent] at this
      split at this <;> cases this
  | flushPage page =>
      simp only [step] at hs
      split at hs <;> cases hs <;> cases hm
  | flushPages | flushAll | discard | release | replace =>
      cases hs
      cases hm

/-- What others do tells nothing new of a page that is open to a transaction. -/
theorem told_of_step (hr : Replays base l (w.store.view p)) (ho : (w.store.view p).OpenTo t)
    (hs : w.step move = some (events, w')) (hfail : ∀ u, .failed u ∉ events)
    (hne : ∀ ⦃u⦄, move.for? = some u → u ≠ t) :
    (l.after events).content base p = l.content base p ∧
      (l.after events).pending t = l.pending t := by
  cases move with
  | resume u =>
      obtain ⟨task, -, hresume⟩ := Option.map_eq_some_iff.1 hs
      have hwork : ∀ event ∈ (w.resume u task).1, _ := fun event he => work_of_mem_resume he
      rw [hresume] at hwork
      obtain ⟨hc, hp⟩ := Ledger.after_of_work (l := l) hwork (hne rfl)
      exact ⟨by rw [Ledger.content, Ledger.content, hc], hp⟩
  | commit u =>
      cases hs
      rcases hresult : (w.store.commit u).1 with e | _
      · rw [hresult] at hfail
        exact absurd List.mem_cons_self (hfail u)
      · -- Who has changed the page owns it, so it was not this one.
        have hother : ∀ change ∈ l.pending u, change.page ≠ p :=
          fun change hm he => hne rfl (ho u (hr.pending hm he))
        refine ⟨?_, if_neg (hne rfl).symm⟩
        show (base p).map (replay p (l.committed ++ l.pending u)) = _
        exact congrArg (fun f => (base p).map f) (funext fun c => by
          rw [replay_append, replay_of_forall_ne hother])
  | abort u =>
      cases hs
      exact ⟨rfl, if_neg (hne rfl).symm⟩
  | start u request =>
      simp only [step] at hs
      split at hs <;> cases hs
      exact ⟨rfl, rfl⟩
  | flushPage page =>
      simp only [step] at hs
      split at hs <;> cases hs <;> exact ⟨rfl, rfl⟩
  | flushPages | flushAll | discard | release | replace =>
      cases hs
      exact ⟨rfl, rfl⟩

/-! ## Moves of others -/

/-- Whatever others do, a transaction holds the same pages in the same modes. -/
theorem mode_of_step (h : w.SoundAt p l) (hr : ∀ catalog disk, move ≠ .replace catalog disk)
    (hs : w.step move = some (events, w')) (hn : w'.store.NumberedAt p)
    (hne : ∀ ⦃u⦄, move.for? = some u → u ≠ t) :
    (w'.store.view p).mode t = (w.store.view p).mode t := by
  have hquiet : ∀ {store}, Store.QuietAt p w.store store →
      (store.view p).mode t = (w.store.view p).mode t := fun hq =>
    congrArg (fun locks : LockTable => locks.modeOf? p t) hq.locks
  cases move with
  | start u request =>
      simp only [step] at hs
      split at hs <;> cases hs
      exact hquiet (Request.start_moves h.store h.agrees.locked request).1
  | resume u =>
      obtain ⟨task, -, hresume⟩ := Option.map_eq_some_iff.1 hs
      show w'.store.locks.modeOf? p t = w.store.locks.modeOf? p t
      cases hsource : w.sourceOf task with
      | error e =>
          rw [resume_of_error hsource] at hresume
          cases hresume
          exact task.stage.modeOf?_resume w.store _ (hne rfl) p
      | ok source =>
          rw [resume_of_source hsource] at hresume
          have hstore := w.store_submit u task source
          rw [hresume] at hstore
          rw [hstore]
          exact modeOf?_submit w.store source _ task.stage (hne rfl) p
  | commit u =>
      cases hs
      rcases Store.commit_cases h.store u with ⟨-, -, -, -, hview⟩ | ⟨e, q, rest, -, -, hsaves, -⟩
      · rw [hview, PageView.committed, PageView.mode_cleared, if_neg (hne rfl), PageView.mode_saved]
      · rw [hsaves.view]
        split
        · rw [PageView.mode_saved]
        · rfl
  | abort u =>
      cases hs
      rw [Store.view_abort h.store (fun _ hk => h.agrees.kept hk) hn, PageView.aborted,
        PageView.mode_cleared, if_neg (hne rfl)]
  | flushPage page =>
      simp only [step] at hs
      split at hs
      · rename_i store hf
        cases hs
        exact hquiet (Store.quietAt_flushPage hf)
      · cases hs
        rfl
  | flushPages u =>
      cases hs
      exact hquiet (Store.quietAt_flushPages p w.store u)
  | flushAll =>
      cases hs
      exact hquiet (Store.quietAt_flushAll p w.store)
  | discard page =>
      cases hs
      exact congrArg (fun locks : LockTable => locks.modeOf? p t) (w.store.locks_discard page)
  | release u q =>
      cases hs
      rw [Store.view_releasePage]
      split
      · rw [PageView.mode_released, if_neg (hne rfl)]
      · rfl
  | replace catalog disk => exact absurd rfl (hr catalog disk)

/-- Whatever others do, a page that a transaction holds has the same content. -/
theorem content_of_step (h₀ : Fresh s₀) (h : Run Orderly s₀ history w)
    (hr : Orderly (Ledger.of history) w move w') (hs : w.step move = some (events, w'))
    (hn : ∀ p, w'.store.NumberedAt p) (hne : ∀ ⦃u⦄, move.for? = some u → u ≠ t)
    (hheld : (w.store.view p).mode t ≠ none) :
    (w'.store.view p).content = (w.store.view p).content := by
  have hbefore := fun p => (grew_of_step hr hs).numberedAt (hn p)
  have hsound := fun p => soundAt_of_orderly h₀ h (hbefore p)
  have hsound' := soundAt_of_orderly h₀ (h.step hr hs) (hn p)
  have hreplays := (replays_of_orderly h₀ h hbefore).2 p
  have hreplays' := (replays_of_orderly h₀ (h.step hr hs) hn).2 p
  have hheld' : (w'.store.view p).mode t ≠ none := by
    rwa [mode_of_step (hsound p) hr.ne_replace hs (hn p) hne]
  have ho := (hsound p).agrees.openTo_of_mode hheld
  obtain ⟨hcontent, hpending⟩ := told_of_step hreplays ho hs
    (not_failed_of_step hsound hs hn) hne
  rw [hreplays'.current (hsound'.agrees.openTo_of_mode hheld'), hreplays.current ho,
    Ledger.of_append]
  show (((Ledger.of history).after events).content s₀.firstContent p).map
    (replay p (((Ledger.of history).after events).pending t)) = _
  rw [hcontent, hpending]
  rfl

end Traffic

end PagedStore

import PagedStore.Proofs.Endings
import PagedStore.Proofs.TaskSteps

/-!
# Traffic turns pages

Every move of the traffic is, seen from one page, a sequence of turns that gives the
ledger the events of the move (`Traffic.turns_of_step`).  So a page agrees with the
ledger after every tidy run (`Traffic.soundAt_of_run`).
-/

namespace PagedStore

open PageView (Turn Turns Agrees)

variable {p : PageId} {l : Ledger} {t : TransactionId} {s s' : Store}

/-! ## Locking -/

namespace Store

theorem view_consider (s : Store) (t : TransactionId) (r : LockRequest) (p : PageId) :
    view { s with locks := (s.locks.consider t r).2 } p =
      if (s.locks.consider t r).1 = .granted ∧ r.page = p then (s.view p).granted t r.mode
      else s.view p := by
  by_cases hg : (s.locks.consider t r).1 = .granted
  · have hmode := fun u => LockTable.modeOf?_of_granted hg p u
    by_cases hp : r.page = p
    · rw [if_pos ⟨hg, hp⟩]
      refine PageView.ext rfl rfl rfl rfl rfl (funext fun u => (hmode u).trans ?_)
      simp only [hp, true_and]
      rfl
    · rw [if_neg fun hc => hp hc.2]
      refine PageView.ext rfl rfl rfl rfl rfl (funext fun u => (hmode u).trans ?_)
      simp only [hp, false_and, if_false]
      rfl
  · rw [if_neg fun hc => hg hc.1]
    exact PageView.ext rfl rfl rfl rfl rfl
      (funext fun u => LockTable.modeOf?_of_not_granted hg p u)

/-- The events of locking another page say nothing about this one. -/
theorem sameAt_lockEvents {v : PageView} (hne : v.id ≠ p) (mode : LockMode) :
    l.SameAt p (l.after (v.lockEvents t mode)) := by
  rw [PageView.lockEvents]
  split
  · exact Ledger.sameAt_locked hne l t v.image
  · exact .refl p l

theorem consider_moves (s : Store) (t : TransactionId) (r : LockRequest) (p : PageId)
    (l : Ledger) :
    MovesAt p l s
      (if (s.locks.consider t r).1 = .granted then l.after ((s.view r.page).lockEvents t r.mode)
        else l)
      { s with locks := (s.locks.consider t r).2 } := by
  refine ⟨rfl, Disk.Grows.refl _, fun h => ⟨h.catalog, h.keyed, h.indexed.consider t r⟩,
    fun _ _ => ?_⟩
  rw [view_consider]
  by_cases hg : (s.locks.consider t r).1 = .granted
  · rw [if_pos hg]
    by_cases hp : r.page = p
    · rw [if_pos ⟨hg, hp⟩]
      obtain ⟨page, mode⟩ := r
      subst hp
      refine .single (.grant t mode ?_ ?_)
      · rintro rfl u hu
        exact LockTable.eq_none_of_granted hg hu
      · rintro rfl hm u
        exact LockTable.ne_exclusive_of_granted hg hm
    · rw [if_neg fun hc => hp hc.2]
      exact .single (.elsewhere (sameAt_lockEvents hp r.mode))
  · rw [if_neg hg, if_neg fun hc => hg hc.1]

/-! ## Fetching -/

theorem take_moves {id : PageId} {page : Page} (mode : LockMode) (copy : Page)
    (hm : mode = .exclusive → s.locks.modeOf? id t = some .exclusive)
    (hp : s.cache.page? id = some page) :
    MovesAt p l s (l.record (.fetched t id mode copy)) (s.take t id mode) := by
  refine ⟨rfl, Disk.Grows.refl _, fun h => h.take t id mode, fun _ _ => ?_⟩
  rw [view_take]
  by_cases he : id = p
  · subst he
    have hcopy : (s.view id).copy = some page := hp
    rw [if_pos rfl, hcopy, Option.map_some]
    cases mode with
    | shared =>
        have : { s.view id with copy := some (taken t .shared page) } = s.view id :=
          PageView.ext rfl rfl rfl hcopy.symm rfl rfl
        rw [this]
        exact .refl
    | exclusive => exact .single (.take copy (hm rfl) hcopy)
  · rw [if_neg he]
    exact .single (.elsewhere (Ledger.sameAt_fetched (Or.inl he) l t copy))

end Store

/-! ## Evaluating a request -/

open Store (MovesAt)

/-- Locking a page does not say that it is written. -/
theorem wrote_lockEvents (l : Ledger) (v : PageView) (t : TransactionId) (mode : LockMode) :
    (l.after (v.lockEvents t mode)).wrote = l.wrote := by
  rw [PageView.lockEvents]
  split <;> rfl

section Submit

variable {r : LockRequest}

section Verdicts

variable (source : TableFile) (stage : Stage)

theorem submit_of_waits (hv : (s.locks.consider t r).1 = .waits) :
    submitEvents s t source r stage = [] ∧
      submit s t source r stage = (none, { s with locks := (s.locks.consider t r).2 }) := by
  simp only [submitEvents, submit, hv, and_self]

theorem submit_of_refused (hv : (s.locks.consider t r).1 = .refused) :
    submitEvents s t source r stage = [] ∧
      submit s t source r stage =
        (some (stage.resume { s with locks := (s.locks.consider t r).2 } t
            (.error (.aborted t))).2,
          { s with locks := (s.locks.consider t r).2 }) := by
  simp only [submitEvents, submit, hv, stage.resume_error, and_self]

theorem submit_of_granted (hv : (s.locks.consider t r).1 = .granted)
    {fetched : Except StoreError Frame × Store}
    (hf : { s with locks := (s.locks.consider t r).2 }.fetch t source r.page r.mode = fetched) :
    submitEvents s t source r stage =
        (s.view r.page).lockEvents t r.mode ++ fetchEvents t r stage fetched.1 ∧
      submit s t source r stage =
        (some (stage.resume fetched.2 t fetched.1).2, (stage.resume fetched.2 t fetched.1).1) := by
  simp only [submitEvents, submit, hv, hf, and_self]

end Verdicts

variable {source : TableFile} {stage : Stage}

/-- What locking a page and fetching it come to.  If the page is fetched, the transaction
holds its lock, and gets the copy that is in the cache by then. -/
theorem locked_fetch_moves (hv : (s.locks.consider t r).1 = .granted)
    (hf : r.page = p → s.catalog.file p.table = .ok source)
    {fetched : Except StoreError Frame × Store}
    (hfetched : { s with locks := (s.locks.consider t r).2 }.fetch t source r.page r.mode =
      fetched) :
    (∃ e, fetched.1 = .error e ∧
        MovesAt p l s (l.after ((s.view r.page).lockEvents t r.mode)) fetched.2) ∨
      ∃ s₂ page frame, MovesAt p l s (l.after ((s.view r.page).lockEvents t r.mode)) s₂ ∧
        s₂.locks = (s.locks.consider t r).2 ∧ s₂.cache.page? r.page = some page ∧
          frame.page = Store.taken t r.mode page ∧
            fetched = (.ok frame, s₂.take t r.page r.mode) := by
  have hlocked := s.consider_moves t r p l
  rw [hv, if_pos rfl] at hlocked
  have hcases := ({ s with locks := (s.locks.consider t r).2 } : Store).fetch_cases
    (t := t) (p := p) r.mode fun he => hlocked.catalog ▸ hf he
  rw [hfetched] at hcases
  rcases hcases with ⟨⟨e, he⟩, hq⟩ | ⟨s₂, page, frame, hq, hp, hok, hframe, htake⟩
  · exact Or.inl ⟨e, he, hlocked.trans (hq.moves _)⟩
  · exact Or.inr ⟨s₂, page, frame, hlocked.trans (hq.moves _), hq.locks, hp, hframe,
      Prod.ext hok htake⟩

/-- Evaluating the request of a task leaves the store that evaluating the request gives. -/
theorem Traffic.store_submit (w : Traffic) (t : TransactionId) (task : Task)
    (source : TableFile) :
    (w.submit t task source).2.store = (PagedStore.submit w.store t source
      { page := task.page, mode := task.mode } task.stage).2 := by
  rw [Traffic.submit]
  dsimp only
  split <;> rename_i hsub <;> rw [hsub] <;> rfl

/-- A request that has to wait gives no events. -/
theorem submitEvents_eq_nil (h : (submit s t source r stage).1 = none) :
    submitEvents s t source r stage = [] := by
  cases hv : (s.locks.consider t r).1 with
  | waits => exact (submit_of_waits source stage hv).1
  | refused => exact (submit_of_refused source stage hv).1
  | granted =>
      rw [(submit_of_granted source stage hv rfl).2] at h
      cases h

/-- A request that is granted and gives the page: the store comes to a point where the page
is in the cache, and from there to its end.  What the task does next is sound. -/
theorem submit_fetched (hs : s.Sound)
    (hheld : l.wrote t p = true → s.locks.modeOf? p t = some .exclusive)
    (hf : r.page = p → s.catalog.file p.table = .ok source)
    (hi : ∀ ⦃i⦄, stage.insertion? = some i → i.SoundAt (s.view p).file)
    (hw : stage.writes = true → r.mode = .exclusive)
    (hr : r.page = p → stage.releases = true → r.mode = .shared ∧ l.wrote t p = false)
    (hv : (s.locks.consider t r).1 = .granted) {frame : Frame}
    (hframe : ({ s with locks := (s.locks.consider t r).2 }.fetch t source r.page r.mode).1 =
      .ok frame) :
    ∃ s₂ page, MovesAt p l s (l.after ((s.view r.page).lockEvents t r.mode)) s₂ ∧
      s₂.locks = (s.locks.consider t r).2 ∧ s₂.cache.page? r.page = some page ∧
        frame.page = Store.taken t r.mode page ∧
          MovesAt p (l.after ((s.view r.page).lockEvents t r.mode)) s₂
            (l.after (submitEvents s t source r stage)) (submit s t source r stage).2 ∧
              ∀ ⦃n⦄, (submit s t source r stage).1 = some n →
                n.SoundAt p (s.view p).file (l.after (submitEvents s t source r stage)) t := by
  obtain ⟨he, hsub⟩ := submit_of_granted source stage hv rfl
  rcases locked_fetch_moves (p := p) (l := l) hv hf rfl with
    ⟨e, hfail, -⟩ | ⟨s₂, page, frame', hm, hlocks, hp, htaken, hfetched⟩
  · rw [hframe] at hfail
    cases hfail
  · obtain rfl : frame' = frame := by
      rw [hfetched] at hframe
      cases hframe
      rfl
    rw [he, hsub, hfetched, Ledger.after_append]
    have hmode : r.mode = .exclusive → s₂.locks.modeOf? r.page t = some .exclusive := by
      intro hx
      rw [hlocks]
      exact LockTable.modeOf?_self_of_granted hv hx
    -- Who has written the page holds it, or has just been granted it for writing.
    have hwrote : ((l.after ((s.view r.page).lockEvents t r.mode)).record
        (.fetched t r.page r.mode frame'.page)).wrote t p = true →
          r.mode = .exclusive ∧ r.page = p ∨ l.wrote t p = true := by
      intro h
      rw [← wrote_lockEvents l (s.view r.page) t r.mode]
      exact (Ledger.wrote_fetched.1 h).imp_left fun h => ⟨h.1, h.2.2⟩
    have hkeeps : l.wrote t p = true → s₂.locks.modeOf? p t = some .exclusive := by
      intro h
      rw [hlocks]
      exact LockTable.exclusive_of_granted hv (hheld h)
    generalize l.after ((s.view r.page).lockEvents t r.mode) = l₁ at hm hwrote
    have htake := Store.take_moves (p := p) (l := l₁) r.mode frame'.page hmode hp
    have hcached : (s₂.take t r.page r.mode).cache.page? r.page = some frame'.page :=
      Store.page?_take_self hp htaken
    have hfile := (hm.trans htake).file_view
    have howner : stage.writes = true → frame'.page.owner = some t := by
      intro hx
      rw [htaken, hw hx]
      rfl
    have hreleases : r.page = p → stage.releases = true →
        (l₁.record (.fetched t r.page r.mode frame'.page)).wrote t p = false := by
      intro hp hrel
      obtain ⟨hshared, hl⟩ := hr hp hrel
      by_contra h
      rcases hwrote (by simpa using h) with ⟨hx, -⟩ | h
      · rw [hshared] at hx
        cases hx
      · rw [hl] at h
        cases h
    have hlocked : (l₁.record (.fetched t r.page r.mode frame'.page)).wrote t p = true →
        (s₂.take t r.page r.mode).locks.modeOf? p t = some .exclusive := by
      intro h
      rcases hwrote h with ⟨hx, hp⟩ | h
      · exact hp ▸ hmode hx
      · exact hkeeps h
    obtain ⟨hmoves, hnext⟩ := stage.resume_ok (htake.sound (hm.sound hs)) hcached
      (hfile ▸ hi) howner hreleases hlocked
    rw [hfile] at hnext
    refine ⟨s₂, page, hm, hlocks, hp, htaken, htake.trans hmoves, ?_⟩
    rintro n ⟨rfl⟩
    exact hnext

/-- Evaluating a request of a sound task, and what the task does next. -/
theorem submit_moves (hs : s.Sound)
    (hheld : l.wrote t p = true → s.locks.modeOf? p t = some .exclusive)
    (hf : r.page = p → s.catalog.file p.table = .ok source)
    (hi : ∀ ⦃i⦄, stage.insertion? = some i → i.SoundAt (s.view p).file)
    (hw : stage.writes = true → r.mode = .exclusive)
    (hr : r.page = p → stage.releases = true → r.mode = .shared ∧ l.wrote t p = false) :
    MovesAt p l s (l.after (submitEvents s t source r stage)) (submit s t source r stage).2 ∧
      ∀ ⦃n⦄, (submit s t source r stage).1 = some n →
        n.SoundAt p (s.view p).file (l.after (submitEvents s t source r stage)) t := by
  have hlocked := s.consider_moves t r p l
  cases hv : (s.locks.consider t r).1 with
  | waits =>
      rw [hv, if_neg (by simp)] at hlocked
      obtain ⟨he, hsub⟩ := submit_of_waits source stage hv
      rw [he, hsub]
      exact ⟨hlocked, fun _ hn => by cases hn⟩
  | refused =>
      rw [hv, if_neg (by simp)] at hlocked
      obtain ⟨he, hsub⟩ := submit_of_refused source stage hv
      rw [he, hsub]
      refine ⟨hlocked, ?_⟩
      rintro n ⟨rfl⟩
      exact stage.soundAt_resume_error _ t _
  | granted =>
      cases hframe : (({ s with locks := (s.locks.consider t r).2 } : Store).fetch t source
          r.page r.mode).1 with
      | ok frame =>
          obtain ⟨s₂, page, hm, -, -, -, hrest, hnext⟩ :=
            submit_fetched hs hheld hf hi hw hr hv hframe
          exact ⟨hm.trans hrest, hnext⟩
      | error e =>
          rcases locked_fetch_moves (p := p) (l := l) hv hf rfl with
            ⟨e', -, hm⟩ | ⟨s₂, page, frame, -, -, -, -, hfetched⟩
          · obtain ⟨he, hsub⟩ := submit_of_granted source stage hv rfl
            rw [he, hsub, hframe, stage.resume_error, fetchEvents, List.append_nil]
            refine ⟨hm, ?_⟩
            rintro n ⟨rfl⟩
            exact stage.soundAt_resume_error _ t _
          · rw [hfetched] at hframe
            cases hframe

end Submit

/-! ## Who has written a page -/

/-- Only fetching a page for writing makes a transaction one that has written it. -/
theorem wrote_of_after {events : List Event} {u : TransactionId}
    (he : ∀ copy, .fetched u p .exclusive copy ∉ events)
    (h : (l.after events).wrote u p = true) : l.wrote u p = true := by
  induction events generalizing l with
  | nil => exact h
  | cons event events ih =>
      have h := ih (fun copy hm => he copy (List.mem_cons_of_mem _ hm)) h
      cases event with
      | fetched t id mode copy =>
          rcases Ledger.wrote_fetched.1 h with ⟨rfl, rfl, rfl⟩ | h
          · exact absurd List.mem_cons_self (he copy)
          · exact h
      | committed t | aborted t =>
          exact (Ledger.wrote_close.1 h).2
      | locked | changed | failed => exact h

/-- Evaluating a request gives events of its own transaction only. -/
theorem mem_submitEvents {source : TableFile} {r : LockRequest} {stage : Stage} {event : Event}
    (h : event ∈ submitEvents s t source r stage) :
    (∃ image, event = .locked t r.page image) ∨ (∃ copy, event = .fetched t r.page r.mode copy) ∨
      ∃ change, event = .changed t change := by
  unfold submitEvents at h
  dsimp only at h
  split at h
  · rcases List.mem_append.1 h with h | h
    · rw [PageView.lockEvents] at h
      split at h
      · exact Or.inl ⟨_, List.mem_singleton.1 h⟩
      · cases h
    · simp only [fetchEvents] at h
      split at h
      · cases h
      · rcases List.mem_cons.1 h with h | h
        · exact Or.inr (Or.inl ⟨_, h⟩)
        · obtain ⟨change, -, hc⟩ := List.mem_map.1 h
          exact Or.inr (Or.inr ⟨change, hc.symm⟩)
  · cases h

theorem transaction_of_mem_submitEvents {source : TableFile} {r : LockRequest} {stage : Stage}
    {u : TransactionId} {q : PageId} {mode : LockMode} {copy : Page}
    (h : .fetched u q mode copy ∈ submitEvents s t source r stage) : u = t := by
  rcases mem_submitEvents h with ⟨image, he⟩ | ⟨copy, he⟩ | ⟨change, he⟩
  · cases he
  · cases he
    rfl
  · cases he

/-- A task stays sound as long as its transaction has not written the page anew. -/
theorem Task.SoundAt.mono {task : Task} {file : Option TableFile} {l' : Ledger}
    (h : task.SoundAt p file l t) (hw : l'.wrote t p = true → l.wrote t p = true) :
    task.SoundAt p file l' t := by
  refine ⟨h.source, h.insertion, h.writes, fun hp hr => ⟨(h.releases hp hr).1, ?_⟩⟩
  by_contra hne
  have := hw (by simpa using hne)
  rw [(h.releases hp hr).2] at this
  cases this

/-! ## Every move -/

namespace Traffic

variable {w w' : Traffic} {move : Move} {events : List Event}

/-- All is well with a page: it agrees with the ledger, and so do the tasks. -/
structure SoundAt (p : PageId) (l : Ledger) (w : Traffic) : Prop where
  store : w.store.Sound
  numbered : w.store.NumberedAt p
  agrees : Agrees l (w.store.view p)
  tasks : ∀ ⦃t task⦄, w.tasks t = some task → task.SoundAt p (w.store.view p).file l t

/-- What a move comes to for a page. -/
structure Turned (p : PageId) (l : Ledger) (w : Traffic) (l' : Ledger) (w' : Traffic) : Prop where
  turns : Turns (l, w.store.view p) (l', w'.store.view p)
  sound : w'.SoundAt p l'

theorem SoundAt.turned {l' : Ledger} (h : w.SoundAt p l) (hm : MovesAt p l w.store l' w'.store)
    (hn : w'.store.NumberedAt p)
    (ht : ∀ ⦃t task⦄, w'.tasks t = some task → task.SoundAt p (w.store.view p).file l' t) :
    Turned p l w l' w' := by
  refine ⟨hm.turns h.store hn, hm.sound h.store, hn, hm.agrees h.store hn h.agrees, ?_⟩
  rw [hm.file_view]
  exact ht

/-- The tasks are as before, and no transaction has fetched the page for writing. -/
theorem SoundAt.turned_of_tasks {e : List Event} (h : w.SoundAt p l) {store : Store}
    (hm : MovesAt p l w.store (l.after e) store) (hn : store.NumberedAt p)
    (hw : ∀ u copy, .fetched u p .exclusive copy ∉ e) :
    Turned p l w (l.after e) { w with store } :=
  h.turned hm hn fun u _ ht => (h.tasks ht).mono (wrote_of_after (hw u))

/-- One transaction has another task, or none. -/
theorem SoundAt.turned_of_turn {e : List Event} (h : w.SoundAt p l) {store : Store}
    {o : Option Task} (hm : MovesAt p l w.store (l.after e) store) (hn : store.NumberedAt p)
    (ht : ∀ ⦃task⦄, o = some task → task.SoundAt p (w.store.view p).file (l.after e) t)
    (hw : ∀ {u q mode copy}, .fetched u q mode copy ∈ e → u = t) :
    Turned p l w (l.after e) (w.turn t store o) := by
  refine h.turned hm hn fun u task hu => ?_
  by_cases hut : u = t
  · subst hut
    exact ht ((if_pos rfl).symm.trans hu)
  · exact (h.tasks ((if_neg hut).symm.trans hu)).mono
      (wrote_of_after fun copy hmem => hut (hw hmem))

theorem SoundAt.submit {task : Task} {source : TableFile} (h : w.SoundAt p l)
    (ht : w.tasks t = some task)
    (hf : task.page = p → w.store.catalog.file p.table = .ok source)
    (hn : (w.submit t task source).2.store.NumberedAt p) :
    Turned p l w (l.after (w.submit t task source).1) (w.submit t task source).2 := by
  have hsound := h.tasks ht
  obtain ⟨hmoves, hnext⟩ := submit_moves (t := t)
    (r := { page := task.page, mode := task.mode }) h.store h.agrees.locked hf
    hsound.insertion hsound.writes hsound.releases
  rw [Traffic.submit] at hn ⊢
  dsimp only at hn ⊢
  cases hsub : PagedStore.submit w.store t source { page := task.page, mode := task.mode }
      task.stage with
  | mk o store =>
      rw [hsub] at hmoves hnext hn
      cases o with
      | none =>
          have he := submitEvents_eq_nil (congrArg Prod.fst hsub)
          rw [he] at hmoves ⊢
          refine h.turned_of_turn (e := []) hmoves hn ?_ fun hm => by cases hm
          rintro _ ⟨rfl⟩
          refine ⟨fun hp f hs => ?_, hsound.insertion, hsound.writes, hsound.releases⟩
          cases hs
          exact Store.file_view (hf hp)
      | some n =>
          exact h.turned_of_turn hmoves hn (hnext rfl) transaction_of_mem_submitEvents

theorem SoundAt.resume {task : Task} (h : w.SoundAt p l) (ht : w.tasks t = some task)
    (hn : (w.resume t task).2.store.NumberedAt p) :
    Turned p l w (l.after (w.resume t task).1) (w.resume t task).2 := by
  rw [Traffic.resume] at hn ⊢
  split at hn
  · rename_i source hsource
    exact h.submit ht (fun hp => Store.file_of_view ((h.tasks ht).source hp hsource)) hn
  · split at hn
    · rename_i source hf
      exact h.submit ht (fun hp => hp ▸ hf) hn
    · rename_i e hf
      refine h.turned_of_turn (e := []) ?_ hn ?_ fun hm => by cases hm
      · rw [task.stage.resume_error]
        exact .refl p l w.store
      · exact fun _ ho => task.stage.soundAt_resume_error w.store t e ho

/-- A commit commits the page, or fails before or after the page is written. -/
theorem commit_moves (hs : s.Sound) (t : TransactionId) :
    MovesAt p l s (l.record (commitEvent t (s.commit t).1)) (s.commit t).2 := by
  rcases Store.commit_cases hs t with
    ⟨hr, hc, hg, hsound, hv⟩ | ⟨e, q, rest, hr, -, hsaves, -⟩
  · rw [hr]
    refine ⟨hc, hg, fun _ => hsound, fun _ _ => ?_⟩
    rw [hv]
    exact .single (.commit t)
  · rw [hr]
    refine ⟨hsaves.catalog, hsaves.grows, fun _ => hsaves.sound, fun _ _ => ?_⟩
    rw [hsaves.view]
    split
    · exact .single (.failLate t)
    · exact .single (.fail t)

/-- An abort undoes the page, if the image that is kept of it can be put back. -/
theorem abort_moves (hs : s.Sound) (t : TransactionId)
    (hk : ∀ image, (s.view p).kept t = some image → s.Restorable p image) :
    MovesAt p l s (l.record (.aborted t)) (s.abort t).2 := by
  obtain ⟨hc, hg, hsound⟩ := Store.abort_frame hs t
  refine ⟨hc, hg, fun _ => hsound, fun _ hn => ?_⟩
  rw [Store.view_abort hs hk hn]
  exact .single (.abort t)

/-- What every move comes to for a page, if it is tidy. -/
theorem turned_of_step (h : w.SoundAt p l) (hs : w.step move = some (events, w'))
    (ht : TidyAt p l w move w') : Turned p l w (l.after events) w' := by
  obtain ⟨hn, ht⟩ := ht
  cases move with
  | start t request =>
      simp only [step] at hs
      split at hs
      · cases hs
      · cases hs
        obtain ⟨hq, hnext⟩ := Request.start_moves h.store h.agrees.locked request
        exact h.turned_of_turn (e := []) (hq.moves l) hn hnext fun hm => by cases hm
  | resume t =>
      obtain ⟨task, htask, hr⟩ := Option.map_eq_some_iff.1 hs
      have := h.resume (t := t) htask
      rw [hr] at this
      exact this hn
  | commit t =>
      cases hs
      refine h.turned_of_tasks (commit_moves h.store t) hn fun u copy hm => ?_
      have := List.mem_singleton.1 hm
      simp only [commitEvent] at this
      split at this <;> cases this
  | abort t =>
      cases hs
      refine h.turned_of_tasks (abort_moves h.store t fun _ hk => h.agrees.kept hk) hn
        fun u copy hm => ?_
      cases List.mem_singleton.1 hm
  | flushPage page =>
      simp only [step] at hs
      split at hs
      · rename_i store hf
        cases hs
        exact h.turned_of_tasks (e := []) ((Store.quietAt_flushPage hf).moves l) hn
          fun _ _ hm => by cases hm
      · cases hs
        exact ⟨.refl, h⟩
  | flushPages t =>
      cases hs
      exact h.turned_of_tasks (e := []) ((Store.quietAt_flushPages p w.store t).moves l) hn
        fun _ _ hm => by cases hm
  | flushAll =>
      cases hs
      exact h.turned_of_tasks (e := []) ((Store.quietAt_flushAll p w.store).moves l) hn
        fun _ _ hm => by cases hm
  | discard page =>
      cases hs
      refine h.turned_of_tasks (e := []) ((Store.quietAt_discard ?_).moves l) hn
        fun _ _ hm => by cases hm
      rintro rfl q hq
      rw [← ht rfl]
      exact (PageView.owner?_of_copy (v := w.store.view page) hq).symm
  | release t page =>
      cases hs
      exact h.turned_of_tasks (e := []) (Store.releasePage_moves w.store ht) hn
        fun _ _ hm => by cases hm
  | replace catalog disk =>
      cases hs
      obtain ⟨hcatalog, hview⟩ := ht
      have hsame : Turns (l, w.store.view p)
          (l, ({ w.store with catalog, disk } : Store).view p) := by
        rw [hview]
      refine ⟨hsame, ⟨hcatalog, h.store.keyed, h.store.indexed⟩, hn, ?_, ?_⟩
      · exact Agrees.turns hsame h.agrees
      · rw [hview]
        exact h.tasks

/-! ## Runs -/

variable {s₀ : Store} {history : List Event}

namespace Fresh

theorem copy_view (h : Fresh s₀) (p : PageId) : (s₀.view p).copy = none := by
  show s₀.cache.page? p = none
  rw [h.cache]
  show ((∅ : Std.ExtTreeMap PageId Frame)[p]?).map Frame.page = none
  simp

theorem kept_view (h : Fresh s₀) (p : PageId) (t : TransactionId) : (s₀.view p).kept t = none := by
  show (s₀.cache.keptFor t)[p]? = none
  rw [h.cache]
  show ((∅ : Std.ExtTreeMap TransactionId (Std.ExtTreeMap PageId Bytes)).getD t ∅)[p]? = none
  simp

theorem mode_view (h : Fresh s₀) (p : PageId) (t : TransactionId) : (s₀.view p).mode t = none := by
  show s₀.locks.modeOf? p t = none
  rw [h.locks]
  exact LockTable.modeOf?_empty p t

theorem not_owns (h : Fresh s₀) (p : PageId) (t : TransactionId) : ¬ (s₀.view p).Owns t := by
  rintro (ho | hk)
  · rw [PageView.owner?_of_none (h.copy_view p)] at ho
    cases ho
  · exact hk (h.kept_view p t)

theorem sound (h : Fresh s₀) : s₀.Sound := by
  refine ⟨h.catalog, ?_, ?_⟩
  · rw [h.cache]
    exact Cache.keyed_empty
  · rw [h.locks]
    exact LockTable.indexed_empty

/-- The ledger of nothing agrees with a fresh store. -/
theorem agrees (h : Fresh s₀) (p : PageId) : Agrees {} (s₀.view p) where
  alone hm := by
    rw [h.mode_view] at hm
    cases hm
  locked hw := by cases hw
  wrote ho := absurd ho (h.not_owns p _)
  owns hw := by cases hw
  fits hc := by
    rw [h.copy_view] at hc
    cases hc
  sized hf hi := by
    rw [Store.image_view (Store.file_of_view hf)] at hi
    exact TableFile.length_of_image? hi
  fresh hc := by
    rw [h.copy_view] at hc
    cases hc
  clean hc := by
    rw [h.copy_view] at hc
    cases hc
  kept hk := by
    rw [h.kept_view] at hk
    cases hk
  first hk := by
    rw [h.kept_view] at hk
    cases hk
  held hm := by
    rw [h.mode_view] at hm
    cases hm

end Fresh

/-- All is well with every page of a fresh store, if it can be counted. -/
theorem soundAt_start (h : Fresh s₀) (hn : s₀.NumberedAt p) : SoundAt p {} { store := s₀ } :=
  ⟨h.sound, hn, h.agrees p, fun t task ht => by cases ht⟩

/-- After a tidy run all is well with the page. -/
theorem soundAt_of_run (h₀ : Fresh s₀) (hn : s₀.NumberedAt p)
    (h : Run (TidyAt p) s₀ history w) : w.SoundAt p (Ledger.of history) := by
  induction h with
  | start => exact soundAt_start h₀ hn
  | step _ hrule hs ih =>
      rw [Ledger.of_append]
      exact (turned_of_step ih hs hrule).sound

end Traffic

end PagedStore

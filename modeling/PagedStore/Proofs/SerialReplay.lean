import PagedStore.Proofs.Growth
import PagedStore.Proofs.Replay
import PagedStore.Proofs.TrafficTurns

/-!
# Serial replay

Take any orderly run.  What the committed transactions have made of a page is the
replay of their changes, in the order of their commits, on what the page held at first.
This is what the image of a page in the file shows, if no transaction owns the page.  If
a transaction owns it, this is what its before image shows, and the page itself holds
the changes of the owner after it (`Traffic.serial_replay`).

Whoever fetches a page is given what the committed transactions have made of it, with
the changes of its own after it (`Traffic.content_of_fetched`).  So a transaction never
sees a change of another one that has not committed.
-/

namespace PagedStore

open PageView (Turns Agrees Replays)

/-- What a page holds at first, where a page that is not yet in its file counts as empty. -/
def Store.firstContent (s : Store) (p : PageId) : Option Content :=
  (s.view p).shown (s.view p).present

/-- A page that is appended later begins with no rows. -/
theorem Store.firstContent_of_none {s : Store} {p : PageId} {f : TableFile}
    (hf : (s.view p).file = some f) (hi : (s.view p).image = none) :
    s.firstContent p = some (List.replicate (slotsPerPage f.pageSize f.schema) none) := by
  have hblank : (s.view p).present = some (Page.empty p f.schema f.pageSize).encode := by
    rw [PageView.present, hi, PageView.blank, hf, Page.encode_empty]
    rfl
  have hd := Page.decode_encode (Page.valid_empty p f.schema f.pageSize)
  rw [firstContent, hblank, PageView.shown_eq hf hd, Page.content_reread, Page.content_empty]

namespace Traffic

variable {s₀ : Store} {w w' : Traffic} {move : Move} {history events : List Event} {p : PageId}
  {l : Ledger} {t : TransactionId}

/-! ## No commit fails -/

theorem broken_after (he : ∀ u, .failed u ∉ events) : (l.after events).broken = l.broken := by
  induction events generalizing l with
  | nil => rfl
  | cons event events ih =>
      have h := ih (l := l.record event) fun u hm => he u (List.mem_cons_of_mem _ hm)
      refine h.trans ?_
      cases event with
      | fetched t q mode copy => cases mode <;> rfl
      | failed u => exact absurd List.mem_cons_self (he u)
      | _ => rfl

theorem not_failed_of_resume {task : Task} (u : TransactionId) :
    .failed u ∉ (w.resume t task).1 := by
  have hsubmit : ∀ source, .failed u ∉ (w.submit t task source).1 := by
    intro source hm
    rcases mem_submitEvents hm with ⟨_, he⟩ | ⟨_, he⟩ | ⟨_, he⟩ <;> cases he
  rw [resume]
  split
  · exact hsubmit _
  · split
    · exact hsubmit _
    · exact List.not_mem_nil

/-- If all is well with every page, no commit fails. -/
theorem not_failed_of_step (h : ∀ p, w.SoundAt p l) (hs : w.step move = some (events, w'))
    (hn : ∀ p, w'.store.NumberedAt p) (u : TransactionId) : .failed u ∉ events := by
  cases move with
  | resume t =>
      obtain ⟨task, -, hr⟩ := Option.map_eq_some_iff.1 hs
      have : .failed u ∉ (w.resume t task).1 := not_failed_of_resume u
      rwa [hr] at this
  | commit t =>
      have hok : (w.store.commit t).1 = .ok () := by
        cases hs
        exact Store.commit_eq_ok (h { table := ⟨0⟩, number := 0 }).store (fun p => (h p).agrees)
          hn
      cases hs
      intro hm
      rw [hok] at hm
      cases List.mem_singleton.1 hm
  | abort t =>
      cases hs
      intro hm
      cases List.mem_singleton.1 hm
  | start t request =>
      simp only [step] at hs
      split at hs <;> cases hs
      exact List.not_mem_nil
  | flushPage page =>
      simp only [step] at hs
      split at hs <;> cases hs <;> exact List.not_mem_nil
  | flushPages | flushAll | discard | release | replace =>
      cases hs
      exact List.not_mem_nil

/-! ## Every page replays the ledger -/

theorem soundAt_of_orderly (h₀ : Fresh s₀) (h : Run Orderly s₀ history w)
    (hn : w.store.NumberedAt p) : w.SoundAt p (Ledger.of history) :=
  soundAt_of_run h₀ (h.numberedAt_start hn) (h.tidyAt hn)

/-- While no page is locked no page has an owner. -/
theorem not_owns_of_unlocked (h₀ : Fresh s₀) (h : Run Orderly s₀ history w)
    (hn : w.store.NumberedAt p) (hl : w.store.locks = ∅) (t : TransactionId) :
    ¬ (w.store.view p).Owns t := by
  intro ho
  have hm := (soundAt_of_orderly h₀ h hn).agrees.mode_of_owns ho
  rw [show (w.store.view p).mode t = w.store.locks.modeOf? p t from rfl, hl,
    LockTable.modeOf?_empty] at hm
  cases hm

theorem replays_start (h₀ : Fresh s₀) (p : PageId) : Replays s₀.firstContent {} (s₀.view p) := by
  have hcontent : s₀.firstContent p = Ledger.content {} s₀.firstContent p :=
    Option.map_id'.symm
  refine Replays.unowned (h₀.not_owns p) hcontent ?_ fun hm => by cases hm
  rw [PageView.content_of_none (h₀.copy_view p)]
  exact hcontent

/-- After an orderly run every page holds what the ledger says, and no commit has failed. -/
theorem replays_of_orderly (h₀ : Fresh s₀) (h : Run Orderly s₀ history w)
    (hn : ∀ p, w.store.NumberedAt p) :
    (Ledger.of history).broken = false ∧
      ∀ p, Replays s₀.firstContent (Ledger.of history) (w.store.view p) := by
  induction h with
  | start => exact ⟨rfl, replays_start h₀⟩
  | step hrun hr hs ih =>
      have hbefore := fun p => (grew_of_step hr hs).numberedAt (hn p)
      have hsound := fun p => soundAt_of_orderly h₀ hrun (hbefore p)
      obtain ⟨hbroken, hreplays⟩ := ih hbefore
      have hb := (broken_after (not_failed_of_step hsound hs hn)).trans hbroken
      rw [Ledger.of_append]
      refine ⟨hb, fun p => ?_⟩
      exact Replays.turns (turned_of_step (hsound p) hs (hr.tidyAt (hn p))).turns hb
        (hsound p).agrees (hreplays p)

/-- After an orderly run, a page that nobody owns shows in its file what the committed
transactions have made of it.  If a transaction owns the page, this is what its before
image shows: the one that is kept for the owner, or else the one of its copy, which then is
the image in the file.  The page itself, in the cache or else in the file, holds the changes
of the owner after this.  Every table has fewer than `2 ^ 32` pages. -/
theorem serial_replay (h₀ : Fresh s₀) (h : Run Orderly s₀ history w)
    (hn : ∀ p, w.store.NumberedAt p) (p : PageId) :
    ((∀ t, ¬ (w.store.view p).Owns t) → ∀ image, (w.store.view p).image = some image →
        (w.store.view p).shown (some image) = (Ledger.of history).content s₀.firstContent p) ∧
      ∀ t, (w.store.view p).Owns t →
        (∀ image, (w.store.view p).kept t = some image →
          (w.store.view p).shown (some image) =
            (Ledger.of history).content s₀.firstContent p) ∧
        ((w.store.view p).kept t = none → ∃ page, (w.store.view p).copy = some page ∧
          page.owner = some t ∧ (w.store.view p).image = some page.beforeImage ∧
            (w.store.view p).shown (some page.beforeImage) =
              (Ledger.of history).content s₀.firstContent p) ∧
        (w.store.view p).content = ((Ledger.of history).content s₀.firstContent p).map
          (replay p ((Ledger.of history).pending t)) := by
  have ha := (soundAt_of_orderly h₀ h (hn p)).agrees
  have hr := (replays_of_orderly h₀ h hn).2 p
  generalize hv : w.store.view p = v at *
  obtain rfl : v.id = p := by rw [← hv]; rfl
  refine ⟨fun ho image hi => ?_, fun t ht => ⟨fun image hk => ?_, fun hk => ?_, ?_⟩⟩
  · have t : TransactionId := ⟨0⟩
    have hk : v.kept t = none := by
      by_contra hk
      exact ho t (Or.inr hk)
    rw [← hr.before (Agrees.openTo_of_forall_not (t := t) ho), PageView.before_of_none hk,
      PageView.present_of_image hi]
  · rw [← hr.before (ha.openTo_of_owns ht), PageView.before_of_kept hk]
  · have ho : v.owner? = some t := ht.resolve_right fun hne => hne hk
    obtain ⟨page, hc, hpo⟩ := Option.bind_eq_some_iff.1 ho
    have hi : v.image = some page.beforeImage := by
      refine ha.fresh hc fun u hu => ?_
      rw [hpo] at hu
      cases hu
      exact hk
    refine ⟨page, hc, hpo, hi, ?_⟩
    rw [← hr.before (ha.openTo_of_owns ht), PageView.before_of_none hk,
      PageView.present_of_image hi]
  · exact hr.current (ha.openTo_of_owns ht)

theorem serial_replay_small :
    Run Orderly Small.store (Small.after Small.moves).1 (Small.after Small.moves).2 ∧
      ((Small.after Small.moves).2.store.view (Small.page 0)).Owns ⟨1⟩ ∧
        ((Small.after Small.moves).2.store.view (Small.page 0)).shown (some [0, 0, 0, 0, 0]) =
            some [none] ∧
          ((Small.after Small.moves).2.store.view (Small.page 0)).content =
            some [some [.int 7]] := by
  have ho : ((Small.after Small.moves).2.store.view (Small.page 0)).Owns ⟨1⟩ := by
    decide +kernel
  obtain ⟨hkept, -, hcontent⟩ :=
    (serial_replay Small.fresh Small.run_moves Small.numberedAt_moves (Small.page 0)).2 _ ho
  have hshown := hkept [0, 0, 0, 0, 0] (by decide +kernel)
  exact ⟨Small.run_moves, ho, hshown.trans (by decide +kernel),
    hcontent.trans (by decide +kernel)⟩

/-! ## What a transaction is given -/

/-- An event of a history is in its second part or in its first part. -/
theorem append_eq_append_cons {first second es es' : List Event} {event : Event}
    (h : first ++ second = es ++ event :: es') :
    (∃ rest, es = first ++ rest ∧ second = rest ++ event :: es') ∨
      ∃ rest, first = es ++ event :: rest := by
  rcases List.append_eq_append_iff.1 h with ⟨rest, he, hs⟩ | ⟨rest, he, hs⟩
  · exact Or.inl ⟨rest, he, hs⟩
  · cases rest with
    | nil => exact Or.inl ⟨[], by rw [he, List.append_nil, List.append_nil], hs.symm⟩
    | cons other rest =>
        obtain ⟨rfl, -⟩ := List.cons.inj hs
        exact Or.inr ⟨rest, he⟩

/-- In the events of a request, the page is fetched after it is locked and before it is
changed. -/
theorem submitEvents_eq_append {s : Store} {source : TableFile} {r : LockRequest} {stage : Stage}
    {u : TransactionId} {mode : LockMode} {copy : Page} {es es' : List Event}
    (h : submitEvents s t source r stage = es ++ .fetched u p mode copy :: es') :
    (s.locks.consider t r).1 = .granted ∧ u = t ∧ p = r.page ∧
      es = (s.view r.page).lockEvents t r.mode ∧
        ∃ frame, ({ s with locks := (s.locks.consider t r).2 }.fetch t source r.page r.mode).1 =
          .ok frame ∧ frame.page = copy := by
  cases hv : (s.locks.consider t r).1 with
  | waits =>
      rw [(submit_of_waits source stage hv).1] at h
      cases List.append_eq_nil_iff.1 h.symm |>.2
  | refused =>
      rw [(submit_of_refused source stage hv).1] at h
      cases List.append_eq_nil_iff.1 h.symm |>.2
  | granted =>
      rw [(submit_of_granted source stage hv rfl).1] at h
      have hnot : .fetched u p mode copy ∉ (s.view r.page).lockEvents t r.mode := by
        intro hm
        rw [PageView.lockEvents] at hm
        split at hm
        · cases List.mem_singleton.1 hm
        · cases hm
      rcases append_eq_append_cons h with ⟨rest, rfl, hf⟩ | ⟨rest, he⟩
      · unfold fetchEvents at hf
        split at hf
        · cases List.append_eq_nil_iff.1 hf.symm |>.2
        · rename_i frame hframe
          cases rest with
          | nil =>
              obtain ⟨hevent, -⟩ := List.cons.inj hf
              cases hevent
              exact ⟨rfl, rfl, rfl, List.append_nil _, frame, hframe, rfl⟩
          | cons event rest =>
              -- After the page is fetched there are only changes.
              obtain ⟨-, hf⟩ := List.cons.inj hf
              have hm : Event.fetched u p mode copy ∈
                  (stage.change? frame.page).toList.map (.changed t) := by
                rw [hf]
                simp
              obtain ⟨change, -, hc⟩ := List.mem_map.1 hm
              cases hc
      · rw [he] at hnot
        simp at hnot

theorem content_taken (t : TransactionId) (mode : LockMode) (page : Page) :
    (Store.taken t mode page).content = page.content := by
  cases mode <;> rfl

/-- A page that is given to a transaction holds what the ledger says by then. -/
theorem content_of_submit {task : Task} {source : TableFile} {base : PageId → Option Content}
    {u : TransactionId} {mode : LockMode} {copy : Page} {es es' : List Event}
    (hw : w.SoundAt p l) (ht : w.tasks t = some task) (hr : Replays base l (w.store.view p))
    (hf : task.page = p → w.store.catalog.file p.table = .ok source)
    (hn : (w.submit t task source).2.store.NumberedAt p)
    (hb : (l.after es).broken = false)
    (h : (w.submit t task source).1 = es ++ .fetched u p mode copy :: es') :
    some copy.content =
      ((l.after es).content base p).map (replay p ((l.after es).pending u)) := by
  have hsound := hw.tasks ht
  obtain ⟨hv, hu, rfl, rfl, frame, hframe, rfl⟩ := submitEvents_eq_append h
  subst hu
  obtain ⟨s₂, page, hm, hlocks, hp, htaken, hrest, -⟩ :=
    submit_fetched (r := { page := task.page, mode := task.mode }) hw.store hw.agrees.locked hf
      hsound.insertion hsound.writes hsound.releases hv hframe
  rw [store_submit] at hn
  have hn₂ := hn.of_grows hrest.catalog hrest.grows
  have ha₂ := hm.agrees hw.store hn₂ hw.agrees
  have hr₂ := hr.turns (hm.turns hw.store hn₂) hb hw.agrees
  have hmode : (s₂.view task.page).mode u ≠ none := by
    show s₂.locks.modeOf? task.page u ≠ none
    rw [hlocks, LockTable.modeOf?_of_granted hv, if_pos ⟨rfl, rfl⟩]
    simp
  rw [htaken, content_taken, ← PageView.content_of_copy (v := s₂.view task.page) hp]
  exact hr₂.current (ha₂.openTo_of_mode hmode)

/-- A page is given to a transaction only when a request of a task is evaluated. -/
theorem exists_submit_of_fetched {u : TransactionId} {mode : LockMode} {copy : Page}
    (hs : w.step move = some (events, w')) (hm : .fetched u p mode copy ∈ events) :
    ∃ t task source, move = .resume t ∧ w.tasks t = some task ∧ w.sourceOf task = .ok source ∧
      w.submit t task source = (events, w') := by
  cases move with
  | resume t =>
      obtain ⟨task, ht, hr⟩ := Option.map_eq_some_iff.1 hs
      cases hsource : w.sourceOf task with
      | ok source =>
          rw [resume_of_source hsource] at hr
          exact ⟨t, task, source, rfl, ht, hsource, hr⟩
      | error e =>
          rw [resume_of_error hsource] at hr
          cases hr
          cases hm
  | start t request =>
      simp only [step] at hs
      split at hs <;> cases hs
      cases hm
  | flushPage page =>
      simp only [step] at hs
      split at hs <;> cases hs <;> cases hm
  | commit t =>
      cases hs
      have := List.mem_singleton.1 hm
      simp only [commitEvent] at this
      split at this <;> cases this
  | abort t =>
      cases hs
      cases List.mem_singleton.1 hm
  | flushPages | flushAll | discard | release | replace =>
      cases hs
      cases hm

/-- In sound traffic the request is for the page in the file that its table has now. -/
theorem exists_submit_of_mem {u : TransactionId} {mode : LockMode} {copy : Page}
    (hw : w.SoundAt p l) (hs : w.step move = some (events, w'))
    (hm : .fetched u p mode copy ∈ events) :
    ∃ t task source, w.tasks t = some task ∧
      (task.page = p → w.store.catalog.file p.table = .ok source) ∧
        w.submit t task source = (events, w') := by
  obtain ⟨t, task, source, -, ht, hsource, hsub⟩ := exists_submit_of_fetched hs hm
  refine ⟨t, task, source, ht, ?_, hsub⟩
  rintro rfl
  rw [sourceOf] at hsource
  split at hsource
  · rename_i hlooked
    cases hsource
    exact Store.file_of_view ((hw.tasks ht).source rfl hlooked)
  · exact hsource

/-- What was fetched in a run was fetched with one of its moves. -/
theorem exists_step_of_fetched (h : Run Orderly s₀ history w) (hn : ∀ p, w.store.NumberedAt p)
    {earlier later : List Event} {mode : LockMode} {copy : Page}
    (he : history = earlier ++ .fetched t p mode copy :: later) :
    ∃ before es rest move v v', earlier = before ++ es ∧ Run Orderly s₀ before v ∧
      v.step move = some (es ++ .fetched t p mode copy :: rest, v') ∧
        (∀ p, v.store.NumberedAt p) ∧ ∀ p, v'.store.NumberedAt p := by
  induction h generalizing later with
  | start => cases List.append_eq_nil_iff.1 he.symm |>.2
  | @step before events w w' move hrun hrule hs ih =>
      have hnow := fun p => (grew_of_step hrule hs).numberedAt (hn p)
      rcases append_eq_append_cons he with ⟨es, rfl, rfl⟩ | ⟨rest, hbefore⟩
      · exact ⟨before, es, later, move, w, w', rfl, hrun, hs, hnow, hn⟩
      · exact ih hnow hbefore

/-- Whoever fetches a page with a move is given what the committed transactions have made of it,
with the changes of its own after it. -/
theorem content_of_fetching (h₀ : Fresh s₀) (h : Run Orderly s₀ history w)
    (hn : ∀ p, w.store.NumberedAt p) (hn' : ∀ p, w'.store.NumberedAt p) {es later : List Event}
    {mode : LockMode} {copy : Page}
    (hs : w.step move = some (es ++ .fetched t p mode copy :: later, w')) :
    some copy.content = ((Ledger.of (history ++ es)).content s₀.firstContent p).map
      (replay p ((Ledger.of (history ++ es)).pending t)) := by
  have hsound := fun p => soundAt_of_orderly h₀ h (hn p)
  obtain ⟨hb, hr⟩ := replays_of_orderly h₀ h hn
  have hfail : ∀ u, .failed u ∉ es := fun u hm =>
    not_failed_of_step hsound hs hn' u (List.mem_append_left _ hm)
  obtain ⟨u, task, source, ht, hf, hsub⟩ :=
    exists_submit_of_mem (hsound p) hs (List.mem_append_right _ List.mem_cons_self)
  have hafter : (w.submit u task source).2.store.NumberedAt p := by
    rw [hsub]
    exact hn' p
  rw [Ledger.of_append]
  exact content_of_submit (hsound p) ht (hr p) hf hafter ((broken_after hfail).trans hb)
    (congrArg Prod.fst hsub)

/-- Whoever fetches a page in an orderly run, in whatever mode, is given what the
committed transactions have made of the page by then, with the changes of its own after
it.  Every table has fewer than `2 ^ 32` pages. -/
theorem content_of_fetched (h₀ : Fresh s₀) (h : Run Orderly s₀ history w)
    (hn : ∀ p, w.store.NumberedAt p) {earlier later : List Event} {mode : LockMode} {copy : Page}
    (he : history = earlier ++ .fetched t p mode copy :: later) :
    some copy.content = ((Ledger.of earlier).content s₀.firstContent p).map
      (replay p ((Ledger.of earlier).pending t)) := by
  obtain ⟨before, es, rest, move, v, v', rfl, hrun, hs, hnow, hnext⟩ :=
    exists_step_of_fetched h hn he
  exact content_of_fetching h₀ hrun hnow hnext hs

theorem content_of_fetched_small :
    ∃ earlier later copy,
      (Small.after Small.moves).1 =
          earlier ++ .fetched ⟨1⟩ (Small.page 0) .exclusive copy :: later ∧
        copy.content = [none] := by
  let copy : Page :=
    { id := Small.page 0, schema := Small.file.schema, pageSize := 5, slots := [none]
      owner := some ⟨1⟩, beforeImage := [0, 0, 0, 0, 0] }
  have he : (Small.after Small.moves).1 = (Small.after Small.moves).1.take 6 ++
      .fetched ⟨1⟩ (Small.page 0) .exclusive copy :: (Small.after Small.moves).1.drop 7 := by
    decide +kernel
  have h := content_of_fetched Small.fresh Small.run_moves Small.numberedAt_moves he
  exact ⟨_, _, copy, he, Option.some.inj (h.trans (by decide +kernel))⟩

end Traffic

end PagedStore

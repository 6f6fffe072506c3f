import PagedStore.Proofs.AlikeTraffic
import PagedStore.Proofs.PartedStores
import PagedStore.Proofs.HeldPages

/-!
# Traffic of groups that share no table

Two traffics are *apart for a group* (`Traffic.Apart`) if the group cannot tell their stores
apart, its transactions are at the same tasks, and each transaction of the first traffic keeps to
the tables of its own group.

A move of the group has the same outcome on both, and leaves them apart if it is made on both
(`Traffic.Apart.both`).  A move of another group that is made on the first only leaves them apart
too (`Traffic.Apart.other`).
-/

namespace PagedStore

/-! ## The tables of a task -/

/-- A task that goes on with a page of the scope stays within. -/
theorem within_submit {s : Store} {l : Ledger} {t : TransactionId} {source : TableFile}
    {r : LockRequest} {stage : Stage} {tables : TableId → Prop} {next : Next} (hs : s.Follows l)
    (hf : s.catalog.file r.page.table = .ok source) (ht : tables r.page.table)
    (hin : stage.Within (s.catalog.scope tables))
    (h : (submit s t source r stage).1 = some next) : next.Within (s.catalog.scope tables) := by
  cases hv : (s.locks.consider t r).1 with
  | waits =>
      rw [(submit_of_waits source stage hv).2] at h
      cases h
  | refused =>
      rw [(submit_of_refused source stage hv).2] at h
      cases h
      exact Stage.within_resume (s := { s with locks := (s.locks.consider t r).2 })
        hs.sound.catalog hin fun frame hr => by cases hr
  | granted =>
      rw [(submit_of_granted source stage hv rfl).2] at h
      cases h
      have hs₁ := hs.granted hv
      have hlocked := hs.openTo_of_granted hv
      generalize hl : ({ s with locks := (s.locks.consider t r).2 } : Store) = s₁ at *
      have hcatalog : s₁.catalog = s.catalog := by rw [← hl]
      rcases hs₁.fetch_result (hcatalog ▸ hf) hlocked r.mode with
        ⟨e, -, he, hq⟩ | ⟨s₂, page, frame, -, hq, hp, hpage, he⟩
      · have hc : (s₁.fetch t source r.page r.mode).2.catalog = s.catalog :=
          (hq.quiet r.page).catalog.trans hcatalog
        rw [← hc] at hin ⊢
        refine Stage.within_resume (hq.follows hs₁).sound.catalog hin fun frame hr => ?_
        rw [he] at hr
        cases hr
      · have hc : (s₂.take t r.page r.mode).catalog = s.catalog :=
          (hq.quiet r.page).catalog.trans hcatalog
        have hs₂ := (hq.follows hs₁).sound
        rw [he, ← hc]
        rw [← hc] at hin
        refine Stage.within_resume (s := s₂.take t r.page r.mode) hs₂.catalog hin ?_
        rintro _ ⟨rfl⟩
        have hid : frame.page.id = r.page := by
          rw [hpage, ← hs₂.keyed hp]
          cases r.mode <;> rfl
        exact hid ▸ ht

variable {γ : Type} {P : Parting γ} {g : γ} {w w' v v' : Traffic} {move move' : Move}
  {events events' : List Event} {l l' : Ledger} {t : TransactionId} {task : Task} {c : Catalog}

/-- A move of a transaction that wants only what is in the scope of its own group. -/
structure Move.OwnOf (P : Parting γ) (c : Catalog) (t : TransactionId) (move : Move) : Prop where
  transaction : move.transaction? = some t
  within : move.Within (c.scope (P.own t))

theorem Move.OwnOf.isPlain (h : move.OwnOf P c t) : move.isPlain = true := by
  have ht := h.transaction
  cases move with
  | discard | release | replace => cases ht
  | _ => rfl

theorem Move.OwnOf.for?_eq (h : move.OwnOf P c t) : move.for? = some t := by
  have ht := h.transaction
  cases move with
  | release => cases ht
  | _ => exact ht

theorem Move.OwnOf.of_matches (h : move.OwnOf P c t) (hm : move.Matches move') :
    move'.OwnOf P c t := by
  refine ⟨hm.transaction?.trans h.transaction, ?_⟩
  cases hm with
  | same => exact h.within
  | start u hb =>
      rw [Move.Within, ← Request.within_bare, hb, Request.within_bare]
      exact h.within

namespace Traffic

/-- The tasks of the transactions are within the scopes of their own groups. -/
def TasksWithin (P : Parting γ) (c : Catalog) (w : Traffic) : Prop :=
  ∀ ⦃t task⦄, w.tasks t = some task → task.Within (c.scope (P.own t))

/-- The task of a transaction stays within the scope if it goes on. -/
theorem TasksWithin.resume (h : w.TasksWithin P w.store.catalog) (hs : ∀ p, w.SoundAt p l)
    (ht : w.tasks t = some task) {after : Task}
    (ha : (w.resume t task).2.tasks t = some after) :
    after.Within (w.store.catalog.scope (P.own t)) := by
  have hin := h ht
  have hfollows := SoundAt.storeFollows hs
  cases hf : w.store.catalog.file task.page.table with
  | ok source =>
      rw [((hs task.page).resume_of_file ht hf).1, submit_eq_turn] at ha
      have ha : task.after source (PagedStore.submit w.store t source
        { page := task.page, mode := task.mode } task.stage).1 = some after := by
        simpa only [turn, if_true] using ha
      cases hnext : (PagedStore.submit w.store t source
        { page := task.page, mode := task.mode } task.stage).1 with
      | none =>
          rw [hnext] at ha
          cases ha
          exact ⟨hin.page, hin.stage⟩
      | some next =>
          rw [hnext] at ha
          exact Next.within_ofNext (within_submit (r := { page := task.page, mode := task.mode })
            hfollows hf hin.page hin.stage hnext) ha
  | error e =>
      rw [((hs task.page).resume_of_error ht hf).1] at ha
      have ha : Task.ofNext (task.stage.resume w.store t (.error e)).2 = some after := by
        simpa only [turn, if_true] using ha
      exact Next.within_ofNext (Stage.within_resume hfollows.sound.catalog hin.stage
        fun frame hr => by cases hr) ha

/-- All tasks stay within the scopes of their groups. -/
theorem TasksWithin.step (h : w.TasksWithin P w.store.catalog) (hs : ∀ p, w.SoundAt p l)
    (hm : move.OwnOf P w.store.catalog t) (hstep : w.step move = some (events, v)) :
    v.TasksWithin P w.store.catalog := by
  intro u after ha
  by_cases hu : u = t
  · subst hu
    obtain ⟨ht, hin⟩ := hm
    cases move with
    | start _ request =>
        cases ht
        simp only [Traffic.step] at hstep
        split at hstep <;> cases hstep
        have ha : Task.ofNext (request.start w.store u).2 = some after := by
          simpa only [turn, if_true] using ha
        exact Next.within_ofNext
          (Request.within_start (SoundAt.storeFollows hs).sound.catalog hin) ha
    | resume _ =>
        cases ht
        obtain ⟨task, htask, hresume⟩ := Option.map_eq_some_iff.1 hstep
        refine h.resume hs htask ?_
        rw [hresume]
        exact ha
    | commit | abort =>
        cases ht
        cases hstep
        exact h ha
    | flushPage | flushPages | flushAll | discard | release | replace => cases ht
  · refine h ?_
    rw [← tasks_of_ne hstep hm.transaction hu]
    exact ha

/-- What a transaction does in its tables leaves the store alike for every other group. -/
theorem alikeFor_of_step (hc : w.store.catalog = c) (hl : w.store.locks.Parted P)
    (hs : ∀ p, w.SoundAt p l) (hk : move.OwnOf P c t)
    (htask : ∀ ⦃task⦄, w.tasks t = some task → task.Within (c.scope (P.own t)))
    (ht : P.transaction t ≠ g) (hstep : w.step move = some (events, v)) :
    w.store.AlikeFor P g v.store := by
  have hsound : c.Sound := hc ▸ (SoundAt.storeFollows hs).sound.catalog
  have hself : w.SameFor t
      (fun s s' => s.catalog = c ∧ s.Alike s' ∧ w.store.AlikeFor P g s) w :=
    ⟨⟨hc, .refl _, (Store.Alike.refl _).alikeFor hl g⟩, rfl⟩
  have hafter := (hself.step (Store.likeness_other w.store hsound ht) hs hs hk.within htask
    hk.transaction (.same move) rfl).2 hstep hstep
  exact hafter.store.2.2

/-! ## Apart -/

/-- The group cannot tell the traffics apart. -/
structure Apart (P : Parting γ) (g : γ) (c : Catalog) (w w' : Traffic) : Prop where
  catalog : w.store.catalog = c
  store : w.store.AlikeFor P g w'.store
  tasks : ∀ {t}, P.transaction t = g → (w'.tasks t).map Task.bare = (w.tasks t).map Task.bare
  within : w.TasksWithin P c

namespace Apart

theorem sameFor (h : w.Apart P g c w') (ht : P.transaction t = g) :
    w.SameFor t (fun s s' => s.catalog = c ∧ s.AlikeFor P (P.transaction t) s') w' :=
  ⟨⟨h.catalog, ht ▸ h.store⟩, h.tasks ht⟩

/-- Each transaction of the first traffic goes on keeping to the tables of its own group. -/
theorem within_step (h : w.Apart P g c w') (hs : ∀ p, w.SoundAt p l) (hk : move.OwnOf P c t)
    (hstep : w.step move = some (events, v)) : v.TasksWithin P c := by
  obtain ⟨rfl, -, -, hwithin⟩ := h
  exact hwithin.step hs hk hstep

/-- A move of the group has the same outcome on both, and leaves them apart. -/
theorem both (h : w.Apart P g c w') (hc : c.Sound) (hs : ∀ p, w.SoundAt p l)
    (hs' : ∀ p, w'.SoundAt p l') (hk : move.OwnOf P c t) (ht : P.transaction t = g)
    (hm : move.Matches move') (hroom : w'.lacksRoom move' = w.lacksRoom move) :
    (w'.outcome move').map Outcome.bare = (w.outcome move).map Outcome.bare ∧
      ∀ ⦃r r'⦄, w.step move = some r → w'.step move' = some r' → r.2.Apart P g c r'.2 := by
  obtain ⟨hout, hsame⟩ := (h.sameFor ht).step (Store.AlikeFor.likeness P t hc) hs hs' hk.within
    (fun task htask => h.within htask) hk.transaction hm hroom
  refine ⟨hout, fun r r' hr hr' => ?_⟩
  have hafter := hsame hr hr'
  refine ⟨hafter.store.1, ht ▸ hafter.store.2, fun {u} hu => ?_, h.within_step hs hk hr⟩
  by_cases he : u = t
  · exact he ▸ hafter.task
  · rw [tasks_of_ne hr hk.transaction he,
      tasks_of_ne hr' (hm.transaction?.trans hk.transaction) he, h.tasks hu]

/-- A move of another group that is made on the first only leaves them apart. -/
theorem other (h : w.Apart P g c w') (hs : ∀ p, w.SoundAt p l) (hk : move.OwnOf P c t)
    (ht : P.transaction t ≠ g) (hstep : w.step move = some (events, v)) : v.Apart P g c w' := by
  have hafter := alikeFor_of_step h.catalog h.store.parted hs hk
    (fun task htask => h.within htask) ht hstep
  refine ⟨hafter.catalog.trans h.catalog, hafter.symm.trans h.store, fun {u} hu => ?_,
    h.within_step hs hk hstep⟩
  have hne : u ≠ t := by
    rintro rfl
    exact ht hu
  rw [tasks_of_ne hstep hk.transaction hne, h.tasks hu]

/-- If the pages can be counted on the first, so can they be on the second, where a move of the
group is made. -/
theorem numberedAt (h : v.Apart P g c v') (hbefore : w.Apart P g c w')
    (hs' : ∀ p, w'.SoundAt p l') (hk : move'.OwnOf P c t) (ht : P.transaction t = g)
    (hstep : w'.step move' = some (events', v')) (hn : ∀ p, v.store.NumberedAt p) (p : PageId) :
    v'.store.NumberedAt p := by
  intro f hf
  by_cases hp : P.table p.table = g
  · have hf₀ : v.store.catalog.file p.table = .ok f := h.store.catalog ▸ hf
    exact (hn p hf₀).of_length_le (h.store.tails hp hf₀).length.le
  · -- The file is that of another group, and the move has left it alone.
    have htask : ∀ ⦃task⦄, w'.tasks t = some task → task.Within (c.scope (P.own t)) := by
      intro task' htask'
      have hbare := hbefore.tasks ht
      rw [htask'] at hbare
      obtain ⟨task, htask, hb⟩ := Option.map_eq_some_iff.1 hbare.symm
      exact (hbefore.within htask).of_bare_eq hb.symm
    have halike := alikeFor_of_step (g := P.table p.table)
      (hbefore.store.catalog.trans hbefore.catalog) hbefore.store.parted' hs' hk htask
      (fun he => hp (he.symm.trans ht)) hstep
    have hf₀ : w'.store.catalog.file p.table = .ok f := halike.catalog ▸ hf
    exact ((hs' p).numbered hf₀).of_length_le (halike.tails rfl hf₀).length.le

end Apart

end Traffic

end PagedStore

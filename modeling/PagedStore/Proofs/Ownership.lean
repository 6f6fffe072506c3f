import PagedStore.Proofs.Marks

/-!
# Owners hold their pages

Every move of the traffic is, seen from one page, a sequence of changes of the marks and the
locks (`Traffic.marks_of_step`).  This needs that the tasks are *careful*.  A task changes
only a page that it has asked for in exclusive mode, and releases a page only if its
transaction has not fetched it for writing (`Task.Careful`).  A task that goes on stays
careful.

So after every run a transaction that has a mark on a page holds the page in exclusive mode
(`Traffic.owner_holds`).  Tables may be replaced at any time, reads and writes may fail, and
pages with changes may be dropped.  Only a lock may not be released early by a transaction
that has fetched the page for writing.
-/

namespace PagedStore

variable {p id : PageId} {l l' : Ledger} {t u : TransactionId} {s s' : Store} {move : Move}
  {mine : TransactionId → Prop}

/-! ## Careful tasks -/

/-- The task changes only what it asks for in exclusive mode, and releases the page only if
the transaction has not fetched it for writing. -/
structure Task.Careful (p : PageId) (l : Ledger) (t : TransactionId) (task : Task) : Prop where
  writes : task.stage.writes = true → task.mode = .exclusive
  releases : task.page = p → task.stage.releases = true → task.mode = .shared ∧ l.wrote t p = false

/-- A task stays careful as long as its transaction does not fetch the page for writing. -/
theorem Task.Careful.mono {task : Task} (h : task.Careful p l t)
    (hw : l'.wrote t p = true → l.wrote t p = true) : task.Careful p l' t := by
  refine ⟨h.writes, fun hp hr => ?_⟩
  obtain ⟨hm, hl⟩ := h.releases hp hr
  refine ⟨hm, ?_⟩
  by_contra hne
  rw [hw (by simpa using hne)] at hl
  cases hl

/-- What a task does next is careful. -/
def Next.Careful (p : PageId) (l : Ledger) (t : TransactionId) (n : Next) : Prop :=
  ∀ ⦃task⦄, Task.ofNext n = some task → task.Careful p l t

theorem Next.careful_answer (p : PageId) (l : Ledger) (t : TransactionId) (a : Answer) :
    (Next.answer a).Careful p l t := by
  intro task h
  cases h

theorem Next.careful_ask {page : PageId} {mode : LockMode} {stage : Stage}
    (hw : stage.writes = true → mode = .exclusive)
    (hr : page = p → stage.releases = true → mode = .shared ∧ l.wrote t p = false) :
    (Next.ask page mode stage).Careful p l t := by
  rintro task ⟨rfl⟩
  exact ⟨hw, hr⟩

/-- A page that is neither changed nor released may be asked for in any mode. -/
theorem Next.careful_ask_idle {page : PageId} {mode : LockMode} {stage : Stage}
    (hw : stage.writes = false) (hr : stage.releases = false) :
    (Next.ask page mode stage).Careful p l t :=
  careful_ask (by simp [hw]) (by simp [hr])

/-- A page that is changed and not released is asked for in exclusive mode. -/
theorem Next.careful_ask_exclusive {page : PageId} {stage : Stage} (hr : stage.releases = false) :
    (Next.ask page .exclusive stage).Careful p l t :=
  careful_ask (fun _ => rfl) (by simp [hr])

theorem Scan.Stop.careful_next (number : Nat) (stop : Scan.Stop) :
    (stop.next number).Careful p l t := by
  cases stop with
  | answered items scan => exact Next.careful_answer ..
  | needs page wanted items scan => exact Next.careful_ask_idle rfl rfl

/-! ## Inserting -/

namespace Insertion

theorem search_keepsAt (task : Insertion) (hk : s.cache.Keyed)
    (hl : l.wrote t p = true → s.locks.modeOf? p t = some .exclusive) (page count : Nat) :
    s.KeepsAt p mine (task.search s t page count).1 ∧
      (task.search s t page count).2.Careful p l t := by
  rw [search]
  split
  · refine ⟨.refl p mine hk, Next.careful_ask (fun h => by cases h) fun he hr => ?_⟩
    subst he
    exact ⟨rfl, not_wrote_of_releases hl hr⟩
  · exact ⟨⟨rfl, .refl p mine hk⟩, Next.careful_ask_exclusive rfl⟩

theorem begin_keepsAt (hk : s.cache.Keyed)
    (hl : l.wrote t p = true → s.locks.modeOf? p t = some .exclusive) (table : TableId)
    (schema : Schema) (stored : List RecordId) (rows : List (List Field)) :
    s.KeepsAt p mine (begin s t table schema stored rows).1 ∧
      (begin s t table schema stored rows).2.Careful p l t := by
  cases rows with
  | nil => exact ⟨.refl p mine hk, Next.careful_answer ..⟩
  | cons fields rows =>
      rw [begin]
      split
      · exact ⟨.refl p mine hk, Next.careful_answer ..⟩
      · split
        · exact ⟨.refl p mine hk, Next.careful_answer ..⟩
        · split
          · exact search_keepsAt _ hk hl 0 _
          · exact ⟨.refl p mine hk, Next.careful_answer ..⟩

end Insertion

theorem Request.start_keepsAt (hk : s.cache.Keyed)
    (hl : l.wrote t p = true → s.locks.modeOf? p t = some .exclusive) (request : Request) :
    s.KeepsAt p mine (request.start s t).1 ∧ (request.start s t).2.Careful p l t := by
  have hanswer : ∀ a : Answer, s.KeepsAt p mine s ∧ (Next.answer a).Careful p l t :=
    fun a => ⟨.refl p mine hk, Next.careful_answer ..⟩
  have hdelete : ∀ (record : RecordId) (answer : Answer),
      s.KeepsAt p mine s ∧ (Request.deleteIn record answer).Careful p l t :=
    fun record answer => ⟨.refl p mine hk, Next.careful_ask_exclusive rfl⟩
  simp only [Request.start]
  split
  · exact ⟨.refl p mine hk, Next.careful_ask_idle rfl rfl⟩
  · exact Insertion.begin_keepsAt hk hl ..
  · split
    · exact hanswer _
    · exact Insertion.begin_keepsAt hk hl ..
  · exact hanswer _
  · split
    · exact hanswer _
    · exact hdelete ..
  · split
    · exact hanswer _
    · split
      · exact hanswer _
      · split
        · exact hdelete ..
        · exact hanswer _
  · exact ⟨.refl p mine hk, Scan.Stop.careful_next ..⟩

/-! ## Fetching -/

namespace Store

/-- What is not cached is not taken. -/
theorem keepsAt_take_uncached (hk : s.cache.Keyed) (hn : s.cache.page? id = none)
    (mode : LockMode) : s.KeepsAt p mine (s.take t id mode) := by
  refine ⟨rfl, .of_same (keyed_take hk t id mode) (Nat.le_of_eq (copies_take ..).symm) ?_
    fun u => by rw [kept_take]⟩
  rw [getElem?_frames_take]
  split
  · rename_i he
    subst he
    rw [Option.map_eq_none_iff.1 hn]
    rfl
  · rfl

/-- A fetch that fails leaves the marks alone.  One that does not fail takes the page when
it has been seen to. -/
theorem fetch_keepsAt (hk : s.cache.Keyed) (t : TransactionId) (f : TableFile) (id : PageId)
    (mode : LockMode) :
    (∃ e, (s.fetch t f id mode).1 = .error e ∧ s.KeepsAt p (· = t) (s.fetch t f id mode).2) ∨
      ∃ s₁ page frame, s.KeepsAt p (· = t) s₁ ∧ s₁.cache.page? id = some page ∧
        frame.page = taken t mode page ∧ s.fetch t f id mode = (.ok frame, s₁.take t id mode) := by
  have hq : s.KeepsAt p (· = t) (s.ensureCached t f id).2 := keepsAt_ensureCached hk f id
  rcases s.fetch_eq t f id mode with ⟨e, he⟩ | ⟨e, hn, he⟩ | ⟨page, frame, hp, ht, he⟩
  · rw [he]
    exact Or.inl ⟨e, rfl, hq⟩
  · rw [he]
    exact Or.inl ⟨e, rfl, hq.trans (keepsAt_take_uncached hq.cache.keyed hn mode)⟩
  · exact Or.inr ⟨_, page, frame, hq, hp, ht, he⟩

/-- A page is changed and keeps its owner. -/
theorem keepsAt_change {page page' : Page} (hk : s.cache.Keyed)
    (hc : s.cache.page? id = some page) (hsame : page' = { page with slots := page'.slots })
    (hm : ∀ u, page.owner = some u → mine u) :
    s.KeepsAt p mine (s.onCache fun c => c.update page'.id fun _ => page') := by
  have hid : page'.id = id := by rw [hsame, ← hk hc]
  have hcache : s.cache.KeepsAt p mine (s.cache.update page'.id fun _ => page') := by
    refine .update hk ?_ ?_
    · intro old hold
      rw [hid, hc] at hold
      cases hold
      rw [hsame]
      exact ⟨rfl, rfl⟩
    · rintro rfl u hu
      rw [hid, Cache.owner?, hc] at hu
      exact hm u hu
  exact ⟨rfl, hcache⟩

end Store

/-! ## Going on -/

/-- A change of a page does not say that it is fetched. -/
theorem wrote_after_changed (l : Ledger) (t : TransactionId) (changes : List Change) :
    (l.after (changes.map (.changed t))).wrote = l.wrote := by
  induction changes generalizing l with
  | nil => rfl
  | cons change changes ih => exact ih (l.record (.changed t change))

namespace Stage

variable {frame : Frame}

/-- A task that could not get its page is careful. -/
theorem careful_resume_error (stage : Stage) (s : Store) (t : TransactionId) (e : StoreError) :
    (stage.resume s t (.error e)).2.Careful p l t := by
  cases stage with
  | get => exact Next.careful_answer ..
  | look => exact Next.careful_answer ..
  | place => exact Next.careful_answer ..
  | delete => exact Next.careful_answer ..
  | feed => exact Scan.Stop.careful_next ..

/-- A full page is released unless it was held before, and the next one is asked for. -/
theorem looked_marks {task : Insertion} (hk : s.cache.Keyed) (hp : frame.page.id = id)
    (page count : Nat) {heldBefore : Bool}
    (hr : id = p → heldBefore = false → l.wrote t p = false)
    (hl : l.wrote t p = true → s.locks.modeOf? p t = some .exclusive) :
    Marks p move (l, s) (l, (task.looked s t page count heldBefore frame).1) ∧
      (task.looked s t page count heldBefore frame).2.Careful p l t := by
  rw [Insertion.looked]
  split
  · exact ⟨.refl, Next.careful_ask_exclusive rfl⟩
  · cases heldBefore with
    | true =>
        obtain ⟨hq, hn⟩ := Insertion.search_keepsAt task hk hl (page + 1) count
        exact ⟨.single (.quiet hq fun _ => rfl), hn⟩
    | false =>
        have hfree : frame.page.id = p → l.wrote t p = false := fun he => hr (hp ▸ he) rfl
        have hl' : l.wrote t p = true →
            (s.releasePage t frame.page.id).2.locks.modeOf? p t = some .exclusive := by
          intro hw
          show (s.locks.release frame.page.id t).2.modeOf? p t = _
          rw [LockTable.modeOf?_release, if_neg]
          · exact hl hw
          · rintro ⟨he, -⟩
            rw [hfree he] at hw
            cases hw
        have hk' : (s.releasePage t frame.page.id).2.cache.Keyed := hk
        obtain ⟨hq, hn⟩ := Insertion.search_keepsAt task hk' hl' (page + 1) count
        have hrel : Mark p move (l, s) (l, (s.releasePage t frame.page.id).2) :=
          .release t frame.page.id hfree rfl rfl
        exact ⟨.head hrel (.single (.quiet hq fun _ => rfl)), hn⟩

/-- A task that gets its page changes it only if it has it for writing. -/
theorem resume_marks (stage : Stage) (hk : s.cache.Keyed)
    (hp : s.cache.page? id = some frame.page) (hm : move.mayTouch t)
    (ho : stage.writes = true → frame.page.owner = some t)
    (hr : id = p → stage.releases = true → l.wrote t p = false)
    (hl : l.wrote t p = true → s.locks.modeOf? p t = some .exclusive) :
    Marks p move (l, s) (l.after ((stage.change? frame.page).toList.map (.changed t)),
        (stage.resume s t (.ok frame)).1) ∧
      (stage.resume s t (.ok frame)).2.Careful p
        (l.after ((stage.change? frame.page).toList.map (.changed t))) t := by
  have hwrote := wrote_after_changed l t (stage.change? frame.page).toList
  have hmine : stage.writes = true → ∀ u, frame.page.owner = some u → move.mayTouch u := by
    intro hw u hu
    rw [ho hw] at hu
    rwa [← Option.some.inj hu]
  cases stage with
  | get => exact ⟨.refl, Next.careful_answer ..⟩
  | look task page count heldBefore =>
      exact looked_marks hk (hk hp) page count (fun he hh => hr he (by rw [hh]; rfl)) hl
  | place task =>
      cases hins : frame.page.insert task.row with
      | error e =>
          simp only [resume, change?, Insertion.place, hins]
          exact ⟨.refl, Next.careful_answer ..⟩
      | ok stored =>
          obtain ⟨record, page'⟩ := stored
          simp only [change?, hins] at hwrote
          simp only [resume, change?, Insertion.place, hins]
          generalize l.after _ = l' at hwrote ⊢
          have hsame : page' = { frame.page with slots := page'.slots } := by
            obtain ⟨-, -, rfl⟩ := Page.insert_eq_ok hins
            rfl
          have hchange : s.KeepsAt p move.mayTouch _ :=
            Store.keepsAt_change hk hp hsame (hmine rfl)
          have hl' : l'.wrote t p = true →
              (s.onCache fun c => c.update page'.id fun _ => page').locks.modeOf? p t =
                some .exclusive := by
            rw [hwrote]
            exact hl
          obtain ⟨hq, hn⟩ : Store.KeepsAt p move.mayTouch _ _ ∧ _ :=
            Insertion.begin_keepsAt hchange.cache.keyed hl' task.table task.schema
              (record :: task.stored) task.rows
          exact ⟨.single (.quiet (hchange.trans hq) fun u => by rw [hwrote]), hn⟩
  | delete record answer =>
      cases hdel : frame.page.delete (some record) with
      | error e =>
          simp only [resume, change?, hdel]
          exact ⟨.refl, Next.careful_answer ..⟩
      | ok page' =>
          simp only [change?, hdel] at hwrote
          simp only [resume, change?, hdel]
          have hsame : page' = { frame.page with slots := page'.slots } := by
            obtain ⟨-, rfl⟩ := Page.delete_eq_ok hdel
            rfl
          have hchange : s.KeepsAt p move.mayTouch _ :=
            Store.keepsAt_change hk hp hsame (hmine rfl)
          exact ⟨.single (.quiet hchange fun u => by rw [hwrote]), Next.careful_answer ..⟩
  | feed => exact ⟨.refl, Scan.Stop.careful_next ..⟩

end Stage

/-! ## Evaluating a request -/

section Submit

variable {r : LockRequest} {stage : Stage}

/-- Evaluating a request of a careful task, and what the task does next. -/
theorem submit_marks (h : MarkedAt p l s) (hm : ∀ u, u = t → move.mayTouch u)
    (hw : stage.writes = true → r.mode = .exclusive)
    (hr : r.page = p → stage.releases = true → r.mode = .shared ∧ l.wrote t p = false)
    (source : TableFile) :
    Marks p move (l, s) (l.after (submitEvents s t source r stage),
        (submit s t source r stage).2) ∧
      ∀ ⦃n⦄, (submit s t source r stage).1 = some n →
        n.Careful p (l.after (submitEvents s t source r stage)) t := by
  have hlock : ∀ l₁ : Ledger, l₁.wrote = l.wrote →
      Mark p move (l, s) (l₁, { s with locks := (s.locks.consider t r).2 }) :=
    fun l₁ hl₁ => .lock t r rfl rfl fun u => by rw [hl₁]
  cases hv : (s.locks.consider t r).1 with
  | waits =>
      obtain ⟨he, hsub⟩ := submit_of_waits source stage hv
      rw [he, hsub]
      exact ⟨.single (hlock l rfl), fun _ hn => by cases hn⟩
  | refused =>
      obtain ⟨he, hsub⟩ := submit_of_refused source stage hv
      rw [he, hsub]
      refine ⟨.single (hlock l rfl), ?_⟩
      rintro n ⟨rfl⟩
      exact stage.careful_resume_error _ t _
  | granted =>
      obtain ⟨he, hsub⟩ := submit_of_granted source stage hv rfl
      have hlocked := hlock _ (wrote_lockEvents l (s.view r.page) t r.mode)
      have hwrote := wrote_lockEvents l (s.view r.page) t r.mode
      have h₁ := h.mark hlocked
      rw [he, hsub, Ledger.after_append]
      generalize l.after ((s.view r.page).lockEvents t r.mode) = l₁ at hlocked hwrote h₁ ⊢
      rcases Store.fetch_keepsAt (p := p) h₁.keyed t source r.page r.mode with
        ⟨e, hfail, hq⟩ | ⟨s₂, page, frame, hq, hp, htaken, hfetched⟩
      · rw [hfail, stage.resume_error, fetchEvents]
        refine ⟨.head hlocked (.single (.quiet (hq.mono hm) fun _ => rfl)), ?_⟩
        rintro n ⟨rfl⟩
        exact stage.careful_resume_error _ t _
      · have hmode : r.mode = .exclusive → s₂.locks.modeOf? r.page t = some .exclusive := by
          intro hx
          rw [hq.locks]
          exact LockTable.modeOf?_self_of_granted hv hx
        have hquiet : Mark p move (l₁, _) (l₁, s₂) := .quiet (hq.mono hm) fun _ => rfl
        have htake : Mark p move (l₁, s₂)
            (l₁.record (.fetched t r.page r.mode frame.page), s₂.take t r.page r.mode) :=
          .take t r.page r.mode frame.page (hm t rfl) hmode
        have h₃ := (h₁.mark hquiet).mark htake
        have hcached : (s₂.take t r.page r.mode).cache.page? r.page = some frame.page :=
          Store.page?_take_self hp htaken
        have howner : stage.writes = true → frame.page.owner = some t := by
          intro hx
          rw [htaken, hw hx]
          rfl
        have hreleases : r.page = p → stage.releases = true →
            (l₁.record (.fetched t r.page r.mode frame.page)).wrote t p = false := by
          intro hp hrel
          obtain ⟨hshared, hl⟩ := hr hp hrel
          by_contra hne
          rcases Ledger.wrote_fetched.1 (by simpa using hne) with ⟨hx, -⟩ | hold
          · rw [hshared] at hx
            cases hx
          · rw [hwrote, hl] at hold
            cases hold
        obtain ⟨hmarks, hnext⟩ := stage.resume_marks h₃.keyed hcached (hm t rfl) howner hreleases
          h₃.locked
        rw [hfetched]
        refine ⟨.head hlocked (.head hquiet (.head htake hmarks)), ?_⟩
        rintro n ⟨rfl⟩
        exact hnext

end Submit

/-! ## Commit and abort -/

namespace Store

theorem mem_ownedBy_iff : id ∈ s.cache.ownedBy t ↔ s.cache.owner? id = some t := mem_ownedBy

/-- The pages of a transaction are written for good one after another. -/
theorem marks_untilError_commitPage {ids : List PageId} (hm : move.ends t) (hn : ids.Nodup)
    (ho : ∀ q ∈ ids, s.cache.owner? q = some t) :
    Marks p move (l, s) (l, (untilError commitPage s ids).2) ∧
      ((untilError commitPage s ids).1 = .ok () →
        ∀ q, (untilError commitPage s ids).2.cache.owner? q =
          if q ∈ ids then none else s.cache.owner? q) := by
  induction ids generalizing s with
  | nil => exact ⟨.refl, fun _ q => by simp [untilError]⟩
  | cons id ids ih =>
      obtain ⟨hid, hn⟩ := List.nodup_cons.1 hn
      rw [untilError]
      split
      · exact ⟨.refl, fun h => by cases h⟩
      · rename_i s₁ hs₁
        have hfirst : s.cache.owner? id = some t := ho id List.mem_cons_self
        obtain ⟨-, hc⟩ := commitPage_of_owner hfirst hs₁
        have howner : ∀ q, s₁.cache.owner? q = if id = q then none else s.cache.owner? q := by
          intro q
          rw [hc, Cache.owner?, Cache.page?_update]
          split
          · cases s.cache.page? q <;> rfl
          · rfl
        have ho₁ : ∀ q ∈ ids, s₁.cache.owner? q = some t := by
          intro q hq
          rw [howner, if_neg]
          · exact ho q (List.mem_cons_of_mem _ hq)
          · rintro rfl
            exact hid hq
        obtain ⟨hmarks, hok⟩ := ih hn ho₁
        refine ⟨.head (.save t id hm hfirst hs₁) hmarks, fun h q => ?_⟩
        rw [hok h, howner]
        by_cases hq : id = q
        · simp [hq]
        · simp [hq, Ne.symm hq]

theorem commit_marks (h : MarkedAt p l s) (t : TransactionId) :
    Marks p (.commit t) (l, s) (l.record (commitEvent t (s.commit t).1), (s.commit t).2) := by
  have hends : (Move.commit t).ends t := rfl
  obtain ⟨hmarks, hok⟩ := marks_untilError_commitPage (p := p) (l := l) hends
    (nodup_ownedBy s.cache t) fun q hq => mem_ownedBy_iff.1 hq
  rw [commit]
  split
  · rename_i e s₁ hs₁
    rw [hs₁] at hmarks
    exact hmarks.tail (.quiet (.refl p _ (h.marks hmarks).keyed) fun _ => rfl)
  · rename_i s₁ hs₁
    rw [hs₁] at hmarks hok
    refine hmarks.tail (.finish t rfl ?_ rfl rfl fun _ => rfl)
    rw [hok rfl]
    split
    · simp
    · rename_i hp
      exact fun ho => hp (mem_ownedBy_iff.2 ho)

theorem abort_marks (h : MarkedAt p l s) (t : TransactionId) :
    Marks p (.abort t) (l, s) (l.record (.aborted t), (s.abort t).2) := by
  have hmine : p ∈ s.spoiled t → ∀ u, s.cache.owner? p = some u →
      (Move.abort t).mayTouch u := by
    rintro hp u hu _ ⟨rfl⟩
    -- Of the two owners of a page one is the other.
    exact h.eq_of_mode (h.mode_of_owns (mem_spoiled.1 hp).2) (h.mode_of_owns (Or.inl hu))
  have hdrop := keepsAt_dropSpoiled (s.spoiled t) h.keyed hmine
  obtain ⟨-, -, hlocks, -, hview⟩ := foldl_dropSpoiled (s.spoiled t) s
  obtain ⟨-, hl, hc, -⟩ := restored_restoreAll (s.keptImages t) (s.dropped t)
  refine .head (.quiet hdrop fun _ => rfl) (.single (.finish t rfl ?_ hc ?_ fun _ => rfl))
  · intro ho
    have hcopy : ((s.spoiled t).foldl dropSpoiled s).cache.page? p =
        if p ∈ s.spoiled t then none else s.cache.page? p := congrArg PageView.copy (hview p)
    rw [Cache.owner?, hcopy] at ho
    split at ho
    · cases ho
    · rename_i hp
      refine hp (mem_spoiled.2 ⟨?_, Or.inl ho⟩)
      intro hn
      rw [hn] at ho
      cases ho
  · show (((s.dropped t).restoreAll (s.keptImages t)).2.locks.releaseAll t).2 = _
    rw [hl]
    rfl

end Store

/-! ## Every move -/

namespace Traffic

variable {w w' : Traffic} {events : List Event}

/-- All is well with the marks of a page, and the tasks are careful with it. -/
structure CarefulAt (p : PageId) (l : Ledger) (w : Traffic) : Prop where
  marked : MarkedAt p l w.store
  tasks : ∀ ⦃t task⦄, w.tasks t = some task → task.Careful p l t

/-- What is asked of a move.  A lock is released early only by a transaction that has not
fetched the page for writing. -/
def Guarded (l : Ledger) (_ : Traffic) (move : Move) (_ : Traffic) : Prop :=
  ∀ ⦃t q⦄, move = .release t q → l.wrote t q = false

/-- Orderly moves are guarded. -/
theorem Orderly.guarded {l : Ledger} {w w' : Traffic} {move : Move} (h : Orderly l w move w') :
    Guarded l w move w' := by
  rintro t q rfl
  exact h

/-- What a move comes to for the marks of a page. -/
structure Remarked (p : PageId) (move : Move) (l : Ledger) (w : Traffic) (l' : Ledger)
    (w' : Traffic) : Prop where
  marks : Marks p move (l, w.store) (l', w'.store)
  tasks : ∀ ⦃t task⦄, w'.tasks t = some task → task.Careful p l' t

namespace CarefulAt

theorem remarked (h : w.CarefulAt p l) (hr : Remarked p move l w l' w') : w'.CarefulAt p l' :=
  ⟨h.marked.marks hr.marks, hr.tasks⟩

/-- The tasks are as before, and no transaction has fetched the page for writing. -/
theorem remarked_of_tasks {e : List Event} (h : w.CarefulAt p l) {store : Store}
    (hm : Marks p move (l, w.store) (l.after e, store))
    (hw : ∀ u copy, .fetched u p .exclusive copy ∉ e) :
    Remarked p move l w (l.after e) { w with store } :=
  ⟨hm, fun u _ ht => (h.tasks ht).mono (wrote_of_after (hw u))⟩

/-- One transaction has another task, or none. -/
theorem remarked_of_turn {e : List Event} (h : w.CarefulAt p l) {store : Store}
    {o : Option Task} (hm : Marks p move (l, w.store) (l.after e, store))
    (ht : ∀ ⦃task⦄, o = some task → task.Careful p (l.after e) t)
    (hw : ∀ {u q mode copy}, .fetched u q mode copy ∈ e → u = t) :
    Remarked p move l w (l.after e) (w.turn t store o) := by
  refine ⟨hm, fun u task hu => ?_⟩
  by_cases hut : u = t
  · subst hut
    exact ht ((if_pos rfl).symm.trans hu)
  · exact (h.tasks ((if_neg hut).symm.trans hu)).mono
      (wrote_of_after fun copy hmem => hut (hw hmem))

theorem submit {task : Task} (h : w.CarefulAt p l) (ht : w.tasks t = some task)
    (hm : ∀ u, u = t → move.mayTouch u) (source : TableFile) :
    Remarked p move l w (l.after (w.submit t task source).1) (w.submit t task source).2 := by
  have hcareful := h.tasks ht
  obtain ⟨hmarks, hnext⟩ := submit_marks (r := { page := task.page, mode := task.mode }) h.marked
    hm hcareful.writes hcareful.releases source
  rw [Traffic.submit]
  dsimp only
  cases hsub : PagedStore.submit w.store t source { page := task.page, mode := task.mode }
      task.stage with
  | mk o store =>
      rw [hsub] at hmarks hnext
      cases o with
      | none =>
          have he := submitEvents_eq_nil (congrArg Prod.fst hsub)
          rw [he] at hmarks ⊢
          refine h.remarked_of_turn (e := []) hmarks ?_ fun hm => by cases hm
          rintro _ ⟨rfl⟩
          exact ⟨hcareful.writes, hcareful.releases⟩
      | some n => exact h.remarked_of_turn hmarks (hnext rfl) transaction_of_mem_submitEvents

theorem resume {task : Task} (h : w.CarefulAt p l) (ht : w.tasks t = some task)
    (hm : ∀ u, u = t → move.mayTouch u) :
    Remarked p move l w (l.after (w.resume t task).1) (w.resume t task).2 := by
  rw [Traffic.resume]
  split
  · exact h.submit ht hm _
  · split
    · exact h.submit ht hm _
    · rename_i e hf
      refine h.remarked_of_turn (e := []) ?_ ?_ fun hm => by cases hm
      · rw [task.stage.resume_error]
        exact .refl
      · exact fun _ ho => task.stage.careful_resume_error w.store t e ho

/-- Work without an event that leaves the marks alone. -/
theorem remarked_of_keepsAt (h : w.CarefulAt p l) (hn : move.transaction? = none) {store : Store}
    (hk : w.store.KeepsAt p (fun _ => True) store) : Remarked p move l w l { w with store } := by
  refine h.remarked_of_tasks (e := []) (.single (.quiet (hk.mono ?_) fun _ => rfl))
    fun _ _ hm => by cases hm
  intro u _ t ht
  rw [hn] at ht
  cases ht

end CarefulAt

/-- What every move comes to for the marks of a page. -/
theorem marks_of_step (h : w.CarefulAt p l)
    (hg : ∀ ⦃t⦄, move = .release t p → l.wrote t p = false)
    (hs : w.step move = some (events, w')) : Remarked p move l w (l.after events) w' := by
  have hk := h.marked.keyed
  cases move with
  | start t request =>
      simp only [step] at hs
      split at hs
      · cases hs
      · cases hs
        obtain ⟨hq, hnext⟩ := Request.start_keepsAt hk h.marked.locked request
        exact h.remarked_of_turn (e := []) (.single (.quiet hq fun _ => rfl)) hnext
          fun hm => by cases hm
  | resume t =>
      obtain ⟨task, htask, hr⟩ := Option.map_eq_some_iff.1 hs
      have hm : ∀ u, u = t → (Move.resume t).mayTouch u := by
        rintro u rfl _ ⟨rfl⟩
        rfl
      have hresume := h.resume htask hm
      rw [hr] at hresume
      exact hresume
  | commit t =>
      cases hs
      refine h.remarked_of_tasks (e := [_]) (Store.commit_marks h.marked t) fun u copy hm => ?_
      have := List.mem_singleton.1 hm
      simp only [commitEvent] at this
      split at this <;> cases this
  | abort t =>
      cases hs
      refine h.remarked_of_tasks (e := [_]) (Store.abort_marks h.marked t) fun u copy hm => ?_
      cases List.mem_singleton.1 hm
  | flushPage page =>
      simp only [step] at hs
      split at hs
      · rename_i store hf
        cases hs
        exact h.remarked_of_keepsAt rfl (Store.keepsAt_flushPage hk hf)
      · cases hs
        exact ⟨.refl, h.tasks⟩
  | flushPages t =>
      cases hs
      exact h.remarked_of_keepsAt rfl (Store.keepsAt_untilError Store.keepsAt_flushPage _ hk)
  | flushAll =>
      cases hs
      exact h.remarked_of_keepsAt rfl (Store.keepsAt_untilError Store.keepsAt_flushPage _ hk)
  | discard page =>
      cases hs
      exact h.remarked_of_keepsAt rfl (Store.keepsAt_discard hk page)
  | release t page =>
      cases hs
      refine h.remarked_of_tasks (e := []) (.single (.release t page ?_ rfl rfl))
        fun _ _ hm => by cases hm
      rintro rfl
      exact hg rfl
  | replace catalog disk =>
      cases hs
      exact h.remarked_of_keepsAt rfl ⟨rfl, .refl p _ hk⟩

/-! ## Runs -/

variable {s₀ : Store} {history : List Event}

/-- A run that keeps to a rule keeps to every weaker one. -/
theorem Run.mono {rule rule' : Ledger → Traffic → Move → Traffic → Prop}
    (h : Run rule s₀ history w) (hr : ∀ {l w move w'}, rule l w move w' → rule' l w move w') :
    Run rule' s₀ history w := by
  induction h with
  | start => exact .start
  | step _ hrule hs ih => exact ih.step (hr hrule) hs

/-- All is well with the marks of every page if nothing is cached and no lock is held. -/
theorem carefulAt_start (hc : s₀.cache = ∅) (hl : s₀.locks = ∅) :
    CarefulAt p {} { store := s₀ } := by
  have hframes : ∀ q : PageId, s₀.cache.frames[q]? = none := by
    intro q
    rw [hc]
    exact Std.ExtTreeMap.getElem?_empty
  have hmode : ∀ t, s₀.locks.modeOf? p t = none := by
    intro t
    rw [hl]
    exact LockTable.modeOf?_empty p t
  refine ⟨⟨?_, ?_, ?_, ?_, ?_, ?_⟩, fun t task ht => by cases ht⟩
  · rw [show s₀.cache = ∅ from hc]
    exact Cache.keyed_empty
  · rw [show s₀.locks = ∅ from hl]
    exact LockTable.indexed_empty
  · intro f hf
    rw [hframes] at hf
    cases hf
  · intro t u ht
    rw [hmode] at ht
    cases ht
  · intro t ht
    cases ht
  · rintro t (ho | hk)
    · obtain ⟨f, hf, -⟩ := Cache.owner?_eq_some.1 ho
      rw [hframes] at hf
      cases hf
    · refine absurd ?_ hk
      rw [show s₀.cache = ∅ from hc]
      show ((∅ : Std.ExtTreeMap TransactionId (Std.ExtTreeMap PageId Bytes)).getD t ∅)[p]? = none
      simp

/-- After every guarded run all is well with the marks of every page. -/
theorem carefulAt_of_run (hc : s₀.cache = ∅) (hl : s₀.locks = ∅)
    (h : Run Guarded s₀ history w) (p : PageId) : w.CarefulAt p (Ledger.of history) := by
  induction h with
  | start => exact carefulAt_start hc hl
  | step _ hrule hs ih =>
      rw [Ledger.of_append]
      exact ih.remarked (marks_of_step ih (fun _ hm => hrule hm) hs)

end Traffic

/-- Who has fetched a page for writing has done so until it ends. -/
theorem wrote_of_marks {a b : Ledger × Store} (hm : Marks p move a b) (hu : ¬ move.ends u)
    (hw : a.1.wrote u p = true) : b.1.wrote u p = true := by
  induction hm with
  | refl => exact hw
  | tail _ hstep ih =>
      cases hstep with
      | quiet _ hsame => rwa [hsame]
      | lock _ _ _ _ hsame => rwa [hsame]
      | release => exact ih
      | take => exact Ledger.wrote_fetched.2 (Or.inr ih)
      | save => exact ih
      | finish t ht _ _ _ hsame =>
          rw [hsame, Ledger.wrote_close]
          refine ⟨?_, ih⟩
          rintro rfl
          exact hu ht

namespace Traffic

variable {w : Traffic} {s₀ : Store} {history : List Event}

/-- A transaction fetches three pages for writing.  The first of them is written early, to
make room for the last. -/
def Small.fetches : List Move :=
  [.start ⟨0⟩ (.getPage (page 0) .exclusive), .resume ⟨0⟩,
   .start ⟨0⟩ (.getPage (page 1) .exclusive), .resume ⟨0⟩,
   .start ⟨0⟩ (.getPage (page 2) .exclusive), .resume ⟨0⟩]

/-- Who has changes on a page, be they in the cache or written early, holds the page in
exclusive mode.  So it is the only one, no move of another transaction touches what it has in
the cache or what is kept for it, and no move but its own end takes the lock from it. -/
theorem owner_holds (hc : s₀.cache = ∅) (hl : s₀.locks = ∅) (h : Run Guarded s₀ history w)
    (p : PageId) (t : TransactionId) (ho : (w.store.view p).Owns t) :
    (w.store.view p).mode t = some .exclusive ∧
      (∀ u, (w.store.view p).Owns u → u = t) ∧
        ∀ move events w', w.step move = some (events, w') → ∀ u, move.transaction? = some u →
          (u ≠ t → SparedAt p t w.store w'.store) ∧
            (¬ move.ends t → (w'.store.view p).mode t = some .exclusive) := by
  have hw := carefulAt_of_run hc hl h p
  have hmode := hw.marked.mode_of_owns ho
  refine ⟨hmode, fun u hu => hw.marked.eq_of_mode hmode (hw.marked.mode_of_owns hu), ?_⟩
  intro move events w' hs u hu
  have hg : ∀ ⦃v⦄, move = .release v p → (Ledger.of history).wrote v p = false := by
    rintro v rfl
    cases hu
  have hr := marks_of_step hw hg hs
  constructor
  · intro hne
    exact hw.marked.spared_marks hr.marks fun hm => hne (hm hu).symm
  · intro he
    exact (hw.remarked hr).marked.locked (wrote_of_marks hr.marks he (hw.marked.wrote ho))

theorem owner_holds_small :
    Run Guarded Small.store (Small.after Small.fetches).1 (Small.after Small.fetches).2 ∧
      ((Small.after Small.fetches).2.store.view (Small.page 0)).Owns ⟨0⟩ ∧
        ((Small.after Small.fetches).2.store.view (Small.page 0)).mode ⟨0⟩ = some .exclusive ∧
          SparedAt (Small.page 0) ⟨0⟩ (Small.after Small.fetches).2.store
            ((Small.after Small.fetches).2.store.abort ⟨1⟩).2 := by
  have hrun : Run Guarded Small.store (Small.after Small.fetches).1
      (Small.after Small.fetches).2 :=
    Run.mono (Small.run (by decide) (by decide +kernel)) Orderly.guarded
  have howns : ((Small.after Small.fetches).2.store.view (Small.page 0)).Owns ⟨0⟩ := by
    decide +kernel
  obtain ⟨hmode, -, hmoves⟩ := owner_holds rfl rfl hrun (Small.page 0) ⟨0⟩ howns
  have habort := hmoves (.abort ⟨1⟩) _ _ rfl ⟨1⟩ rfl
  exact ⟨hrun, howns, hmode, habort.1 (by decide)⟩

end Traffic

end PagedStore

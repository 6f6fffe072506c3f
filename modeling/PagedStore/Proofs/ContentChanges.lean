import PagedStore.Proofs.CleanPages
import PagedStore.Proofs.InsertionRuns

/-!
# What changes the content of a page

Most of what a store does leaves the content of every page as it is: locking and releasing,
reading pages and giving them up, writing them early, putting new pages at the ends of files,
and commits.  The content of a page is another one only if the transaction that holds the page
alone changes it or is aborted, or if its copy is dropped with changes on it
(`Traffic.content_cases`).

So a page that a transaction holds, in whatever mode, keeps its content as long as the
transaction itself does none of this (`Traffic.content_of_held`).

All this is so even if pages of others are dropped with changes on them.  The pages then agree
with a ledger that has every commit in *doubt* (`Ledger.doubted`).
-/

namespace PagedStore

open PageView (Agrees)

variable {p id : PageId} {l l' : Ledger} {t u : TransactionId} {s s' : Store}

/-! ## Ledgers in doubt -/

/-- The ledger that takes all commits for failed. -/
def Ledger.doubted (l : Ledger) : Ledger := { l with failed := fun _ => true }

/-- If all commits may have failed, it matters only who has fetched the page for writing. -/
theorem PageView.Agrees.doubted {v : PageView} (h : Agrees l' v) (hw : l'.wrote = l.wrote) :
    Agrees l.doubted v :=
  { h with
    locked := fun hl => h.locked (by rw [hw]; exact hl)
    wrote := fun ho => (congrFun (congrFun hw _) _).symm.trans (h.wrote ho)
    owns := fun _ hf => by cases hf
    first := fun _ hf => by cases hf
    held := fun _ hf _ => by cases hf }

namespace Traffic

variable {s₀ : Store} {w w' : Traffic} {move : Move} {history events : List Event}

theorem SoundAt.doubted (h : w.SoundAt p l') (hw : l'.wrote = l.wrote) :
    w.SoundAt p l.doubted :=
  ⟨h.store, h.numbered, h.agrees.doubted hw, fun _ _ ht =>
    (h.tasks ht).mono fun hl => by rw [hw]; exact hl⟩

/-- All is well with every page, if all commits are taken for failed. -/
theorem Run.soundAt_doubted (h₀ : Fresh s₀) (h : Run Enclosed s₀ history w)
    (hn : ∀ p, w.store.NumberedAt p) (p : PageId) : w.SoundAt p (Ledger.of history).doubted := by
  obtain ⟨l', hsound, hw⟩ := h.sheltered h₀ (hn p)
  exact hsound.doubted hw

end Traffic

/-! ## Steps that change no content -/

namespace Store

/-- Every page has the same content. -/
def SameContents (s s' : Store) : Prop := ∀ p, (s'.view p).content = (s.view p).content

namespace SameContents

theorem refl (s : Store) : SameContents s s := fun _ => rfl

theorem trans {s'' : Store} (h : SameContents s s') (h' : SameContents s' s'') :
    SameContents s s'' := fun p => (h' p).trans (h p)

end SameContents

theorem Silent.sameContents (h : Silent s s') (hs : s.Follows l) : SameContents s s' :=
  fun p => ((h.alike hs).view p).content

theorem sameContents_consider (s : Store) (t : TransactionId) (r : LockRequest) :
    SameContents s { s with locks := (s.locks.consider t r).2 } := by
  intro p
  rw [view_consider]
  split <;> rfl

theorem sameContents_releasePage (s : Store) (t : TransactionId) (id : PageId) :
    SameContents s (s.releasePage t id).2 := by
  intro p
  rw [view_releasePage]
  split <;> rfl

theorem sameContents_take (s : Store) (t : TransactionId) (id : PageId) (mode : LockMode) :
    SameContents s (s.take t id mode) := by
  intro p
  rw [view_take]
  split
  · cases hc : (s.view p).copy with
    | none => rw [PageView.content_of_none hc]; rfl
    | some page =>
        rw [PageView.content_of_copy hc]
        exact congrArg some (Traffic.content_taken t mode page)
  · rfl

/-- Dropping a page leaves the others as they are. -/
theorem view_discard_of_ne (s : Store) (hne : id ≠ p) : (s.discard id).view p = s.view p := by
  rw [discard]
  split
  · rfl
  · have hview := s.view_drop id p
    rw [if_neg hne] at hview
    dsimp only
    split
    · exact hview
    · exact hview

theorem sameContents_commit (hs : s.Follows l) (t : TransactionId) :
    SameContents s (s.commit t).2 := by
  intro p
  rw [hs.view_commit, PageView.content_committed]

/-- Pages can be counted, and every cached page lies inside its file. -/
structure Backed (s : Store) : Prop where
  numbered : ∀ p, s.NumberedAt p
  image : ∀ {p page}, s.cache.page? p = some page → (s.view p).image ≠ none

theorem Follows.backed (hs : s.Follows l) : s.Backed :=
  ⟨hs.numbered, fun {p _} hc => ((hs.view p).fits hc).image⟩

theorem Backed.releasePage (h : s.Backed) (t : TransactionId) (id : PageId) :
    (s.releasePage t id).2.Backed := ⟨h.numbered, h.image⟩

theorem Backed.update (h : s.Backed) (id : PageId) (f : Page → Page) :
    (s.onCache fun c => c.update id f).Backed := by
  refine ⟨h.numbered, fun {p page} hc => ?_⟩
  rw [onCache, Cache.page?_update] at hc
  split at hc
  · obtain ⟨old, hold, -⟩ := Option.map_eq_some_iff.1 hc
    exact h.image hold
  · exact h.image hc

/-- A new page at the end of a file holds what it held before it was there. -/
theorem sameContents_append {f : TableFile} (hs : s.Backed)
    (hf : ∀ {t g}, s.catalog.file t = .ok g → g.name = f.name → g = f) :
    SameContents s { s with disk := (s.disk.append f).2 } := by
  intro p
  obtain ⟨hnew, hold⟩ := view_append (f := f) (hs.numbered p) fun g hg => hf hg
  by_cases hp : s.Appended f p
  · obtain ⟨-, himage, hview⟩ := hnew hp
    have hcopy : (s.view p).copy = none := by
      by_contra hc
      obtain ⟨page, hc⟩ := Option.ne_none_iff_exists'.1 hc
      exact hs.image hc himage
    rw [hview, PageView.content_of_none hcopy,
      PageView.content_of_none (v := { s.view p with image := (s.view p).blank }) hcopy,
      PageView.present_appended himage]
    rfl
  · rw [hold hp]

end Store

/-! ## Tasks -/

open Store (SameContents Backed)

namespace Insertion

theorem sameContents_search {task : Insertion} (hs : s.Backed)
    (hi : ∀ p, task.SoundAt (s.view p).file) (t : TransactionId) (page count : Nat) :
    SameContents s (task.search s t page count).1 := by
  rw [search]
  split
  · exact .refl s
  · exact Store.sameContents_append hs fun {table g} hg hname =>
      ((hi ⟨table, 0⟩).file (Store.file_view (p := ⟨table, 0⟩) hg) hname.symm).symm

theorem sameContents_begin (hs : s.Backed) (hc : s.catalog.Sound) (t : TransactionId)
    (table : TableId) (schema : Schema) (stored : List RecordId) (rows : List (List Field)) :
    SameContents s (begin s t table schema stored rows).1 := by
  cases rows with
  | nil => exact .refl s
  | cons fields rows =>
      rw [begin]
      split
      · exact .refl s
      · rename_i row hrow
        split
        · exact .refl s
        · rename_i f hf
          split
          · exact sameContents_search hs
              (soundAt_of_file hc (Row.ofFields_eq_ok_iff.1 hrow).2 hf) t 0 _
          · exact .refl s

theorem sameContents_looked {task : Insertion} (hs : s.Backed)
    (hi : ∀ p, task.SoundAt (s.view p).file) (t : TransactionId) (page count : Nat)
    (heldBefore : Bool) (frame : Frame) :
    SameContents s (task.looked s t page count heldBefore frame).1 := by
  rw [looked]
  split
  · exact .refl s
  · cases heldBefore with
    | true => exact sameContents_search hs hi t (page + 1) count
    | false =>
        exact (s.sameContents_releasePage t frame.page.id).trans
          (sameContents_search (hs.releasePage t frame.page.id) hi t (page + 1) count)

end Insertion

/-- Beginning a task changes no content. -/
theorem Request.sameContents_start (hs : s.Backed) (hc : s.catalog.Sound) (t : TransactionId)
    (request : Request) : SameContents s (request.start s t).1 := by
  simp only [Request.start]
  split
  · exact .refl s
  · exact Insertion.sameContents_begin hs hc t _ _ _ _
  · split
    · exact .refl s
    · exact Insertion.sameContents_begin hs hc t _ _ _ _
  · exact .refl s
  · split <;> exact .refl s
  · split
    · exact .refl s
    · split
      · exact .refl s
      · split <;> exact .refl s
  · exact .refl s

/-- The content is changed only of the page that the task gets, by the change that it makes. -/
theorem Stage.contents_resume (stage : Stage) {frame : Frame} (hs : s.Follows l)
    (hp : s.cache.page? id = some frame.page)
    (hi : ∀ p, ∀ ⦃i⦄, stage.insertion? = some i → i.SoundAt (s.view p).file) (t : TransactionId)
    (p : PageId) :
    ((stage.resume s t (.ok frame)).1.view p).content = (s.view p).content ∨
      p = id ∧ stage.writes = true ∧ ∃ change, stage.change? frame.page = some change := by
  have hid : frame.page.id = id := hs.sound.keyed hp
  have hother : ∀ {page' : Page}, page'.id = id → p ≠ id →
      ((s.onCache fun c => c.update page'.id fun _ => page').view p).content =
        (s.view p).content := by
    intro page' hp' hne
    rw [Store.view_update, hp', if_neg (Ne.symm hne)]
  cases stage with
  | get | feed => exact Or.inl rfl
  | look task page count heldBefore =>
      exact Or.inl (Insertion.sameContents_looked hs.backed (fun p => hi p rfl) t page count
        heldBefore frame p)
  | place task =>
      cases hins : frame.page.insert task.row with
      | error e =>
          rw [resume, Insertion.place, hins]
          exact Or.inl rfl
      | ok stored =>
          obtain ⟨record, page'⟩ := stored
          by_cases hne : p = id
          · exact Or.inr ⟨hne, rfl, .insert record task.row.fields, by simp only [change?, hins]⟩
          · have hid' : page'.id = id := by
              rw [← hid, (Page.insert_eq_ok hins).2.2]
            rw [resume, Insertion.place, hins]
            exact Or.inl ((Insertion.sameContents_begin (hs.backed.update _ _) hs.sound.catalog
              t _ _ _ _ p).trans (hother hid' hne))
  | delete record answer =>
      cases hdel : frame.page.delete (some record) with
      | error e =>
          rw [resume, hdel]
          exact Or.inl rfl
      | ok page' =>
          by_cases hne : p = id
          · exact Or.inr ⟨hne, rfl, .delete record, by simp only [change?, hdel]⟩
          · have hid' : page'.id = id := by
              rw [← hid, (Page.delete_eq_ok hdel).2]
            rw [resume, hdel]
            exact Or.inl (hother hid' hne)

/-- Evaluating a request changes the content of its page only, and only if nobody else holds
the page. -/
theorem contents_submit {source : TableFile} {r : LockRequest} {stage : Stage}
    (hs : s.Follows l) (hf : s.catalog.file r.page.table = .ok source)
    (hi : ∀ p, ∀ ⦃i⦄, stage.insertion? = some i → i.SoundAt (s.view p).file)
    (hw : stage.writes = true → r.mode = .exclusive) (p : PageId) :
    ((submit s t source r stage).2.view p).content = (s.view p).content ∨
      stage.writes = true ∧ (∀ u, u ≠ t → (s.view p).mode u = none) ∧
        ∃ change, .changed t change ∈ submitEvents s t source r stage := by
  have hlocked := s.sameContents_consider t r
  cases hv : (s.locks.consider t r).1 with
  | waits =>
      rw [(submit_of_waits source stage hv).2]
      exact Or.inl (hlocked p)
  | refused =>
      rw [(submit_of_refused source stage hv).2]
      exact Or.inl (hlocked p)
  | granted =>
      obtain ⟨he, hsub⟩ := submit_of_granted source stage hv rfl
      rw [he, hsub]
      have hs₁ := hs.granted hv
      rcases hs₁.fetch_result hf (hs.openTo_of_granted hv) r.mode with
        ⟨e, -, hfetch, hq⟩ | ⟨s₁, page, frame, -, hq, hp, hpage, hfetch⟩
      · rw [hfetch, stage.resume_error]
        exact Or.inl ((hlocked.trans (hq.sameContents hs₁)) p)
      · have hs₂ := hq.follows hs₁
        have hfile := fun p => ((hq.quiet p).moves l).file_view
        rw [hfetch]
        have hfetched := (hlocked.trans (hq.sameContents hs₁)).trans
          (s₁.sameContents_take t r.page r.mode)
        rcases stage.contents_resume (hs₂.taken (hq.exclusive_of_granted hv) hp)
          (Store.page?_take_self hp hpage) (fun p => (hfile p).symm ▸ hi p) t p with
          hsame | ⟨rfl, hx, change, hc⟩
        · exact Or.inl (hsame.trans (hfetched p))
        · refine Or.inr ⟨hx, fun u hu => ?_, change, ?_⟩
          · obtain ⟨id, mode⟩ := r
            obtain rfl : mode = .exclusive := hw hx
            exact LockTable.eq_none_of_granted hv hu
          · simp [fetchEvents, hc]

/-! ## Moves -/

namespace Traffic

variable {w w' : Traffic} {move : Move} {events : List Event}

/-- The transaction may do something to the content of a page with this move: it changes a page,
it is aborted, or the page is dropped with its changes on it. -/
def Disturbs (t : TransactionId) (p : PageId) (w : Traffic) (move : Move) (events : List Event) :
    Prop :=
  (∃ change, .changed t change ∈ events) ∨ move = .abort t ∨
    move = .discard p ∧ (w.store.view p).owner? = some t

theorem content_of_resume {task : Task} (h : ∀ p, w.SoundAt p l) (ht : w.tasks t = some task)
    (p : PageId) :
    ((w.resume t task).2.store.view p).content = (w.store.view p).content ∨
      task.stage.writes = true ∧ (∀ u, u ≠ t → (w.store.view p).mode u = none) ∧
        ∃ change, .changed t change ∈ (w.resume t task).1 := by
  cases hsource : w.sourceOf task with
  | error e =>
      rw [resume_of_error hsource, Stage.resume_error]
      exact Or.inl rfl
  | ok source =>
      rw [resume_of_source hsource, store_submit]
      have htask := fun p => (h p).tasks ht
      exact contents_submit (SoundAt.storeFollows h)
        ((h task.page).file_of_sourceOf ht hsource) (fun p => (htask p).insertion)
        (htask task.page).writes p

/-- A move leaves the content of a page as it is, unless a transaction holds the page alone and
may do something to it. -/
theorem content_cases (h : ∀ p, w.SoundAt p l) (hr : ∀ catalog disk, move ≠ .replace catalog disk)
    (hs : w.step move = some (events, w')) (p : PageId) :
    (w'.store.view p).content = (w.store.view p).content ∨
      ∃ t, (∀ u, u ≠ t → (w.store.view p).mode u = none) ∧ Disturbs t p w move events := by
  have hfollows := SoundAt.storeFollows h
  cases move with
  | start t request =>
      simp only [step] at hs
      split at hs <;> cases hs
      exact Or.inl (request.sameContents_start hfollows.backed hfollows.sound.catalog t p)
  | resume t =>
      obtain ⟨task, htask, hresume⟩ := Option.map_eq_some_iff.1 hs
      have := content_of_resume h htask p
      rw [hresume] at this
      obtain hsame | ⟨-, halone, hc⟩ := this
      · exact Or.inl hsame
      · exact Or.inr ⟨t, halone, Or.inl hc⟩
  | commit t =>
      cases hs
      exact Or.inl (Store.sameContents_commit hfollows t p)
  | abort t =>
      cases hs
      obtain ⟨-, -, -, -, hview⟩ := hfollows.abort_frame t
      by_cases ho : (w.store.view p).Owns t
      · exact Or.inr ⟨t, fun u hu => (h p).agrees.alone ((h p).agrees.mode_of_owns ho) hu,
          Or.inr (Or.inl rfl)⟩
      · rw [hview, PageView.aborted_of_not_owns ho]
        exact Or.inl rfl
  | flushPage page =>
      simp only [step] at hs
      split at hs
      · rename_i store hflush
        cases hs
        exact Or.inl ((Store.silent_flushPage hflush).sameContents hfollows p)
      · cases hs
        exact Or.inl rfl
  | flushPages t =>
      cases hs
      exact Or.inl ((Store.silent_flushPages w.store t).sameContents hfollows p)
  | flushAll =>
      cases hs
      exact Or.inl ((Store.silent_flushAll w.store).sameContents hfollows p)
  | discard page =>
      cases hs
      cases ho : (w.store.view page).owner? with
      | none =>
          have hsilent : Store.Silent w.store (w.store.discard page) :=
            Store.silent_discard fun copy hc =>
              (PageView.owner?_of_copy (v := w.store.view page) hc).symm.trans ho
          exact Or.inl (hsilent.sameContents hfollows p)
      | some t =>
          by_cases hp : page = p
          · subst hp
            have hheld := (h page).agrees.mode_of_owns (Or.inl ho)
            exact Or.inr ⟨t, fun u hu => (h page).agrees.alone hheld hu, Or.inr (Or.inr ⟨rfl, ho⟩)⟩
          · exact Or.inl (congrArg PageView.content (w.store.view_discard_of_ne hp))
  | release t page =>
      cases hs
      exact Or.inl (w.store.sameContents_releasePage t page p)
  | replace catalog disk => exact absurd rfl (hr catalog disk)

/-- A page that a transaction holds keeps its content, unless the transaction itself may do
something to it. -/
theorem content_of_held (h : ∀ p, w.SoundAt p l)
    (hr : ∀ catalog disk, move ≠ .replace catalog disk) (hs : w.step move = some (events, w'))
    (hheld : (w.store.view p).mode t ≠ none) (hd : ¬ Disturbs t p w move events) :
    (w'.store.view p).content = (w.store.view p).content := by
  rcases content_cases h hr hs p with hsame | ⟨u, halone, hu⟩
  · exact hsame
  · have htu : t = u := by
      by_contra hne
      exact hheld (halone t hne)
    exact absurd (htu ▸ hu) hd

end Traffic

end PagedStore

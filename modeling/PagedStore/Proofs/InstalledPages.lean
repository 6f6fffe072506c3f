import PagedStore.Proofs.UseOrder

/-!
# Changed pages are installed already

A page that a task has changed is left where it is.  To install it (`Store.install`) is to make
it the transaction's own, to see to it that the cache has this copy and no other, and to use it.
The task has taken the copy for writing just before, so all this is so already
(`Store.InOrder.taken_of_fetch`), and it is so still when the copy has been changed
(`Cache.Taken.edit`).  Hence nothing is changed by installing it, and no room is made for it
(`Store.install_eq`).

A task changes a page only if it has asked for it in exclusive mode.  So after every run a task
that goes on with the page that it gets does the same whether what it has changed is installed or
not (`Traffic.resumeAndInstall_of_run`).
-/

namespace PagedStore

open Std (ExtTreeMap)

/-! ## What is used twice, and what is changed to what it is -/

/-- A page that was used last may be used once more. -/
theorem Recency.touch_touch (r : Recency) (id : PageId) : (r.touch id).touch id = r.touch id := by
  ext1
  simp

namespace Cache

variable {c : Cache} {t : TransactionId} {frame : Frame} {id : PageId}

theorem update_eq_self {f : Page → Page} (h : ∀ page, c.page? id = some page → f page = page) :
    c.update id f = c := by
  refine Cache.ext (ExtTreeMap.ext_getElem? fun q => ?_) rfl rfl rfl rfl
  rw [update, ExtTreeMap.getElem?_modify]
  split
  · rename_i hq
    obtain rfl := Std.LawfulEqCmp.eq_of_compare hq
    cases hf : c.frames[id]? with
    | none => rfl
    | some frame =>
        rw [Option.map_some, h frame.page (page?_eq_some.2 ⟨frame, hf, rfl⟩)]
  · rfl

/-! ## Copies that were taken for writing -/

/-- A copy is the one that the cache has of its page, a transaction owns it, and its page was
used last. -/
structure Taken (c : Cache) (t : TransactionId) (frame : Frame) : Prop where
  cached : c.frames[frame.page.id]? = some frame
  owner : frame.page.owner = some t
  last : c.recency.touch frame.page.id = c.recency

namespace Taken

/-- What was taken may get other rows. -/
theorem edit (h : c.Taken t frame) {page : Page}
    (hsame : page = { frame.page with slots := page.slots }) :
    (c.update page.id fun _ => page).Taken t { frame with page } := by
  have hid : page.id = frame.page.id := by rw [hsame]
  have howner : page.owner = some t := by rw [hsame, ← h.owner]
  refine ⟨?_, howner, ?_⟩
  · show (c.frames.modify page.id _)[page.id]? = _
    rw [ExtTreeMap.getElem?_modify_self, hid, h.cached]
    rfl
  · show c.recency.touch page.id = c.recency
    rw [hid, h.last]

theorem page?_eq (h : c.Taken t frame) : c.page? frame.page.id = some frame.page :=
  page?_eq_some.2 ⟨frame, h.cached, rfl⟩

/-- The owner is given what is its own. -/
theorem updateCopy_eq (h : c.Taken t frame) :
    (c.updateCopy frame.page.id frame.copy fun page => page.withOwner (some t)) = c := by
  have hhas : c.Has { page := frame.page.id, copy := frame.copy } :=
    has_iff.2 ⟨frame, h.cached, rfl⟩
  rw [updateCopy_of_has hhas]
  refine update_eq_self fun page hp => ?_
  rw [h.page?_eq] at hp
  rw [← Option.some.inj hp, Page.withOwner, ← h.owner]

theorem touch_eq (h : c.Taken t frame) : c.touch frame.page.id = c := by
  rw [touch, h.last]

end Taken

end Cache

/-! ## Installing -/

namespace Store

variable {s : Store} {t : TransactionId} {f : TableFile} {id : PageId} {frame : Frame}

/-- What is fetched for writing is taken. -/
theorem InOrder.taken_of_fetch (h : s.InOrder)
    (hf : (s.fetch t f id .exclusive).1 = .ok frame) :
    (s.fetch t f id .exclusive).2.cache.Taken t frame := by
  have hpair : s.fetch t f id .exclusive = (.ok frame, (s.fetch t f id .exclusive).2) :=
    Prod.ext hf rfl
  obtain ⟨hframe, howner⟩ := frame_of_fetch hpair
  have hid : frame.page.id = id :=
    ((h.fetch t f id .exclusive).inOrder h).keyed (Cache.page?_eq_some.2 ⟨frame, hframe, rfl⟩)
  refine ⟨by rwa [hid], howner rfl, ?_⟩
  rcases s.fetch_taken t f id .exclusive with ⟨e, -, hfail⟩ | ⟨-, frame', htaken⟩
  · rw [hfail] at hf
    cases hf
  · rw [htaken, recency_take, hid, Recency.touch_touch]

/-- What is taken is installed already. -/
theorem install_eq (h : s.cache.Taken t frame) : s.install t frame = (.ok (), s) := by
  have hmarked : s.onCache (fun c => c.updateCopy frame.page.id frame.copy fun page =>
      page.withOwner (some t)) = s := by
    rw [onCache, h.updateCopy_eq]
  have hused : s.onCache (fun c => c.touch frame.page.id) = s := by
    rw [onCache, h.touch_eq]
  rw [install]
  simp only [hmarked, h.cached, if_true, hused]

open Traffic in
/-- A copy that has left the cache would come in again, and another page would have to go. -/
example :
    (Small.after Small.crowded).2.store.cache.ids = [Small.page 0, Small.page 2] ∧
      ((Small.after Small.crowded).2.store.cache.loose[1]?.map fun page =>
          ((Small.after Small.crowded).2.store.install ⟨0⟩ { copy := 1, page }).2.cache.ids) =
        some [Small.page 0, Small.page 1] := by
  decide +kernel

/-- What is taken is installed already when it has got other rows. -/
theorem install_edited (h : s.cache.Taken t frame) {page : Page}
    (hsame : page = { frame.page with slots := page.slots }) :
    (s.onCache fun c => c.update page.id fun _ => page).install t { frame with page } =
      (.ok (), s.onCache fun c => c.update page.id fun _ => page) :=
  install_eq (h.edit hsame)

end Store

/-! ## Tasks -/

section Tasks

variable {s : Store} {t : TransactionId} {frame : Frame}

/-- To install the page in which a row was placed changes nothing. -/
theorem Insertion.placeAndInstall_eq (task : Insertion) (h : s.cache.Taken t frame) :
    task.placeAndInstall s t frame = task.place s t frame := by
  rw [placeAndInstall, place]
  cases hins : frame.page.insert task.row with
  | error e => rfl
  | ok placed =>
      obtain ⟨record, page⟩ := placed
      have hinstalled := Store.install_edited h (Page.same_of_insert hins)
      simp only [hinstalled]

/-- A stage does the same whether what it changes is installed or not. -/
theorem Stage.resumeAndInstall_eq (stage : Stage) {r : Except StoreError Frame}
    (h : stage.writes = true → ∀ frame, r = .ok frame → s.cache.Taken t frame) :
    stage.resumeAndInstall s t r = stage.resume s t r := by
  cases stage with
  | get | look | feed => rfl
  | place task =>
      cases r with
      | error e => rfl
      | ok frame => exact task.placeAndInstall_eq (h rfl frame rfl)
  | delete record answer =>
      cases answer with
      | page | inserted | changed | pulled | failed => rfl
      | deleted =>
          cases r with
          | error e => rfl
          | ok frame =>
              rw [resumeAndInstall, resume]
              cases hdel : frame.page.delete (some record) with
              | error e => rfl
              | ok page =>
                  have hinstalled := Store.install_edited (h rfl frame rfl)
                    (Page.same_of_delete hdel)
                  simp only [hinstalled]

/-! ## What is changed was asked for in exclusive mode -/

/-- The task changes only what it asks for in exclusive mode. -/
def Task.Exclusive (task : Task) : Prop := task.stage.writes = true → task.mode = .exclusive

/-- What a task does next changes only what it asks for in exclusive mode. -/
def Next.Exclusive (n : Next) : Prop := ∀ ⦃task⦄, Task.ofNext n = some task → task.Exclusive

theorem Next.exclusive_answer (a : Answer) : (Next.answer a).Exclusive := by
  intro task h
  cases h

theorem Next.exclusive_ask {page : PageId} {mode : LockMode} {stage : Stage}
    (h : stage.writes = true → mode = .exclusive) : (Next.ask page mode stage).Exclusive := by
  rintro task ⟨rfl⟩
  exact h

theorem Scan.Stop.exclusive_next (number : Nat) (stop : Scan.Stop) :
    (stop.next number).Exclusive := by
  cases stop with
  | answered items scan => exact Next.exclusive_answer _
  | needs page wanted items scan => exact Next.exclusive_ask fun h => by cases h

theorem Insertion.exclusive_search (task : Insertion) (s : Store) (t : TransactionId)
    (page count : Nat) : (task.search s t page count).2.Exclusive := by
  rw [search]
  split
  · exact Next.exclusive_ask fun h => by cases h
  · exact Next.exclusive_ask fun _ => rfl

theorem Insertion.exclusive_begin (s : Store) (t : TransactionId) (table : TableId)
    (schema : Schema) (stored : List RecordId) (rows : List (List Field)) :
    (begin s t table schema stored rows).2.Exclusive := by
  cases rows with
  | nil => exact Next.exclusive_answer _
  | cons fields rows =>
      rw [begin]
      split
      · exact Next.exclusive_answer _
      · split
        · exact Next.exclusive_answer _
        · split
          · exact exclusive_search ..
          · exact Next.exclusive_answer _

theorem Request.exclusive_start (request : Request) (s : Store) (t : TransactionId) :
    (request.start s t).2.Exclusive := by
  simp only [Request.start]
  split
  · exact Next.exclusive_ask fun h => by cases h
  · exact Insertion.exclusive_begin ..
  · split
    · exact Next.exclusive_answer _
    · exact Insertion.exclusive_begin ..
  · exact Next.exclusive_answer _
  · split
    · exact Next.exclusive_answer _
    · exact Next.exclusive_ask fun _ => rfl
  · split
    · exact Next.exclusive_answer _
    · split
      · exact Next.exclusive_answer _
      · split
        · exact Next.exclusive_ask fun _ => rfl
        · exact Next.exclusive_answer _
  · exact Scan.Stop.exclusive_next ..

theorem Stage.exclusive_resume (stage : Stage) (s : Store) (t : TransactionId)
    (r : Except StoreError Frame) : (stage.resume s t r).2.Exclusive := by
  cases stage with
  | get => cases r <;> exact Next.exclusive_answer _
  | look task page count heldBefore =>
      cases r with
      | error e => exact Next.exclusive_answer _
      | ok frame =>
          rw [resume, Insertion.looked]
          split
          · exact Next.exclusive_ask fun _ => rfl
          · exact Insertion.exclusive_search ..
  | place task =>
      cases r with
      | error e => exact Next.exclusive_answer _
      | ok frame =>
          rw [resume, Insertion.place]
          split
          · exact Next.exclusive_answer _
          · exact Insertion.exclusive_begin ..
  | delete record answer =>
      cases r with
      | error e => exact Next.exclusive_answer _
      | ok frame =>
          rw [resume]
          split <;> exact Next.exclusive_answer _
  | feed number scan wanted items =>
      cases r <;> exact Scan.Stop.exclusive_next ..

end Tasks

/-! ## Runs -/

namespace Traffic

variable {s₀ : Store} {w w' : Traffic} {move : Move} {history events : List Event}
  {grips : List (TransactionId × Handle)} {rule : Ledger → Traffic → Move → Traffic → Prop}
  {free : Cache → Handle → Prop} {t : TransactionId} {task : Task}

/-- Every task changes only what it asks for in exclusive mode. -/
def Exclusive (w : Traffic) : Prop := ∀ ⦃t task⦄, w.tasks t = some task → task.Exclusive

namespace Exclusive

theorem turn (h : w.Exclusive) (t : TransactionId) (store : Store) {o : Option Task}
    (ho : ∀ ⦃task⦄, o = some task → task.Exclusive) : (w.turn t store o).Exclusive := by
  intro u task hu
  change (if u = t then o else w.tasks u) = some task at hu
  split at hu
  · exact ho hu
  · exact h hu

theorem submit (h : w.Exclusive) (ht : w.tasks t = some task) (source : TableFile) :
    (w.submit t task source).2.Exclusive := by
  cases hv : (w.store.locks.consider t { page := task.page, mode := task.mode }).1 with
  | waits =>
      have htask : task.Exclusive := h ht
      rw [w.submit_of_none task (PagedStore.submit_of_waits source task.stage hv).2]
      exact h.turn t _ (by rintro _ ⟨rfl⟩; exact htask)
  | refused =>
      rw [w.submit_of_some task (PagedStore.submit_of_refused source task.stage hv).2]
      exact h.turn t _ (task.stage.exclusive_resume ..)
  | granted =>
      rw [w.submit_of_some task (PagedStore.submit_of_granted source task.stage hv rfl).2]
      exact h.turn t _ (task.stage.exclusive_resume ..)

theorem step (h : w.Exclusive) (hs : w.step move = some (events, w')) : w'.Exclusive := by
  cases move with
  | start t request =>
      simp only [Traffic.step] at hs
      split at hs
      · cases hs
      · cases hs
        exact h.turn t _ (request.exclusive_start ..)
  | resume t =>
      obtain ⟨task, ht, hr⟩ := Option.map_eq_some_iff.1 hs
      obtain rfl : (w.resume t task).2 = w' := congrArg Prod.snd hr
      cases hsource : w.sourceOf task with
      | error e =>
          rw [resume_of_error hsource]
          exact h.turn t _ (task.stage.exclusive_resume ..)
      | ok source =>
          rw [resume_of_source hsource]
          exact h.submit ht source
  | flushPage page =>
      simp only [Traffic.step] at hs
      split at hs <;> cases hs <;> exact h
  | commit | abort | flushPages | flushAll | discard | release | replace =>
      cases hs
      exact h

end Exclusive

/-- Whatever moves are made, and whatever is done through handles, a task changes only what it
asks for in exclusive mode. -/
theorem exclusive_of_run (h : HandleRun rule free s₀ history w grips) : w.Exclusive := by
  induction h with
  | start =>
      intro t task ht
      cases ht
  | move _ _ hs ih => exact ih.step hs
  | write _ _ _ _ _ ih => exact ih

/-- After every run a task does the same with the page that it gets, whether what it changes is
installed or not. -/
theorem resumeAndInstall_of_run (h₀ : s₀.cache = ∅)
    (h : HandleRun rule free s₀ history w grips) (ht : w.tasks t = some task) (source : TableFile)
    (locks : LockTable) :
    let fetched := ({ w.store with locks } : Store).fetch t source task.page task.mode
    task.stage.resumeAndInstall fetched.2 t fetched.1 =
      task.stage.resume fetched.2 t fetched.1 := by
  have horder : ({ w.store with locks } : Store).InOrder := order_of_run h₀ h
  refine task.stage.resumeAndInstall_eq fun hwrites frame hframe => ?_
  rw [exclusive_of_run h ht hwrites] at hframe ⊢
  exact horder.taken_of_fetch hframe

end Traffic

end PagedStore

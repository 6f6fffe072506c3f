import PagedStore.Proofs.Placements
import PagedStore.Proofs.ScanProgress
import PagedStore.Proofs.SlotValues

/-!
# Pages that were found full

To find a slot for a row, an insertion looks at the pages of the file one by one, as many as there
were when it began with the row.  It may have to wait for each of them, and releases the full
ones at once.  If it finds no room it puts a new page at the end.

A page that is full when a transaction gets it stays full, unless a row of it is deleted or
the transaction is aborted (`Traffic.full_of_fetched`).  So when an insertion puts a new page at
the end of the file, every page that was there when it began with the row has been found full
since, and is full still, unless another transaction has deleted a row of it after the look
(`Traffic.full_of_added`).  The insertion does not look back at a page that it has passed, nor at
pages that others have put at the end in the meantime.  Either of them may have room.

This needs that no page is released early by a transaction that has fetched it for writing, and
that no page is dropped with changes on it.  Without the one or the other a page that was found
full may have room again though nobody has deleted a row of it (`Traffic.added_despite_room`).
-/

namespace PagedStore

open PageView (Replays)

variable {s : Store} {t u : TransactionId} {p id : PageId} {l : Ledger} {i : Insertion}
  {r : LockRequest} {stage next : Stage} {mode : LockMode}

/-! ## How far the search has got -/

/-- The insertion has passed so many pages of those that it is to look at.  It asks for the next
one, or, if there is none, for a new one in which the row is put. -/
inductive Insertion.GotTo (i : Insertion) (page count : Nat) (id : PageId) : Stage → Prop
  | looks (held : Bool) :
      id = { table := i.file.table, number := page } →
        GotTo i page count id (.look i page count held)
  | adds : count ≤ page → GotTo i page count id (.place i)

namespace Insertion

theorem gotTo_search {page count : Nat} (h : (i.search s t page count).2 = .ask id mode next) :
    i.GotTo page count id next := by
  rw [search] at h
  split at h
  · cases h
    exact .looks _ rfl
  · rename_i hcount
    cases h
    exact .adds (Nat.le_of_not_lt hcount)

theorem gotTo_begin {table : TableId} {schema : Schema} {stored : List RecordId}
    {rows : List (List Field)} (h : (begin s t table schema stored rows).2 = .ask id mode next)
    (hi : next.insertion? = some i) :
    i.stored = stored ∧ s.catalog.file i.table = .ok i.file ∧
      i.GotTo 0 (s.disk.pageCount i.file) id next := by
  cases rows with
  | nil => cases h
  | cons fields rows =>
      rw [begin] at h
      split at h
      · cases h
      · split at h
        · cases h
        · rename_i file hfile
          split at h
          · have hgot := gotTo_search h
            cases hgot <;> cases hi
            · exact ⟨rfl, hfile, gotTo_search h⟩
            · exact ⟨rfl, hfile, gotTo_search h⟩
          · cases h

end Insertion

/-- A scan that goes on asks for a page to read its rows. -/
theorem Scan.Stop.insertion?_next {number : Nat} {stop : Stop}
    (h : stop.next number = .ask id mode next) : next.insertion? = none := by
  cases stop with
  | answered => cases h
  | needs =>
      cases h
      rfl

theorem Request.gotTo_start {request : Request} (h : (request.start s t).2 = .ask id mode next)
    (hi : next.insertion? = some i) : i.GotTo 0 (s.disk.pageCount i.file) id next := by
  cases request with
  | getPage =>
      cases h
      cases hi
  | insert table schema rows =>
      cases schema with
      | some schema => exact (Insertion.gotTo_begin h hi).2.2
      | none =>
          rw [start] at h
          split at h
          · cases h
          · exact (Insertion.gotTo_begin h hi).2.2
  | delete record =>
      cases record with
      | none => cases h
      | some record =>
          rw [start] at h
          split at h <;> cases h
          cases hi
  | deleteFrom table record =>
      rw [start] at h
      split at h
      · cases h
      · cases record with
        | none => cases h
        | some record =>
            dsimp only at h
            split at h <;> cases h
            cases hi
  | pull number scan wanted =>
      rw [Scan.Stop.insertion?_next h] at hi
      cases hi

/-- The stage before one of an insertion got its page.  It was a look at the page, which has room or
is passed, or it put the row before into the page. -/
theorem Stage.gotTo_resume {result : Except StoreError Frame}
    (h : (stage.resume s t result).2 = .ask id mode next) (hi : next.insertion? = some i) :
    ∃ frame, result = .ok frame ∧
      ((∃ page count held, stage = .look i page count held ∧
          (id = frame.page.id ∧ next = .place i ∨
            none ∉ frame.page.content ∧ i.GotTo (page + 1) count id next)) ∨
        ∃ j record, stage = .place j ∧ i.stored = record :: j.stored ∧
          s.catalog.file i.table = .ok i.file ∧ i.GotTo 0 (s.disk.pageCount i.file) id next) := by
  cases result with
  | error e =>
      cases stage with
      | feed =>
          rw [Scan.Stop.insertion?_next h] at hi
          cases hi
      | _ => cases h
  | ok frame =>
      refine ⟨frame, rfl, ?_⟩
      cases stage with
      | get => cases h
      | delete record answer =>
          rw [resume] at h
          split at h <;> cases h
      | feed =>
          rw [Scan.Stop.insertion?_next h] at hi
          cases hi
      | look j page count held =>
          rw [resume, Insertion.looked] at h
          split at h
          · cases h
            cases hi
            exact Or.inl ⟨page, count, held, rfl, Or.inl ⟨rfl, rfl⟩⟩
          · rename_i hfull
            have hgot := Insertion.gotTo_search h
            have hj : j = i := by cases hgot <;> cases hi <;> rfl
            subst hj
            exact Or.inl ⟨page, count, held, rfl,
              Or.inr ⟨fun hm => hfull (Page.countFree_pos_iff.2 hm), hgot⟩⟩
      | place j =>
          rw [resume, Insertion.place] at h
          split at h
          · cases h
          · rename_i record page hinsert
            obtain ⟨hstored, hfile, hgot⟩ := Insertion.gotTo_begin h hi
            exact Or.inr ⟨j, record, rfl, hstored, hfile, hgot⟩

/-! ## Steps of an insertion -/

namespace Traffic

variable {s₀ : Store} {w₀ w wb w' : Traffic} {move : Move}
  {earlier begun since history events later : List Event} {task : Task} {copy : Page}

/-- The transaction is at the insertion of this row. -/
def Inserts (w : Traffic) (t : TransactionId) (i : Insertion) : Prop :=
  ∃ task, w.tasks t = some task ∧ task.stage.insertion? = some i

/-- A devoted move, after which the transaction is at the insertion of this row. -/
def Busy (t : TransactionId) (i : Insertion) (l : Ledger) (w : Traffic) (move : Move)
    (w' : Traffic) : Prop :=
  Devoted t l w move w' ∧ w'.Inserts t i

/-- How a transaction came to the page for which its insertion asks after a move. -/
inductive Came (t : TransactionId) (i : Insertion) (w : Traffic) (events : List Event)
    (task' : Task) : Prop
  /-- It is at the same page as before.  If it was looking, it may have found room there. -/
  | keeps {task : Task} :
      w.tasks t = some task → task.stage.insertion? = some i → task'.page = task.page →
        task'.stage = task.stage ∨ task'.stage = .place i → Came t i w events task'
  /-- It has got the page before, and found it full. -/
  | passes {task : Task} {page count : Nat} {held : Bool} {mode : LockMode} {copy : Page} :
      w.tasks t = some task → task.stage = .look i page count held →
        .fetched t task.page mode copy ∈ events → none ∉ copy.content →
          i.GotTo (page + 1) count task'.page task'.stage → Came t i w events task'
  /-- It has begun with the row.  If it had a task, it has put the row before into a page. -/
  | begins {count : Nat} :
      (∀ ⦃task⦄, w.tasks t = some task →
          ∃ j record, task.stage = .place j ∧ i.stored = record :: j.stored) →
        w.store.disk.pageCount i.file ≤ count → i.GotTo 0 count task'.page task'.stage →
          Came t i w events task'

/-- Its task was an insertion before, if it had one. -/
theorem Came.insertion?_ne_none {task' : Task} (h : Came t i w events task')
    (ht : w.tasks t = some task) : task.stage.insertion? ≠ none := by
  cases h with
  | keeps ht₀ hi =>
      cases ht.symm.trans ht₀
      rw [hi]
      exact Option.some_ne_none _
  | passes ht₀ hstage =>
      cases ht.symm.trans ht₀
      rw [hstage]
      exact Option.some_ne_none _
  | begins hbefore =>
      obtain ⟨j, -, hstage, -⟩ := hbefore ht
      rw [hstage]
      exact Option.some_ne_none _

theorem came_of_same {task' : Task} (hsame : w'.tasks t = w.tasks t)
    (ht : w'.tasks t = some task') (hi : task'.stage.insertion? = some i) :
    Came t i w events task' :=
  .keeps (hsame ▸ ht) hi rfl (Or.inl rfl)

/-- What a task does after it got its page. -/
theorem came_of_given {task' : Task} {s₁ : Store} {frame : Frame} {l' : Ledger}
    (ht : w.tasks t = some task) (hs₁ : s₁.Follows l') (hg : Store.Grew w.store s₁)
    (hp : s₁.cache.page? task.page = some frame.page)
    (hm : .fetched t task.page task.mode frame.page ∈ events)
    (hnext : (task.stage.resume s₁ t (.ok frame)).2 = .ask task'.page mode task'.stage)
    (hi : task'.stage.insertion? = some i) : Came t i w events task' := by
  obtain ⟨_, ⟨⟩, hcases⟩ := Stage.gotTo_resume hnext hi
  rcases hcases with
    ⟨page, count, held, hstage, hlooked⟩ | ⟨j, record, hstage, hstored, hfile, hgot⟩
  · rcases hlooked with ⟨hid, hplace⟩ | ⟨hfull, hgot⟩
    · have hpage : frame.page.id = task.page := ((hs₁.view task.page).fits hp).id
      exact .keeps ht (by rw [hstage]; rfl) (hid.trans hpage) (Or.inr hplace)
    · exact .passes ht hstage hm hfull hgot
  · have hnumbered := hs₁.numbered { table := i.table, number := 0 } hfile
    refine .begins (fun task₀ ht₀ => ?_) (Disk.pageCount_le hnumbered hg.grows) hgot
    cases ht.symm.trans ht₀
    exact ⟨j, record, hstage, hstored⟩

theorem came_of_submit {source : TableFile} {task' : Task} (h : ∀ p, w.SoundAt p l)
    (ht : w.tasks t = some task) (hsource : w.sourceOf task = .ok source)
    (ht' : (w.submit t task source).2.tasks t = some task')
    (hi : task'.stage.insertion? = some i) :
    Came t i w (w.submit t task source).1 task' := by
  rw [submit_eq_turn] at ht'
  have ht' := (if_pos rfl).symm.trans ht'
  show Came t i w (submitEvents w.store t source { page := task.page, mode := task.mode }
    task.stage) task'
  cases hnext : (PagedStore.submit w.store t source { page := task.page, mode := task.mode }
      task.stage).1 with
  | none =>
      rw [hnext] at ht'
      cases ht'
      exact .keeps ht hi rfl (Or.inl rfl)
  | some n =>
      rw [hnext] at ht'
      obtain ⟨mode, rfl⟩ : ∃ mode, n = .ask task'.page mode task'.stage := by
        cases n with
        | answer => cases ht'
        | ask =>
            cases ht'
            exact ⟨_, rfl⟩
      cases hv : (w.store.locks.consider t { page := task.page, mode := task.mode }).1 with
      | waits =>
          rw [(submit_of_waits source task.stage hv).2] at hnext
          cases hnext
      | refused =>
          rw [(submit_of_refused source task.stage hv).2] at hnext
          obtain ⟨frame, he, -⟩ := Stage.gotTo_resume (Option.some.inj hnext) hi
          cases he
      | granted =>
          obtain ⟨hevents, hsub⟩ := submit_of_granted source task.stage hv rfl
          rw [hsub] at hnext
          rw [hevents]
          rcases (SoundAt.storeFollows h).granted_fetch
            ((h task.page).file_of_sourceOf ht hsource) hv with
            ⟨e, -, hfetch⟩ | ⟨s₁, frame, l', hs₁, hg, -, hp, -, hfetch⟩
          · rw [hfetch] at hnext
            obtain ⟨frame, he, -⟩ := Stage.gotTo_resume (Option.some.inj hnext) hi
            cases he
          · rw [hfetch] at hnext ⊢
            exact came_of_given ht hs₁ hg hp (List.mem_append_right _ List.mem_cons_self)
              (Option.some.inj hnext) hi

theorem came_of_resume {task' : Task} (h : ∀ p, w.SoundAt p l) (ht : w.tasks t = some task)
    (ht' : (w.resume t task).2.tasks t = some task') (hi : task'.stage.insertion? = some i) :
    Came t i w (w.resume t task).1 task' := by
  cases hsource : w.sourceOf task with
  | error e =>
      rw [resume_of_error hsource] at ht'
      have ht' := (if_pos rfl).symm.trans ht'
      cases hnext : (task.stage.resume w.store t (.error e)).2 with
      | answer a =>
          rw [hnext] at ht'
          cases ht'
      | ask id mode next =>
          rw [hnext] at ht'
          cases ht'
          obtain ⟨frame, he, -⟩ := Stage.gotTo_resume hnext hi
          cases he
  | ok source =>
      rw [resume_of_source hsource] at ht' ⊢
      exact came_of_submit h ht hsource ht' hi

/-- There is no other way to come to a page. -/
theorem came_of_step {task' : Task} (h : ∀ p, w.SoundAt p l)
    (hs : w.step move = some (events, w')) (ht : w'.tasks t = some task')
    (hi : task'.stage.insertion? = some i) : Came t i w events task' := by
  by_cases hown : move.transaction? = some t
  · cases move with
    | start v request =>
        cases hown
        simp only [step] at hs
        split at hs
        · cases hs
        · rename_i hidle
          cases hs
          have ht := (if_pos rfl).symm.trans ht
          cases hnext : (request.start w.store t).2 with
          | answer a =>
              rw [hnext] at ht
              cases ht
          | ask id mode next =>
              rw [hnext] at ht
              cases ht
              refine .begins (fun task htask => ?_) (Nat.le_refl _) (Request.gotTo_start hnext hi)
              rw [hidle] at htask
              cases htask
    | resume v =>
        cases hown
        obtain ⟨task, htask, hresume⟩ := Option.map_eq_some_iff.1 hs
        have hevents : (w.resume t task).1 = events := congrArg Prod.fst hresume
        have hafter : (w.resume t task).2 = w' := congrArg Prod.snd hresume
        exact hevents ▸ came_of_resume h htask (hafter ▸ ht) hi
    | commit | abort =>
        cases hs
        exact came_of_same rfl ht hi
    | flushPage | flushPages | flushAll | discard | release | replace => cases hown
  · exact came_of_same (tasks_of_other hs fun v hv he => hown (he ▸ hv)) ht hi

/-! ## What a busy transaction does not do -/

/-- While a transaction inserts a row it is not aborted and deletes none. -/
theorem Busy.harmless (hb : Busy t i l w move w') (h : ∀ p, w.SoundAt p l)
    (hs : w.step move = some (events, w')) :
    .aborted t ∉ events ∧ ∀ record, .changed t (.delete record) ∉ events := by
  obtain ⟨hdevoted, task', ht', hi⟩ := hb
  have hcame := came_of_step h hs ht' hi
  constructor
  · intro hm
    obtain rfl := abort_of_aborted hs hm
    have hnone := hdevoted.2 (decide_eq_true rfl)
    cases hs
    rw [hnone ht'] at hi
    cases hi
  · intro record hm
    obtain rfl := resume_of_changed hs hm
    obtain ⟨task, htask, hresume⟩ := Option.map_eq_some_iff.1 hs
    have hm : .changed t (.delete record) ∈ (w.resume t task).1 := by
      rw [hresume]
      exact hm
    obtain ⟨-, -, frame, -, -, -, hchange⟩ := granted_of_changed hm
    refine hcame.insertion?_ne_none htask ?_
    cases hstage : task.stage with
    | delete => rfl
    | place j =>
        rw [hstage, Stage.change?] at hchange
        split at hchange <;> cases hchange
    | get | look | feed =>
        rw [hstage] at hchange
        cases hchange

theorem harmless_of_runOn (h₀ : Fresh s₀) (h : Run Orderly s₀ begun wb)
    (hon : RunOn (Busy t i) begun wb history w) (hn : ∀ p, w.store.NumberedAt p) :
    ∃ since, history = begun ++ since ∧ .aborted t ∉ since ∧
      ∀ record, .changed t (.delete record) ∉ since := by
  induction hon with
  | start => exact ⟨[], (List.append_nil _).symm, List.not_mem_nil, fun _ => List.not_mem_nil⟩
  | step hon hb hs ih =>
      have hnow := fun p => (grew_of_step hb.1.1 hs).numberedAt (hn p)
      obtain ⟨since, rfl, ha, hd⟩ := ih hnow
      have hsound := fun p => soundAt_of_orderly h₀ (h.on hon fun hb => hb.1.1) (hnow p)
      obtain ⟨ha', hd'⟩ := hb.harmless hsound hs
      refine ⟨_, List.append_assoc .., fun hm => ?_, fun record hm => ?_⟩
      · exact (List.mem_append.1 hm).elim ha ha'
      · exact (List.mem_append.1 hm).elim (hd record) (hd' record)

/-! ## Pages stay full -/

/-- What is full when a transaction is given it is full from then on, unless a row is deleted there
or the transaction is aborted. -/
theorem full_of_fetched (h₀ : Fresh s₀) (h : Run Orderly s₀ history w)
    (hn : ∀ p, w.store.NumberedAt p)
    (he : history = earlier ++ .fetched t p mode copy :: later) (hfull : none ∉ copy.content)
    (ha : .aborted t ∉ later)
    (hd : ∀ ⦃u record⦄, record.page = p → .changed u (.delete record) ∉ later) :
    (w.store.view p).Full := by
  obtain ⟨first, hfirst, hslots⟩ := holds_of_fetched h₀ h hn he
  have hagrees := (soundAt_of_orderly h₀ h (hn p)).agrees
  obtain ⟨c, hc, hgood⟩ := ((replays_of_orderly h₀ h hn).2 p).holds (t := t) hagrees hfirst
  refine ⟨c, hc, fun hm => ?_⟩
  obtain ⟨slot, hslot⟩ := List.mem_iff_getElem?.1 hm
  refine hgood (Q := (· ≠ none)) (fun x hx => ?_) hslot rfl
  obtain ⟨hvalue, hholds⟩ := hslots slot
  rw [hx, Option.map_some] at hvalue
  have hbefore := hholds (Q := (· ≠ none)) fun hnone => hfull (by
    rw [hnone] at hvalue
    exact List.mem_iff_getElem?.2 ⟨slot, hvalue⟩)
  rw [he, Ledger.of_append]
  refine hbefore.after (fun u change hm y hy hnone => ?_) fun v hv hm => ?_
  · -- A change that leaves a slot free is the deletion of a row.
    subst hnone
    cases change with
    | insert r fields =>
        simp only [Change.leaves?] at hy
        split at hy <;> cases hy
    | delete r =>
        simp only [Change.leaves?] at hy
        split at hy
        · rename_i hr
          rcases List.mem_cons.1 hm with he | hm
          · cases he
          · exact hd (congrArg RecordId.page hr) hm
        · cases hy
  · cases hv
    rcases List.mem_cons.1 hm with he | hm
    · cases he
    · exact ha hm

/-! ## The search for a slot -/

/-- The transaction was given the page, and found it full. -/
def FoundFull (t : TransactionId) (p : PageId) (events : List Event) : Prop :=
  ∃ before mode copy after,
    events = before ++ .fetched t p mode copy :: after ∧ none ∉ copy.content

theorem FoundFull.append_right (h : FoundFull t p since) (events : List Event) :
    FoundFull t p (since ++ events) := by
  obtain ⟨before, mode, copy, after, rfl, hfull⟩ := h
  exact ⟨before, mode, copy, after ++ events, List.append_assoc .., hfull⟩

theorem FoundFull.append_left (h : FoundFull t p events) (since : List Event) :
    FoundFull t p (since ++ events) := by
  obtain ⟨before, mode, copy, after, rfl, hfull⟩ := h
  exact ⟨since ++ before, mode, copy, after, (List.append_assoc ..).symm, hfull⟩

/-- The transaction has begun with a row at a point of a run, and has passed so many pages since.
They are among those that were there when it began, or all of them. -/
structure Search (t : TransactionId) (i : Insertion) (earlier : List Event) (w₀ : Traffic)
    (begun since : List Event) (wb w : Traffic) (page count : Nat) : Prop where
  before : RunOn (Devoted t) earlier w₀ begun wb
  idle : ¬ wb.Inserts t i
  busy : RunOn (Busy t i) begun wb (begun ++ since) w
  counted : wb.store.disk.pageCount i.file ≤ count
  found : ∀ number < page, FoundFull t { table := i.file.table, number } since

namespace Search

variable {page count : Nat}

theorem step (h : Search t i earlier w₀ begun since wb w page count)
    (hb : Busy t i (Ledger.of (begun ++ since)) w move w') (hs : w.step move = some (events, w')) :
    Search t i earlier w₀ begun (since ++ events) wb w' page count :=
  { h with
    busy := List.append_assoc .. ▸ h.busy.step hb hs
    found := fun number hlt => (h.found number hlt).append_right events }

/-- One more page is full. -/
theorem succ (h : Search t i earlier w₀ begun (since ++ events) wb w page count)
    (hfull : FoundFull t { table := i.file.table, number := page } events) :
    Search t i earlier w₀ begun (since ++ events) wb w (page + 1) count :=
  { h with
    found := fun number hlt => by
      rcases Nat.lt_succ_iff_lt_or_eq.1 hlt with hlt | rfl
      · exact h.found number hlt
      · exact hfull.append_left since }

end Search

/-- A transaction that looks at a page has found all pages before it full. -/
def Searches (t : TransactionId) (earlier : List Event) (w₀ : Traffic) (history : List Event)
    (w : Traffic) : Prop :=
  ∀ ⦃task i page count held⦄, w.tasks t = some task → task.stage = .look i page count held →
    task.page = { table := i.file.table, number := page } ∧
      ∃ begun since wb, begun ++ since = history ∧
        Search t i earlier w₀ begun since wb w page count

theorem Searches.step_of_came {task' : Task} (h : Searches t earlier w₀ history w)
    (hon : RunOn (Devoted t) earlier w₀ history w) (hr : Devoted t (Ledger.of history) w move w')
    (hs : w.step move = some (events, w')) (ht : w'.tasks t = some task')
    (hi : task'.stage.insertion? = some i) (hcame : Came t i w events task') :
    (∃ task, w.tasks t = some task ∧ task.stage.insertion? = some i ∧ task'.page = task.page ∧
        (task'.stage = task.stage ∨ task'.stage = .place i)) ∨
      ∃ page count begun since wb, i.GotTo page count task'.page task'.stage ∧
        begun ++ since = history ++ events ∧
          Search t i earlier w₀ begun since wb w' page count := by
  have hinserts : w'.Inserts t i := ⟨task', ht, hi⟩
  cases hcame with
  | keeps ht₀ hi₀ hpage hstage => exact Or.inl ⟨_, ht₀, hi₀, hpage, hstage⟩
  | @passes task page count held mode copy ht₀ hstage hm hfull hgot =>
      obtain ⟨hpage, begun, since, wb, rfl, hsearch⟩ := h ht₀ hstage
      obtain ⟨es, es', rfl⟩ := List.append_of_mem hm
      have hfound : FoundFull t { table := i.file.table, number := page }
          (es ++ .fetched t task.page mode copy :: es') :=
        ⟨es, mode, copy, es', by rw [hpage], hfull⟩
      exact Or.inr ⟨page + 1, count, begun, _, wb, hgot, (List.append_assoc ..).symm,
        (hsearch.step ⟨hr, hinserts⟩ hs).succ hfound⟩
  | @begins count hbefore hcount hgot =>
      refine Or.inr ⟨0, count, history, events, w, hgot, rfl, hon, fun hin => ?_,
        RunOn.start.step ⟨hr, hinserts⟩ hs, hcount, fun number hlt => absurd hlt number.not_lt_zero⟩
      -- The row before is among those that are stored.
      obtain ⟨task, htask, hsame⟩ := hin
      obtain ⟨j, record, hstage, hstored⟩ := hbefore htask
      rw [hstage] at hsame
      cases hsame
      exact List.cons_ne_self _ _ hstored.symm

theorem searches_of_runOn (h₀ : Fresh s₀) (h : Run Orderly s₀ earlier w₀)
    (hidle : w₀.tasks t = none) (hon : RunOn (Devoted t) earlier w₀ history w)
    (hn : ∀ p, w.store.NumberedAt p) : Searches t earlier w₀ history w := by
  induction hon with
  | start =>
      intro task i page count held ht
      rw [hidle] at ht
      cases ht
  | step hon hr hs ih =>
      have hnow := fun p => (grew_of_step hr.1 hs).numberedAt (hn p)
      have hsound := fun p => soundAt_of_orderly h₀ (h.on hon And.left) (hnow p)
      intro task' i page count held ht hstage
      have hi : task'.stage.insertion? = some i := by rw [hstage]; rfl
      rcases (ih hnow).step_of_came hon hr hs ht hi (came_of_step hsound hs ht hi) with
        ⟨task, ht₀, -, hpage, hsame | hplace⟩ | ⟨page', count', begun, since, wb, hgot, he, hsearch⟩
      · obtain ⟨hat, begun, since, wb, rfl, hsearch⟩ := ih hnow ht₀ (hsame.symm.trans hstage)
        exact ⟨hpage.trans hat, begun, _, wb, (List.append_assoc ..).symm,
          hsearch.step ⟨hr, task', ht, hi⟩ hs⟩
      · rw [hstage] at hplace
        cases hplace
      · rw [hstage] at hgot
        cases hgot with
        | looks _ hat => exact ⟨hat, begun, since, wb, he, hsearch⟩

/-! ## New pages -/

/-- An insertion has put a new page at the end of a file: after the move its row is to be put into
a page that was not there.  Take the point at which it began with the row.  Each page that the
file had there was full when the transaction was given it since, and it is full now, unless another
transaction has deleted a row of it in between.  No page is released early that was fetched for
writing, none is dropped with changes, and every table has fewer than `2 ^ 32` pages. -/
theorem full_of_added (h₀ : Fresh s₀) (h : Run Orderly s₀ earlier w₀) (hidle : w₀.tasks t = none)
    (hon : RunOn (Devoted t) earlier w₀ history w) (hr : Devoted t (Ledger.of history) w move w')
    (hs : w.step move = some (events, w')) (hn : ∀ p, w'.store.NumberedAt p)
    (ht : w'.tasks t = some task) (hplace : task.stage = .place i)
    (hnew : (w.store.view task.page).image = none) :
    ∃ begun since wb, begun ++ since = history ++ events ∧
      RunOn (Devoted t) earlier w₀ begun wb ∧ ¬ wb.Inserts t i ∧
        RunOn (Busy t i) begun wb (begun ++ since) w' ∧
          ∀ number < wb.store.disk.pageCount i.file,
            ∃ before mode copy after,
              since = before ++
                  .fetched t { table := i.file.table, number } mode copy :: after ∧
                none ∉ copy.content ∧
                  ((w'.store.view { table := i.file.table, number }).Full ∨
                    ∃ u record, u ≠ t ∧ record.page = { table := i.file.table, number } ∧
                      .changed u (.delete record) ∈ after) := by
  have hnow := fun p => (grew_of_step hr.1 hs).numberedAt (hn p)
  have hrun : Run Orderly s₀ history w := h.on hon And.left
  have hsound := fun p => soundAt_of_orderly h₀ hrun (hnow p)
  have hi : task.stage.insertion? = some i := by rw [hplace]; rfl
  have hsearches := searches_of_runOn h₀ h hidle hon hnow
  rcases hsearches.step_of_came hon hr hs ht hi (came_of_step hsound hs ht hi) with
    ⟨task₀, ht₀, hi₀, hpage, -⟩ | ⟨page, count, begun, since, wb, hgot, he, hsearch⟩
  · -- A page that the insertion had asked for before was there.
    have hapt := (aptFor_of_runOn h₀ h hidle hon hnow).tasks ht₀ hi₀
    exact absurd (hpage ▸ hnew) hapt.image
  · refine ⟨begun, since, wb, he, hsearch.before, hsearch.idle, hsearch.busy, fun number hlt => ?_⟩
    have hcount : count ≤ page := by
      rw [hplace] at hgot
      cases hgot with
      | adds hcount => exact hcount
    have hpassed : number < page :=
      Nat.lt_of_lt_of_le hlt (Nat.le_trans hsearch.counted hcount)
    obtain ⟨before, mode, copy, after, rfl, hfull⟩ := hsearch.found number hpassed
    refine ⟨before, mode, copy, after, rfl, hfull, ?_⟩
    have hbegun : Run Orderly s₀ begun wb := h.on hsearch.before And.left
    obtain ⟨since, hsince, ha, hd⟩ := harmless_of_runOn h₀ hbegun hsearch.busy hn
    obtain rfl := List.append_cancel_left hsince
    by_cases hdeleted : ∃ u record, u ≠ t ∧ record.page = { table := i.file.table, number } ∧
        .changed u (.delete record) ∈ after
    · exact Or.inr hdeleted
    · refine Or.inl (full_of_fetched h₀ (hbegun.on hsearch.busy fun hb => hb.1.1) hn
        (List.append_assoc ..).symm hfull (fun hm => ha ?_) fun u record hp hm => ?_)
      · exact List.mem_append_right _ (List.mem_cons_of_mem _ hm)
      · by_cases hu : u = t
        · subst hu
          exact hd record (List.mem_append_right _ (List.mem_cons_of_mem _ hm))
        · exact hdeleted ⟨u, record, hu, hp, hm⟩

namespace Small

/-- A transaction looks for a slot, and waits at the last page, which another one has locked.  That
one puts a page at the end with a row of its own, and is aborted.  Then a third one deletes the row
on the first page and commits. -/
def overtaken : List Move :=
  [.start ⟨2⟩ (.getPage (page 2) .exclusive), .resume ⟨2⟩,
   .start ⟨1⟩ (.insert ⟨1⟩ none [[.int 7]]), .resume ⟨1⟩, .resume ⟨1⟩, .resume ⟨1⟩,
   .start ⟨2⟩ (.insert ⟨1⟩ none [[.int 8]]), .resume ⟨2⟩, .resume ⟨2⟩, .resume ⟨2⟩, .resume ⟨2⟩,
   .abort ⟨2⟩, .start ⟨3⟩ (.delete (record 0)), .resume ⟨3⟩, .commit ⟨3⟩]

/-- What comes of it when the first transaction goes on. -/
def goneOn : List Event × Traffic :=
  ((after overtaken).2.step (.resume ⟨1⟩)).getD ([], { store })

/-- The row is to be put into a new page. -/
def placingNew : Task := { page := page 4, mode := .exclusive, stage := .place insertion }

theorem runOn_overtaken :
    RunOn (Devoted ⟨1⟩) [] { store } (after overtaken).1 (after overtaken).2 := by
  have hmoves : ∀ move ∈ overtaken, move.isPlain = true ∧ move.quits ⟨1⟩ = false := by decide
  have hsteps : (({ store } : Traffic).steps overtaken).isSome = true := by decide +kernel
  exact RunOn.start.steps
    (fun move hm _ _ _ => devoted_of_isPlain (hmoves move hm).1 (hmoves move hm).2)
    (eq_some_getD hsteps _)

theorem step_overtaken : (after overtaken).2.step (.resume ⟨1⟩) = some goneOn := by
  have hstep : ((after overtaken).2.step (.resume ⟨1⟩)).isSome = true := by decide +kernel
  exact eq_some_getD hstep _

end Small

theorem full_of_added_small :
    Small.goneOn.2.tasks ⟨1⟩ = some Small.placingNew ∧
      ((Small.after Small.overtaken).2.store.view (Small.page 4)).image = none ∧
        ∃ begun since, ∃ wb : Traffic,
          begun ++ since = (Small.after Small.overtaken).1 ++ Small.goneOn.1 ∧
          ¬ wb.Inserts ⟨1⟩ Small.insertion ∧
            ∀ number < wb.store.disk.pageCount Small.file,
              ∃ before mode copy after,
                since = before ++ .fetched ⟨1⟩ (Small.page number) mode copy :: after ∧
                  none ∉ copy.content ∧
                    ((Small.goneOn.2.store.view (Small.page number)).Full ∨
                      ∃ u record, u ≠ ⟨1⟩ ∧ record.page = Small.page number ∧
                        .changed u (.delete record) ∈ after) := by
  have htask : Small.goneOn.2.tasks ⟨1⟩ = some Small.placingNew := by decide +kernel
  have hnew : ((Small.after Small.overtaken).2.store.view (Small.page 4)).image = none := by
    decide +kernel
  have hdevoted : Devoted ⟨1⟩ (Ledger.of (Small.after Small.overtaken).1)
      (Small.after Small.overtaken).2 (.resume ⟨1⟩) Small.goneOn.2 := devoted_of_isPlain rfl rfl
  obtain ⟨begun, since, wb, he, -, hidle, -, hpages⟩ :=
    full_of_added Small.fresh .start rfl Small.runOn_overtaken hdevoted Small.step_overtaken
      (Small.numberedAt (by decide +kernel) (by decide +kernel)) htask rfl hnew
  exact ⟨htask, hnew, begun, since, wb, he, hidle, hpages⟩

namespace Small

/-- A row of the first page is deleted, and then a transaction locks the second page. -/
def setting : List Move :=
  [.start ⟨3⟩ (.delete (record 0)), .resume ⟨3⟩, .commit ⟨3⟩,
   .start ⟨2⟩ (.getPage (page 1) .exclusive), .resume ⟨2⟩]

/-- A transaction puts a row into the first page, and releases the page at once.  Another one finds
it full, and waits at the second page.  Then the first one is aborted. -/
def releasedFull : List Move :=
  [.start ⟨4⟩ (.insert ⟨1⟩ none [[.int 9]]), .resume ⟨4⟩, .resume ⟨4⟩, .release ⟨4⟩ (page 0),
   .start ⟨1⟩ (.insert ⟨1⟩ none [[.int 7]]), .resume ⟨1⟩, .resume ⟨1⟩,
   .abort ⟨4⟩, .commit ⟨2⟩, .resume ⟨1⟩]

/-- A transaction puts a row into the first page.  With the next row it finds the page full, and
waits at the second page.  Then the first page is dropped. -/
def droppedFull : List Move :=
  [.start ⟨1⟩ (.insert ⟨1⟩ none [[.int 9], [.int 7]]), .resume ⟨1⟩, .resume ⟨1⟩, .resume ⟨1⟩,
   .resume ⟨1⟩, .discard (page 0), .commit ⟨2⟩, .resume ⟨1⟩]

/-- No row is deleted. -/
def keepsRows (events : List Event) : Bool :=
  events.all fun
    | .changed _ (.delete _) => false
    | _ => true

/-- After these moves a transaction goes on, and puts a fourth page at the end of the file.  The
first page has room, and no row was deleted there since the setting. -/
structure AddsDespiteRoom (moves : List Move) : Prop where
  ran : ({ store } : Traffic).steps (setting ++ moves ++ [.resume ⟨1⟩]) =
    some (after (setting ++ moves ++ [.resume ⟨1⟩]))
  full : (after (setting ++ moves)).2.store.disk.pageCount file = 3
  added : (after (setting ++ moves ++ [.resume ⟨1⟩])).2.store.disk.pageCount file = 4
  kept : keepsRows ((after (setting ++ moves ++ [.resume ⟨1⟩])).1.drop (after setting).1.length) =
    true
  room : ((after (setting ++ moves ++ [.resume ⟨1⟩])).2.store.view (page 0)).content = some [none]

theorem addsDespiteRoom_releasedFull : AddsDespiteRoom releasedFull where
  ran := eq_some_getD (by decide +kernel) _
  full := by decide +kernel
  added := by decide +kernel
  kept := by decide +kernel
  room := by decide +kernel

theorem addsDespiteRoom_droppedFull : AddsDespiteRoom droppedFull where
  ran := eq_some_getD (by decide +kernel) _
  full := by decide +kernel
  added := by decide +kernel
  kept := by decide +kernel
  room := by decide +kernel

end Small

/-- An insertion that has passed a page, and waits, does not see that a row is deleted there.  Nor
does it look at a page that was put at the end of the file in the meantime.  It puts a new page
after that one though both have room.  A page that it has found full also has room again if the row
was put there by a transaction that has released the page early and is aborted, or if the page is
dropped with the row on it. -/
theorem added_despite_room :
    (RunOn (Devoted ⟨1⟩) [] { store := Small.store } (Small.after Small.overtaken).1
        (Small.after Small.overtaken).2 ∧
      (Small.after Small.overtaken).2.step (.resume ⟨1⟩) = some Small.goneOn ∧
        (Small.after Small.overtaken).2.store.disk.pageCount Small.file = 4 ∧
          Small.goneOn.2.store.disk.pageCount Small.file = 5 ∧
            Small.goneOn.2.tasks ⟨1⟩ = some Small.placingNew ∧
              (Small.goneOn.2.store.view (Small.page 0)).content = some [none] ∧
                (Small.goneOn.2.store.view (Small.page 3)).content = some [none]) ∧
      Small.AddsDespiteRoom Small.releasedFull ∧ Small.AddsDespiteRoom Small.droppedFull :=
  ⟨⟨Small.runOn_overtaken, Small.step_overtaken, by decide +kernel, by decide +kernel,
    by decide +kernel, by decide +kernel, by decide +kernel⟩,
    Small.addsDespiteRoom_releasedFull, Small.addsDespiteRoom_droppedFull⟩

end Traffic

end PagedStore

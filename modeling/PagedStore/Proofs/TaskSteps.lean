import PagedStore.Proofs.Agreement
import PagedStore.Proofs.QuietSteps
import PagedStore.Proofs.Traffic

/-!
# What tasks do to a page

A stage of a task changes the page that it gets, releases it again, or puts a new page
at the end of a file.  Seen from one page each of these is a sequence of turns, and the
ledger gets the events (`Store.MovesAt`).

This needs that a task is *sound* (`Task.SoundAt`): it writes only a page that it has
asked for in exclusive mode, it releases a page only if its transaction has not written
it, and the files that it remembers are those of the catalog.
-/

namespace PagedStore

open PageView (Turn Turns Agrees)

namespace Store

variable {p : PageId} {l l' l'' : Ledger} {s s' s'' : Store}

/-- Seen from a page, the store comes from one state to another in turns. -/
structure MovesAt (p : PageId) (l : Ledger) (s : Store) (l' : Ledger) (s' : Store) : Prop where
  catalog : s'.catalog = s.catalog
  grows : s.disk.Grows s'.disk
  sound : s.Sound → s'.Sound
  turns : s.Sound → s'.NumberedAt p → Turns (l, s.view p) (l', s'.view p)

theorem QuietAt.moves (h : QuietAt p s s') (l : Ledger) : MovesAt p l s l s' :=
  ⟨h.catalog, h.grows, h.sound, fun hs hn => h.turns hs hn l⟩

namespace MovesAt

theorem refl (p : PageId) (l : Ledger) (s : Store) : MovesAt p l s l s := (QuietAt.refl p s).moves l

theorem trans (h : MovesAt p l s l' s') (h' : MovesAt p l' s' l'' s'') : MovesAt p l s l'' s'' where
  catalog := h'.catalog.trans h.catalog
  grows := h.grows.trans h'.grows
  sound hs := h'.sound (h.sound hs)
  turns hs hn :=
    (h.turns hs (hn.of_grows h'.catalog h'.grows)).trans (h'.turns (h.sound hs) hn)

theorem file_view (h : MovesAt p l s l' s') : (s'.view p).file = (s.view p).file := by
  rw [view, view, h.catalog]

theorem agrees (h : MovesAt p l s l' s') (hs : s.Sound) (hn : s'.NumberedAt p)
    (ha : Agrees l (s.view p)) : Agrees l' (s'.view p) :=
  Agrees.turns (h.turns hs hn) ha

end MovesAt

end Store

/-! ## Sound tasks -/

/-- The insertion that a stage is about. -/
def Stage.insertion? : Stage → Option Insertion
  | .look task .. | .place task => some task
  | _ => none

/-- The stage changes the page. -/
def Stage.writes : Stage → Bool
  | .place _ | .delete .. => true
  | _ => false

/-- The stage releases the page if it is full. -/
def Stage.releases : Stage → Bool
  | .look _ _ _ heldBefore => !heldBefore
  | _ => false

/-- The row is valid, and the file is not another one of the same name than that of a
page. -/
structure Insertion.SoundAt (file : Option TableFile) (task : Insertion) : Prop where
  row : task.row.Valid
  file : ∀ ⦃f⦄, file = some f → task.file.name = f.name → task.file = f

/-- The task keeps to what it has asked for. -/
structure Task.SoundAt (p : PageId) (file : Option TableFile) (l : Ledger) (t : TransactionId)
    (task : Task) : Prop where
  source : task.page = p → ∀ ⦃f⦄, task.source = some f → file = some f
  insertion : ∀ ⦃i⦄, task.stage.insertion? = some i → i.SoundAt file
  writes : task.stage.writes = true → task.mode = .exclusive
  releases : task.page = p → task.stage.releases = true → task.mode = .shared ∧ l.wrote t p = false

/-- What a task does next is sound. -/
def Next.SoundAt (p : PageId) (file : Option TableFile) (l : Ledger) (t : TransactionId)
    (n : Next) : Prop :=
  ∀ ⦃task⦄, Task.ofNext n = some task → task.SoundAt p file l t

theorem Next.soundAt_answer (p : PageId) (file : Option TableFile) (l : Ledger)
    (t : TransactionId) (a : Answer) : (Next.answer a).SoundAt p file l t := by
  intro task h
  cases h

variable {p : PageId} {file : Option TableFile} {l : Ledger} {t : TransactionId} {s : Store}

/-- A page that is only read may be asked for at any time. -/
theorem Next.soundAt_ask {page : PageId} {mode : LockMode} {stage : Stage}
    (hi : ∀ ⦃i⦄, stage.insertion? = some i → i.SoundAt file)
    (hw : stage.writes = true → mode = .exclusive)
    (hr : page = p → stage.releases = true → mode = .shared ∧ l.wrote t p = false) :
    (Next.ask page mode stage).SoundAt p file l t := by
  intro task h
  cases h
  exact ⟨fun _ _ hf => (by cases hf), hi, hw, hr⟩

theorem Scan.Stop.soundAt_next (number : Nat) (stop : Scan.Stop) :
    (stop.next number).SoundAt p file l t := by
  cases stop with
  | answered items scan => exact Next.soundAt_answer ..
  | needs page wanted items scan =>
      exact Next.soundAt_ask (fun _ h => by cases h) (fun h => by cases h) fun _ h => by cases h

/-! ## Inserting -/

namespace Insertion

open Store (QuietAt MovesAt)

/-- A page that is released after a look was not held before, so it was not written. -/
theorem not_wrote_of_releases {task : Insertion} {page count : Nat}
    (hl : l.wrote t p = true → s.locks.modeOf? p t = some .exclusive)
    (hr : (Stage.look task page count (s.locks.holds p t)).releases = true) :
    l.wrote t p = false := by
  by_contra hw
  have hm := hl (by simpa using hw)
  have hh : s.locks.holds p t = true := by
    rw [LockTable.holds, Holders.holds_eq_true_iff]
    exact ne_of_eq_of_ne hm (by simp)
  rw [Stage.releases, hh] at hr
  cases hr

theorem search_moves {task : Insertion} (hi : task.SoundAt (s.view p).file)
    (hl : l.wrote t p = true → s.locks.modeOf? p t = some .exclusive) (page count : Nat) :
    QuietAt p s (task.search s t page count).1 ∧
      (task.search s t page count).2.SoundAt p (s.view p).file l t := by
  rw [search]
  split
  · refine ⟨.refl p s, Next.soundAt_ask ?_ (fun h => by cases h) fun he hr => ?_⟩
    · rintro i ⟨rfl⟩
      exact hi
    · subst he
      exact ⟨rfl, not_wrote_of_releases hl hr⟩
  · refine ⟨Store.quietAt_append fun g hg hname => ?_, Next.soundAt_ask ?_ (fun _ => rfl) ?_⟩
    · exact (hi.file (Store.file_view hg) hname.symm).symm
    · rintro i ⟨rfl⟩
      exact hi
    · intro _ hr
      cases hr

/-- A valid row that is placed in the file of a table. -/
theorem soundAt_of_file (hs : s.catalog.Sound) {task : Insertion} {table : TableId}
    (hr : task.row.Valid) (hf : s.catalog.file table = .ok task.file) (p : PageId) :
    task.SoundAt (s.view p).file := by
  refine ⟨hr, fun g hg hname => ?_⟩
  have hg := Store.file_of_view hg
  have htable := hs.apart hf hg hname
  rw [htable, hg] at hf
  exact (Except.ok.inj hf).symm

theorem begin_moves (hs : s.catalog.Sound)
    (hl : l.wrote t p = true → s.locks.modeOf? p t = some .exclusive) (table : TableId)
    (schema : Schema) (stored : List RecordId) (rows : List (List Field)) :
    QuietAt p s (begin s t table schema stored rows).1 ∧
      (begin s t table schema stored rows).2.SoundAt p (s.view p).file l t := by
  cases rows with
  | nil => exact ⟨.refl p s, Next.soundAt_answer ..⟩
  | cons fields rows =>
      rw [begin]
      split
      · exact ⟨.refl p s, Next.soundAt_answer ..⟩
      · rename_i row hrow
        split
        · exact ⟨.refl p s, Next.soundAt_answer ..⟩
        · rename_i f hf
          split
          · exact search_moves (soundAt_of_file hs (Row.ofFields_eq_ok_iff.1 hrow).2 hf p) hl 0 _
          · exact ⟨.refl p s, Next.soundAt_answer ..⟩

end Insertion

/-! ## Releasing and changing the page -/

namespace Store

variable {id : PageId}

theorem view_releasePage (s : Store) (t : TransactionId) (id p : PageId) :
    (s.releasePage t id).2.view p = if id = p then (s.view p).released t else s.view p := by
  have hmode : ∀ u, (s.releasePage t id).2.locks.modeOf? p u =
      if id = p ∧ t = u then none else s.locks.modeOf? p u :=
    LockTable.modeOf?_release s.locks id t p
  split
  · rename_i he
    refine PageView.ext rfl rfl rfl rfl rfl (funext fun u => (hmode u).trans ?_)
    simp only [he, true_and]
    rfl
  · rename_i he
    refine PageView.ext rfl rfl rfl rfl rfl (funext fun u => (hmode u).trans ?_)
    simp only [he, false_and, if_false]
    rfl

theorem releasePage_moves (s : Store) (hr : id = p → l.wrote t p = false) :
    MovesAt p l s l (s.releasePage t id).2 := by
  refine ⟨rfl, Disk.Grows.refl _, fun h => ⟨h.catalog, h.keyed, h.indexed.release id t⟩,
    fun _ _ => ?_⟩
  rw [view_releasePage]
  split
  · rename_i he
    exact .single (.release t (hr he))
  · exact .refl

theorem change_moves {page page' : Page} {change : Change} (hs : s.Sound)
    (hp : s.cache.page? id = some page) (ho : id = p → page.owner = some t)
    (hc : change.Made page page') :
    MovesAt p l s (l.record (.changed t change))
      (s.onCache fun c => c.update page'.id fun _ => page') := by
  have hid : page.id = id := hs.keyed hp
  have hid' : page'.id = id := by rw [hc.same, ← hid]
  refine ⟨rfl, Disk.Grows.refl _, fun h => ⟨h.catalog, h.keyed.update ?_, h.indexed⟩,
    fun _ _ => ?_⟩
  · intro q hq
    rw [h.keyed hq]
  · rw [view_update, hid']
    split
    · rename_i he
      subst he
      have hcopy : (s.view id).copy = some page := hp
      rw [hcopy, Option.map_some]
      exact .single (.change hcopy (ho rfl) hc)
    · rename_i hne
      refine .single (.elsewhere (Ledger.sameAt_changed ?_ l t))
      rw [hc.page_eq, hid]
      exact hne

end Store

/-! ## Going on -/

namespace Stage

open Store (MovesAt)

/-- A task whose page could not be fetched leaves the store as it is. -/
theorem resume_error (stage : Stage) (s : Store) (t : TransactionId) (e : StoreError) :
    (stage.resume s t (.error e)).1 = s := by
  cases stage <;> rfl

/-- It ends, or a scan goes on to its next page. -/
theorem soundAt_resume_error (stage : Stage) (s : Store) (t : TransactionId) (e : StoreError) :
    (stage.resume s t (.error e)).2.SoundAt p file l t := by
  cases stage with
  | get => exact Next.soundAt_answer ..
  | look => exact Next.soundAt_answer ..
  | place => exact Next.soundAt_answer ..
  | delete => exact Next.soundAt_answer ..
  | feed => exact Scan.Stop.soundAt_next ..

variable {id : PageId} {frame : Frame}

theorem looked_moves {task : Insertion} (hi : task.SoundAt (s.view p).file)
    (hp : frame.page.id = id) (page count : Nat) {heldBefore : Bool}
    (hr : id = p → heldBefore = false → l.wrote t p = false)
    (hl : l.wrote t p = true → s.locks.modeOf? p t = some .exclusive) :
    MovesAt p l s l (task.looked s t page count heldBefore frame).1 ∧
      (task.looked s t page count heldBefore frame).2.SoundAt p (s.view p).file l t := by
  rw [Insertion.looked]
  split
  · refine ⟨.refl p l s, Next.soundAt_ask ?_ (fun _ => rfl) fun _ h => by cases h⟩
    rintro i ⟨rfl⟩
    exact hi
  · cases heldBefore with
    | true =>
        obtain ⟨hq, hn⟩ := Insertion.search_moves hi hl (page + 1) count
        exact ⟨hq.moves l, hn⟩
    | false =>
        have hrel : Store.MovesAt p l s l (s.releasePage t frame.page.id).2 :=
          Store.releasePage_moves s fun he => hr (hp ▸ he) rfl
        have hl' : l.wrote t p = true →
            (s.releasePage t frame.page.id).2.locks.modeOf? p t = some .exclusive := by
          intro hw
          have hne : frame.page.id ≠ p := by
            intro he
            rw [hr (hp ▸ he) rfl] at hw
            cases hw
          show (s.locks.release frame.page.id t).2.modeOf? p t = _
          rw [LockTable.modeOf?_release, if_neg fun hc => hne hc.1]
          exact hl hw
        have hi' : task.SoundAt ((s.releasePage t frame.page.id).2.view p).file := by
          rw [hrel.file_view]
          exact hi
        obtain ⟨hq, hn⟩ := Insertion.search_moves hi' hl' (page + 1) count
        rw [hrel.file_view] at hn
        exact ⟨hrel.trans (hq.moves l), hn⟩

/-- A task that gets its page changes it if it is to, and the ledger gets the change. -/
theorem resume_ok (stage : Stage) (hs : s.Sound) (hp : s.cache.page? id = some frame.page)
    (hi : ∀ ⦃i⦄, stage.insertion? = some i → i.SoundAt (s.view p).file)
    (ho : stage.writes = true → frame.page.owner = some t)
    (hr : id = p → stage.releases = true → l.wrote t p = false)
    (hl : l.wrote t p = true → s.locks.modeOf? p t = some .exclusive) :
    MovesAt p l s (l.after ((stage.change? frame.page).toList.map (.changed t)))
        (stage.resume s t (.ok frame)).1 ∧
      (stage.resume s t (.ok frame)).2.SoundAt p (s.view p).file
        (l.after ((stage.change? frame.page).toList.map (.changed t))) t := by
  cases stage with
  | get => exact ⟨.refl p l s, Next.soundAt_answer ..⟩
  | look task page count heldBefore =>
      exact looked_moves (hi rfl) (hs.keyed hp) page count
        (fun he hh => hr he (by rw [hh]; rfl)) hl
  | place task =>
      cases hins : frame.page.insert task.row with
      | error e =>
          simp only [resume, change?, Insertion.place, hins]
          exact ⟨.refl p l s, Next.soundAt_answer ..⟩
      | ok stored =>
          obtain ⟨record, page'⟩ := stored
          simp only [resume, change?, Insertion.place, hins]
          have hm := Store.change_moves (p := p) (l := l) hs hp (fun _ => ho rfl)
            (.insert (hi rfl).row hins)
          have hl' : (l.record (.changed t (.insert record task.row.fields))).wrote t p = true →
              (s.onCache fun c => c.update page'.id fun _ => page').locks.modeOf? p t =
                some .exclusive := hl
          obtain ⟨hq, hn⟩ := Insertion.begin_moves (hm.sound hs).catalog hl' task.table
            task.schema (record :: task.stored) task.rows
          rw [hm.file_view] at hn
          exact ⟨hm.trans (hq.moves _), hn⟩
  | delete record answer =>
      cases hdel : frame.page.delete (some record) with
      | error e =>
          simp only [resume, change?, hdel]
          exact ⟨.refl p l s, Next.soundAt_answer ..⟩
      | ok page' =>
          simp only [resume, change?, hdel]
          exact ⟨Store.change_moves hs hp (fun _ => ho rfl) (.delete hdel), Next.soundAt_answer ..⟩
  | feed => exact ⟨.refl p l s, Scan.Stop.soundAt_next ..⟩

end Stage

theorem Request.start_moves (hs : s.Sound)
    (hl : l.wrote t p = true → s.locks.modeOf? p t = some .exclusive) (request : Request) :
    Store.QuietAt p s (request.start s t).1 ∧
      (request.start s t).2.SoundAt p (s.view p).file l t := by
  have hdelete : ∀ (record : RecordId) (answer : Answer),
      (Request.deleteIn record answer).SoundAt p (s.view p).file l t := fun record answer =>
    Next.soundAt_ask (fun _ h => by cases h) (fun _ => rfl) fun _ h => by cases h
  simp only [Request.start]
  split
  · exact ⟨.refl p s, Next.soundAt_ask (fun _ h => by cases h) (fun h => by cases h)
      fun _ h => by cases h⟩
  · exact Insertion.begin_moves hs.catalog hl ..
  · split
    · exact ⟨.refl p s, Next.soundAt_answer ..⟩
    · exact Insertion.begin_moves hs.catalog hl ..
  · exact ⟨.refl p s, Next.soundAt_answer ..⟩
  · split
    · exact ⟨.refl p s, Next.soundAt_answer ..⟩
    · exact ⟨.refl p s, hdelete ..⟩
  · split
    · exact ⟨.refl p s, Next.soundAt_answer ..⟩
    · split
      · exact ⟨.refl p s, Next.soundAt_answer ..⟩
      · split
        · exact ⟨.refl p s, hdelete ..⟩
        · exact ⟨.refl p s, Next.soundAt_answer ..⟩
  · exact ⟨.refl p s, Scan.Stop.soundAt_next ..⟩

end PagedStore

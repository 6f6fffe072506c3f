import PagedStore.Proofs.ContentChanges
import PagedStore.Proofs.HandleWrites
import PagedStore.Proofs.IntactPages

/-!
# Tables that are added

Tables may be registered while there is traffic.  Tables are *added* if all that are there stay
as they are, and their files too (`Store.Adds`).  For the pages of these tables nothing happens
then.  Of the pages of a new table nothing is cached or kept, so whatever is in its file is as
good as anything else.

Pages stay intact in a run in which tables are only added (`Traffic.Sealed`), and in which
changes are made through handles to copies that have an owner, or that have left the cache
(`Traffic.wellKept_of_handleRun`).  If besides no lock is released early by a transaction that
has fetched the page for writing, the pages agree with the ledger that has every commit in doubt,
whatever is done through handles (`Traffic.follows_of_handleRun`).
-/

namespace PagedStore

open PageView (Agrees)

variable {p : PageId} {l l' : Ledger} {t : TransactionId} {s s' : Store} {catalog : Catalog}
  {disk : Disk} {hd : Handle}

/-- A handle may be used: its copy has an owner, or has left the cache. -/
def Cache.Entrusts (c : Cache) (hd : Handle) : Prop := c.Has hd → c.owner? hd.page ≠ none

/-! ## One page -/

namespace PageView

variable {v : PageView} {file : Option TableFile} {image : Option Bytes}

/-- A page of no table is found in the file of a new one. -/
theorem Intact.added (h : v.Intact) (hf : v.file = none)
    (hs : ∀ {f data}, file = some f → image = some data → data.length = f.pageSize) :
    Intact { v with file, image } where
  fits hc := by
    obtain ⟨f, hfile, -⟩ := (h.fits hc).file
    rw [hf] at hfile
    cases hfile
  clean hc := by
    obtain ⟨f, hfile, -⟩ := (h.fits hc).file
    rw [hf] at hfile
    cases hfile
  sized := hs
  before hc := by
    obtain ⟨f, hfile, -⟩ := (h.fits hc).file
    rw [hf] at hfile
    cases hfile
  kept hk := by
    obtain ⟨-, f, hfile, -⟩ := h.kept hk
    rw [hf] at hfile
    cases hfile

/-- The same, if every commit is in doubt. -/
theorem Agrees.added (h : Agrees l v) (hf : v.file = none)
    (hs : ∀ {f data}, file = some f → image = some data → data.length = f.pageSize) :
    Agrees l.doubted { v with file, image } := by
  have hcopy : v.copy = none := by
    by_contra hc
    obtain ⟨page, hc⟩ := Option.ne_none_iff_exists'.1 hc
    obtain ⟨f, hfile, -⟩ := (h.fits hc).file
    rw [hf] at hfile
    cases hfile
  exact { h with
    owns := fun _ hfail => by cases hfail
    fits := fun hc => by rw [show v.copy = _ from hc] at hcopy; cases hcopy
    sized := hs
    fresh := fun hc => by rw [show v.copy = _ from hc] at hcopy; cases hcopy
    clean := fun hc => by rw [show v.copy = _ from hc] at hcopy; cases hcopy
    kept := fun hk => by
      obtain ⟨-, f, hfile, -⟩ := h.kept hk
      rw [hf] at hfile
      cases hfile
    first := fun _ hfail => by cases hfail
    held := fun _ hfail => by cases hfail }

end PageView

/-! ## Adding tables -/

namespace Store

/-- No table that is there becomes another one, and no file of it is changed. -/
structure Adds (s : Store) (catalog : Catalog) (disk : Disk) : Prop where
  sound : catalog.Sound
  file : ∀ {t f}, s.catalog.file t = .ok f → catalog.file t = .ok f
  contents : ∀ {t f}, s.catalog.file t = .ok f → disk.contents f = s.disk.contents f

namespace Adds

theorem numberedAt (h : s.Adds catalog disk) (hn : NumberedAt { s with catalog, disk } p) :
    s.NumberedAt p := by
  intro f hf
  rw [← h.contents hf]
  exact hn (h.file hf)

/-- A page of a table that was there is as it was, or the page was one of no table. -/
theorem view_cases (h : s.Adds catalog disk) (p : PageId) :
    view { s with catalog, disk } p = s.view p ∨
      (s.view p).file = none ∧ ∃ file image,
        view { s with catalog, disk } p = { s.view p with file, image } ∧
          ∀ {f data}, file = some f → image = some data → data.length = f.pageSize := by
  cases hf : s.catalog.file p.table with
  | ok f =>
      have hnew : ({ s with catalog, disk } : Store).catalog.file p.table = .ok f := h.file hf
      refine Or.inl (PageView.ext rfl ?_ ?_ rfl rfl rfl)
      · rw [file_view hf, file_view hnew]
      · rw [image_view hf, image_view hnew]
        exact congrArg (fun data => f.image? data p.number) (h.contents hf)
  | error e =>
      refine Or.inr ⟨by rw [view, hf]; rfl, _, _, rfl, ?_⟩
      intro f data hfile himage
      have hfile := file_of_view (s := { s with catalog, disk }) hfile
      have hlength : f.image? (({ s with catalog, disk } : Store).disk.contents f) p.number =
          some data := (image_view hfile).symm.trans himage
      exact TableFile.length_of_image? hlength

end Adds

end Store

/-! ## Rows are placed in files of tables -/

/-- If the task is to place a row, it places the row in the file of a table. -/
def Task.Listed (catalog : Catalog) (task : Task) : Prop :=
  ∀ ⦃i⦄, task.stage.insertion? = some i → catalog.file i.file.table = .ok i.file

/-- If a row is to be placed next, it is in the file of a table. -/
def Next.Listed (catalog : Catalog) (n : Next) : Prop :=
  ∀ ⦃task⦄, Task.ofNext n = some task → task.Listed catalog

theorem Next.listed_answer (catalog : Catalog) (a : Answer) : (Next.answer a).Listed catalog := by
  intro task h
  cases h

theorem Next.listed_ask {page : PageId} {mode : LockMode} {stage : Stage}
    (h : ∀ ⦃i⦄, stage.insertion? = some i → catalog.file i.file.table = .ok i.file) :
    (Next.ask page mode stage).Listed catalog := by
  rintro task ⟨rfl⟩
  exact h

theorem Next.listed_idle {page : PageId} {mode : LockMode} {stage : Stage}
    (h : stage.insertion? = none) : (Next.ask page mode stage).Listed catalog :=
  listed_ask fun i hi => by rw [h] at hi; cases hi

theorem Scan.Stop.listed_next (number : Nat) (stop : Scan.Stop) :
    (stop.next number).Listed catalog := by
  cases stop with
  | answered => exact Next.listed_answer ..
  | needs => exact Next.listed_idle rfl

theorem Insertion.listed_search {i : Insertion} (h : catalog.file i.file.table = .ok i.file)
    (s : Store) (t : TransactionId) (page count : Nat) :
    (i.search s t page count).2.Listed catalog := by
  have hi : ∀ ⦃j⦄, some i = some j → catalog.file j.file.table = .ok j.file := by
    rintro j ⟨rfl⟩
    exact h
  rw [search]
  split
  · exact Next.listed_ask hi
  · exact Next.listed_ask hi

theorem Insertion.listed_begin (hs : s.catalog.Sound) (t : TransactionId) (table : TableId)
    (schema : Schema) (stored : List RecordId) (rows : List (List Field)) :
    (begin s t table schema stored rows).2.Listed s.catalog := by
  cases rows with
  | nil => exact Next.listed_answer ..
  | cons fields rows =>
      rw [begin]
      split
      · exact Next.listed_answer ..
      · split
        · exact Next.listed_answer ..
        · rename_i f hf
          split
          · refine listed_search ?_ ..
            rw [hs.table hf]
            exact hf
          · exact Next.listed_answer ..

theorem Stage.listed_resume {stage : Stage} (hs : s.catalog.Sound)
    (h : ∀ ⦃i⦄, stage.insertion? = some i → s.catalog.file i.file.table = .ok i.file)
    (t : TransactionId) (r : Except StoreError Frame) :
    (stage.resume s t r).2.Listed s.catalog := by
  cases r with
  | error e =>
      cases stage with
      | feed => exact Scan.Stop.listed_next ..
      | _ => exact Next.listed_answer ..
  | ok frame =>
      cases stage with
      | get => exact Next.listed_answer ..
      | look i page count held =>
          rw [resume, Insertion.looked]
          split
          · exact Next.listed_ask h
          · exact Insertion.listed_search (h rfl) ..
      | place i =>
          rw [resume, Insertion.place]
          split
          · exact Next.listed_answer ..
          · rename_i record page _
            exact Insertion.listed_begin (s := s.onCache fun c => c.update page.id fun _ => page)
              hs ..
      | delete record answer =>
          rw [resume]
          split <;> exact Next.listed_answer ..
      | feed => exact Scan.Stop.listed_next ..

theorem Request.listed_start (request : Request) (hs : s.catalog.Sound) (t : TransactionId) :
    (request.start s t).2.Listed s.catalog := by
  simp only [Request.start]
  split
  · exact Next.listed_idle rfl
  · exact Insertion.listed_begin hs ..
  · split
    · exact Next.listed_answer ..
    · exact Insertion.listed_begin hs ..
  · exact Next.listed_answer ..
  · split
    · exact Next.listed_answer ..
    · exact Next.listed_idle rfl
  · split
    · exact Next.listed_answer ..
    · split
      · exact Next.listed_answer ..
      · split
        · exact Next.listed_idle rfl
        · exact Next.listed_answer ..
  · exact Scan.Stop.listed_next ..

theorem listed_submit {source : TableFile} {r : LockRequest} {stage : Stage} {n : Next}
    (hs : s.catalog.Sound)
    (h : ∀ ⦃i⦄, stage.insertion? = some i → s.catalog.file i.file.table = .ok i.file)
    (hn : (submit s t source r stage).1 = some n) : n.Listed s.catalog := by
  cases hv : (s.locks.consider t r).1 with
  | waits =>
      rw [(submit_of_waits source stage hv).2] at hn
      cases hn
  | refused =>
      rw [(submit_of_refused source stage hv).2] at hn
      cases hn
      exact Stage.listed_resume (s := { s with locks := (s.locks.consider t r).2 }) hs h ..
  | granted =>
      have hsame := (({ s with locks := (s.locks.consider t r).2 } : Store).steady_fetch t source
        r.page r.mode).catalog
      rw [(submit_of_granted source stage hv rfl).2] at hn
      cases hn
      generalize { s with locks := (s.locks.consider t r).2 }.fetch t source r.page r.mode =
        fetched at hsame
      rw [show s.catalog = fetched.2.catalog from hsame.symm] at hs h ⊢
      exact Stage.listed_resume hs h ..

/-! ## Tasks of a store to which tables are added -/

theorem Task.Listed.adds {task : Task} (h : task.Listed s.catalog) (ha : s.Adds catalog disk) :
    task.Listed catalog := fun _ hi => ha.file (h hi)

/-- What a task remembers is not put in question by new tables. -/
theorem Task.SoundAt.adds {task : Task} (h : task.SoundAt p (s.view p).file l t)
    (hl : task.Listed s.catalog) (ha : s.Adds catalog disk) :
    task.SoundAt p (Store.view { s with catalog, disk } p).file l t where
  source hp f hf := by
    have hold := Store.file_of_view (h.source hp hf)
    exact Store.file_view (s := { s with catalog, disk }) (ha.file hold)
  insertion i hi := by
    refine ⟨(h.insertion hi).row, fun f hf hname => ?_⟩
    have hnew : catalog.file p.table = .ok f :=
      Store.file_of_view (s := { s with catalog, disk }) hf
    have hown := ha.file (hl hi)
    rw [ha.sound.apart hown hnew hname, hnew] at hown
    exact (Except.ok.inj hown).symm
  writes := h.writes
  releases := h.releases

namespace Traffic

variable {w w' : Traffic} {move : Move} {history events : List Event} {s₀ : Store}
  {grips : List (TransactionId × Handle)} {page page' : Page} {change : Change}

/-- What is asked of a move.  Tables may only be added. -/
def Sealed (_ : Ledger) (w : Traffic) (move : Move) (_ : Traffic) : Prop :=
  ∀ ⦃catalog disk⦄, move = .replace catalog disk → w.store.Adds catalog disk

/-- What is asked of a move.  Tables may only be added, and a lock is released early only by a
transaction that has not fetched the page for writing. -/
def Secured (l : Ledger) (w : Traffic) (move : Move) (w' : Traffic) : Prop :=
  Guarded l w move w' ∧ Sealed l w move w'

theorem Sealed.numberedAt (h : Sealed l w move w') (hs : w.step move = some (events, w'))
    (hn : w'.store.NumberedAt p) : w.store.NumberedAt p := by
  by_cases hr : ∃ catalog disk, move = .replace catalog disk
  · obtain ⟨catalog, disk, rfl⟩ := hr
    cases hs
    exact (h rfl).numberedAt hn
  · exact (grew_of_ne_replace (fun catalog disk he => hr ⟨catalog, disk, he⟩) hs).numberedAt hn

/-- Rows are placed in files of tables after each move. -/
theorem listed_of_step (hc : w.store.catalog.Sound)
    (h : ∀ ⦃t task⦄, w.tasks t = some task → task.Listed w.store.catalog)
    (hr : Sealed l w move w') (hs : w.step move = some (events, w')) ⦃t : TransactionId⦄
    ⦃task : Task⦄ (ht : w'.tasks t = some task) : task.Listed w'.store.catalog := by
  have hturn : ∀ {u : TransactionId} {store : Store} {n : Next},
      store.catalog = w.store.catalog → n.Listed w.store.catalog →
        w' = w.turn u store (Task.ofNext n) → task.Listed w'.store.catalog := by
    rintro u store n hstore hn rfl
    show task.Listed store.catalog
    rw [hstore]
    by_cases htu : t = u
    · exact hn ((if_pos htu).symm.trans ht)
    · exact h ((if_neg htu).symm.trans ht)
  have hsame : ∀ {store : Store}, w' = { w with store } → store.catalog = w.store.catalog →
      task.Listed w'.store.catalog := by
    rintro store rfl hstore
    show task.Listed store.catalog
    rw [hstore]
    exact h ht
  cases move with
  | start u request =>
      simp only [step] at hs
      split at hs
      · cases hs
      · cases hs
        exact hturn (request.steady_start ..).catalog (request.listed_start hc u) rfl
  | resume u =>
      obtain ⟨old, hold, hresume⟩ := Option.map_eq_some_iff.1 hs
      cases hsource : w.sourceOf old with
      | error e =>
          rw [resume_of_error hsource] at hresume
          cases hresume
          refine hturn ?_ (Stage.listed_resume hc (h hold) u _) rfl
          rw [old.stage.resume_error]
      | ok source =>
          rw [resume_of_source hsource, submit] at hresume
          have hcatalog := (steady_submit w.store u source
            { page := old.page, mode := old.mode } old.stage).catalog
          cases hsub : PagedStore.submit w.store u source
              { page := old.page, mode := old.mode } old.stage with
          | mk o store =>
              rw [hsub] at hresume hcatalog
              cases o with
              | none =>
                  cases hresume
                  show task.Listed store.catalog
                  rw [show store.catalog = w.store.catalog from hcatalog]
                  by_cases htu : t = u
                  · have hl : old.Listed w.store.catalog := h hold
                    cases (if_pos htu).symm.trans ht
                    exact hl
                  · exact h ((if_neg htu).symm.trans ht)
              | some n =>
                  cases hresume
                  exact hturn hcatalog (listed_submit hc (h hold) (congrArg Prod.fst hsub)) rfl
  | commit u =>
      cases hs
      exact hsame rfl (Store.steady_commit ..).catalog
  | abort u =>
      cases hs
      exact hsame rfl (Store.steady_abort ..).catalog
  | flushPage q =>
      simp only [step] at hs
      split at hs
      · rename_i store hf
        cases hs
        exact hsame rfl (Store.steady_flushPage hf).catalog
      · cases hs
        exact h ht
  | flushPages u =>
      cases hs
      exact hsame rfl (Store.steady_flushPages ..).catalog
  | flushAll =>
      cases hs
      exact hsame rfl (Store.steady_flushAll ..).catalog
  | discard q =>
      cases hs
      exact hsame rfl (Store.steady_discard ..).catalog
  | release u q =>
      cases hs
      exact hsame rfl rfl
  | replace catalog disk =>
      cases hs
      exact (h ht).adds (hr rfl)

/-! ## Intact pages -/

/-- Every page is intact, and rows are placed in files of tables. -/
structure WellKept (w : Traffic) : Prop where
  intact : ∀ p, w.IntactAt p
  listed : ∀ ⦃t task⦄, w.tasks t = some task → task.Listed w.store.catalog

theorem IntactAt.adds (h : w.IntactAt p)
    (hl : ∀ ⦃t task⦄, w.tasks t = some task → task.Listed w.store.catalog)
    (ha : w.store.Adds catalog disk) (hn : Store.NumberedAt { w.store with catalog, disk } p) :
    IntactAt p { w with store := { w.store with catalog, disk } } where
  store := ⟨ha.sound, h.store.keyed, h.store.indexed⟩
  numbered := hn
  intact := by
    rcases ha.view_cases p with hview | ⟨hnone, file, image, hview, hs⟩
    · rw [hview]
      exact h.intact
    · rw [hview]
      exact h.intact.added hnone hs
  tasks _ _ ht := (h.tasks ht).adds (hl ht) ha

/-- A copy that has an owner is changed through a handle, or one that has left the cache. -/
theorem IntactAt.write (h : w.IntactAt p)
    (hfree : w.store.cache.Entrusts hd)
    (hcopy : w.store.cache.copy? hd.page hd.copy = some page) (hmade : change.Made page page') :
    IntactAt p (w.write hd page') := by
  by_cases hhas : w.store.cache.Has hd
  · obtain ⟨hpage, hwrite⟩ := write_of_has h.store.keyed hhas hcopy hmade
    have hid : page'.id = hd.page := by rw [hmade.same, ← h.store.keyed hpage]
    obtain ⟨u, hu⟩ := Option.ne_none_iff_exists'.1 (hfree hhas)
    have howner : page'.owner = some u := by
      rw [Cache.owner?, hpage] at hu
      rw [hmade.same]
      exact hu
    have hview := w.store.view_update page'.id (fun _ => page') p
    rw [hwrite]
    refine ⟨⟨h.store.catalog, h.store.keyed.update fun q hq => ?_, h.store.indexed⟩, h.numbered,
      ?_, ?_⟩
    · rw [h.store.keyed hq]
    · rw [hview]
      split
      · rename_i hp
        have hc : (w.store.view p).copy = some page := by
          rw [← hp, hid]
          exact hpage
        rw [hc, Option.map_some]
        exact h.intact.recopy hc hmade.sameShape (by rw [hmade.same])
          (hmade.valid (h.intact.fits hc).valid) (by rw [hmade.same]) howner
      · exact h.intact
    · rw [hview]
      split <;> exact h.tasks
  · have hview := view_write_of_not_has hhas page' p
    refine ⟨⟨h.store.catalog, fun q old hq => ?_, h.store.indexed⟩, h.numbered, ?_, ?_⟩
    · have hold : (w.write hd page').store.view q = _ := view_write_of_not_has hhas page' q
      exact h.store.keyed ((congrArg PageView.copy hold).symm.trans hq)
    · rw [hview]
      exact h.intact
    · rw [hview]
      exact h.tasks

/-- Whatever moves are made, every page is intact, if tables are only added and no copy is changed
through a handle that is cached and has no owner. -/
theorem wellKept_of_handleRun (h₀ : Fresh s₀)
    (h : HandleRun Sealed Cache.Entrusts s₀ history w grips) (hn : ∀ p, w.store.NumberedAt p) :
    w.WellKept := by
  induction h with
  | start =>
      have hstart : Run (fun _ _ _ _ => False) s₀ [] { store := s₀ } := .start
      exact ⟨fun p => intactAt_of_run h₀ id hstart (hn p), fun t task ht => by cases ht⟩
  | @move _ _ w _ _ move _ hsealed hs ih =>
      have ih := ih fun p => hsealed.numberedAt hs (hn p)
      refine ⟨fun p => ?_,
        listed_of_step (ih.intact ⟨⟨0⟩, 0⟩).store.catalog ih.listed hsealed hs⟩
      by_cases hreplace : ∃ catalog disk, move = .replace catalog disk
      · obtain ⟨catalog, disk, rfl⟩ := hreplace
        cases hs
        exact (ih.intact p).adds ih.listed (hsealed rfl) (hn p)
      · exact (ih.intact p).step (fun catalog disk he => hreplace ⟨catalog, disk, he⟩) hs (hn p)
  | write _ _ hfree hcopy hmade ih =>
      have ih := ih hn
      exact ⟨fun p => (ih.intact p).write hfree hcopy hmade, ih.listed⟩

/-! ## Pages that agree with the ledger -/

/-- All is well with a page, only that changes of it may have been dropped, and the handles on it
are on copies of their transactions. -/
structure GuardedAt (p : PageId) (l : Ledger) (w : Traffic)
    (grips : List (TransactionId × Handle)) : Prop where
  sheltered : w.Sheltered p l
  careful : w.CarefulAt p l
  grips : ∀ ⦃t hd⦄, (t, hd) ∈ grips → hd.page = p → GripAt p l w.store.cache t hd

/-- A move that keeps the shelter leaves the handles on copies of their transactions. -/
theorem GuardedAt.step (h : w.GuardedAt p l grips) (hg : Guarded l w move w')
    (hs : w.step move = some (events, w')) (hw : w'.Sheltered p (l.after events)) :
    GuardedAt p (l.after events) w' (w.regrip grips move) := by
  have hmarks := marks_of_step h.careful (fun _ hm => hg hm) hs
  exact ⟨hw, h.careful.remarked hmarks, h.careful.grips_of_remarked hmarks hs h.grips⟩

/-- Tables are added, and every page is as sheltered as before. -/
theorem Sheltered.adds (h : w.Sheltered p l)
    (hl : ∀ ⦃t task⦄, w.tasks t = some task → task.Listed w.store.catalog)
    (ha : w.store.Adds catalog disk) (hn : Store.NumberedAt { w.store with catalog, disk } p) :
    Sheltered p l { w with store := { w.store with catalog, disk } } := by
  obtain ⟨l', hsound, hw⟩ := h
  have htasks : ∀ ⦃t task⦄, w.tasks t = some task →
      task.SoundAt p (Store.view { w.store with catalog, disk } p).file l' t :=
    fun t task ht => (hsound.tasks ht).adds (hl ht) ha
  refine ⟨l'.doubted, ⟨⟨ha.sound, hsound.store.keyed, hsound.store.indexed⟩, hn, ?_,
    fun t task ht => (htasks ht).mono id⟩, hw⟩
  rcases ha.view_cases p with hview | ⟨hnone, file, image, hview, hs⟩
  · rw [hview]
    exact hsound.agrees.doubted rfl
  · rw [hview]
    exact hsound.agrees.added hnone hs

/-- A copy is changed through a handle that its transaction has. -/
theorem GuardedAt.write (h : w.GuardedAt p l grips) (hg : (t, hd) ∈ grips)
    (hcopy : w.store.cache.copy? hd.page hd.copy = some page) (hmade : change.Made page page') :
    GuardedAt p (l.record (.changed t change)) (w.write hd page') grips := by
  obtain ⟨l', hsound, hw⟩ := h.sheltered
  by_cases hhas : w.store.cache.Has hd
  · obtain ⟨hpage, hwrite⟩ := write_of_has hsound.store.keyed hhas hcopy hmade
    have howner : hd.page = p → page.owner = some t := by
      intro hp
      obtain ⟨frame, hf, hsame⟩ := Cache.has_iff.1 hhas
      have hown := (h.grips hg hp).owner (hp ▸ hf) hsame
      rw [Cache.page?, hf] at hpage
      cases hpage
      exact hown
    have hmoves := Store.change_moves (p := p) (l := l') hsound.store hpage howner hmade
    have hkeeps : w.store.KeepsAt p (fun _ => True) _ :=
      Store.keepsAt_change hsound.store.keyed hpage hmade.same fun _ _ => trivial
    rw [hwrite]
    have hturned := hsound.turned_of_tasks (e := [.changed t change]) hmoves hsound.numbered
      fun _ _ hm => by cases List.mem_singleton.1 hm
    refine ⟨⟨_, hturned.sound, hw⟩, ⟨h.careful.marked.quiet hkeeps fun _ => rfl, ?_⟩, ?_⟩
    · exact fun u task ht => (h.careful.tasks ht).mono fun hw => hw
    · exact fun u hd' hg' hp => (h.grips hg' hp).quiet hkeeps.cache fun _ => rfl
  · have hview := fun q => view_write_of_not_has hhas page' q
    have hcache : (w.write hd page').store.cache =
        { w.store.cache with loose := w.store.cache.loose.modify hd.copy fun _ => page' } :=
      Cache.updateCopy_of_not_has hhas _
    have hkeeps : w.store.KeepsAt p (fun _ => True) (w.write hd page').store := by
      refine ⟨rfl, ?_⟩
      rw [hcache]
      exact .of_same hsound.store.keyed (Nat.le_refl _) rfl fun _ => rfl
    refine ⟨⟨l', ⟨⟨hsound.store.catalog, ?_, hsound.store.indexed⟩, hsound.numbered, ?_, ?_⟩, hw⟩,
      ⟨h.careful.marked.quiet hkeeps fun _ => rfl, ?_⟩, ?_⟩
    · exact hkeeps.cache.keyed
    · rw [hview]
      exact hsound.agrees
    · rw [hview]
      exact hsound.tasks
    · exact fun u task ht => (h.careful.tasks ht).mono fun hw => hw
    · exact fun u hd' hg' hp => (h.grips hg' hp).quiet hkeeps.cache fun _ => rfl

/-- Every page follows the ledger that has all commits in doubt, if tables are only added and no
lock is released early by a transaction that has fetched the page for writing. -/
theorem follows_of_handleRun {free : Cache → Handle → Prop} (h₀ : Fresh s₀)
    (h : HandleRun Secured free s₀ history w grips) (hn : ∀ p, w.store.NumberedAt p) :
    w.store.Follows (Ledger.of history).doubted := by
  have hall : (∀ p, w.GuardedAt p (Ledger.of history) grips) ∧
      ∀ ⦃t task⦄, w.tasks t = some task → task.Listed w.store.catalog := by
    induction h with
    | start =>
        refine ⟨fun p => ⟨⟨{}, soundAt_start h₀ (hn p), rfl⟩, carefulAt_start h₀.cache h₀.locks,
          fun t hd hg => by cases hg⟩, fun t task ht => by cases ht⟩
    | @move _ _ w _ _ move _ hrule hs ih =>
        obtain ⟨hpages, hlisted⟩ := ih fun p => hrule.2.numberedAt hs (hn p)
        obtain ⟨l', hsound, -⟩ := (hpages ⟨⟨0⟩, 0⟩).sheltered
        refine ⟨fun p => ?_, listed_of_step hsound.store.catalog hlisted hrule.2 hs⟩
        rw [Ledger.of_append]
        refine (hpages p).step hrule.1 hs ?_
        by_cases hreplace : ∃ catalog disk, move = .replace catalog disk
        · obtain ⟨catalog, disk, rfl⟩ := hreplace
          cases hs
          exact (hpages p).sheltered.adds hlisted (hrule.2 rfl) (hn p)
        · exact (hpages p).sheltered.step
            ⟨hrule.1, fun catalog disk he => hreplace ⟨catalog, disk, he⟩⟩ hs (hn p)
    | write _ hg _ hcopy hmade ih =>
        obtain ⟨hpages, hlisted⟩ := ih hn
        refine ⟨fun p => ?_, hlisted⟩
        rw [Ledger.of_append]
        exact (hpages p).write hg hcopy hmade
  refine SoundAt.storeFollows fun p => ?_
  obtain ⟨l', hsound, hw⟩ := (hall.1 p).sheltered
  exact hsound.doubted hw

end Traffic

end PagedStore

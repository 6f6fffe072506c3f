import PagedStore.Proofs.BareForms
import PagedStore.Proofs.Likeness

/-!
# Tasks on stores that are the same for a transaction

The same task goes on for a transaction on two stores which a likeness relates, with its page
from either.  It does the same on both, so far as bare forms tell, and leaves stores that are
related again (`Store.Likeness.submit`).  So it is when a task begins (`Store.Likeness.start`).
-/

namespace PagedStore

/-! ## What tasks do -/

/-- Two results of which the same can be told. -/
theorem Except.of_map_eq {ε α β γ : Type} {a : Except ε α} {b : Except ε β} {f : α → γ} {g : β → γ}
    (h : a.map f = b.map g) :
    (∃ e, a = .error e ∧ b = .error e) ∨ ∃ x y, a = .ok x ∧ b = .ok y ∧ f x = g y := by
  cases a with
  | error e =>
      cases b with
      | error e' =>
          cases h
          exact Or.inl ⟨e, rfl, rfl⟩
      | ok y => cases h
  | ok x =>
      cases b with
      | error e => cases h
      | ok y => exact Or.inr ⟨x, y, rfl, rfl, Except.ok.inj h⟩

variable {s s' : Store} {l l' : Ledger} {t : TransactionId} {id : PageId} {frame frame' : Frame}
  {S : Scope} {R : Store → Store → Prop}

theorem Store.Follows.moves (hs : s.Follows l) (hm : ∀ p, Store.MovesAt p l s l' s')
    (hn : ∀ p, s'.NumberedAt p) : s'.Follows l' :=
  ⟨(hm ⟨⟨0⟩, 0⟩).sound hs.sound, hn, fun p => (hm p).agrees hs.sound (hn p) (hs.view p)⟩

namespace Store.Likeness

/-! ## Inserting -/

section Insertion

variable {task : Insertion}

theorem search (hR : Likeness t S R) (h : R s s') (hs : s.Follows l) (hs' : s'.Follows l')
    (hi : ∀ p, task.SoundAt (s.view p).file) (hf : S.file task.file) (page count : Nat) :
    R (task.search s t page count).1 (task.search s' t page count).1 ∧
      (task.search s' t page count).2 = (task.search s t page count).2 := by
  rw [Insertion.search, Insertion.search]
  split
  · refine ⟨h, ?_⟩
    dsimp only
    rw [hR.holds h (hR.table hf)]
  · have hnumber : (s'.disk.append task.file).1 = (s.disk.append task.file).1 :=
      hR.pageCount h hf
    refine ⟨hR.append h hs hs' hf fun {u g} hg hname => ?_, by simp only [hnumber]⟩
    exact ((hi { table := u, number := 0 }).file (file_view hg) hname.symm).symm

theorem begin (hR : Likeness t S R) (h : R s s') (hs : s.Follows l) (hs' : s'.Follows l')
    {table : TableId} (ht : S.table table) (schema : Schema) (stored : List RecordId)
    (rows : List (List Field)) :
    R (Insertion.begin s t table schema stored rows).1
        (Insertion.begin s' t table schema stored rows).1 ∧
      (Insertion.begin s' t table schema stored rows).2 =
        (Insertion.begin s t table schema stored rows).2 := by
  cases rows with
  | nil => exact ⟨h, rfl⟩
  | cons fields rows =>
      rw [Insertion.begin, Insertion.begin, hR.catalog h]
      split
      · exact ⟨h, rfl⟩
      · rename_i row hrow
        split
        · exact ⟨h, rfl⟩
        · rename_i f hf
          have hfile := hR.file h ht hf
          split
          · rw [hR.pageCount h hfile]
            refine hR.search h hs hs' (fun p => ?_) hfile 0 _
            exact Insertion.soundAt_of_file hs.sound.catalog (Row.ofFields_eq_ok_iff.1 hrow).2 hf p
          · exact ⟨h, rfl⟩

theorem looked (hR : Likeness t S R) (h : R s s') (hs : s.Follows l) (hs' : s'.Follows l')
    (hi : ∀ p, task.SoundAt (s.view p).file) (hf : S.file task.file) (hp : S.table id.table)
    (hid : frame.page.id = id) (hb : frame'.page.bare = frame.page.bare) {heldBefore : Bool}
    (hr : heldBefore = false → l.wrote t id = false)
    (hr' : heldBefore = false → l'.wrote t id = false) (page count : Nat) :
    R (task.looked s t page count heldBefore frame).1
        (task.looked s' t page count heldBefore frame').1 ∧
      (task.looked s' t page count heldBefore frame').2 =
        (task.looked s t page count heldBefore frame).2 := by
  have hid' : frame'.page.id = frame.page.id := congrArg (fun page => page.id) hb
  have hfree : frame'.page.countFree = frame.page.countFree := by
    rw [← Page.countFree_bare, hb, Page.countFree_bare]
  rw [Insertion.looked, Insertion.looked, hid', hfree, hid]
  split
  · exact ⟨h, rfl⟩
  · cases heldBefore with
    | true => exact hR.search h hs hs' hi hf _ _
    | false =>
        have hreleased : ∀ {s : Store} {l : Ledger}, s.Follows l → l.wrote t id = false →
            (s.releasePage t id).2.Follows l := fun {s l} hs hw =>
          hs.moves (fun p => s.releasePage_moves fun he => he ▸ hw) hs.numbered
        exact hR.search (hR.releasePage h hp) (hreleased hs (hr rfl)) (hreleased hs' (hr' rfl))
          hi hf _ _

end Insertion

/-! ## Going on -/

/-- A task whose page cannot be fetched does the same. -/
theorem resume_error (hR : Likeness t S R) (h : R s s') {stage : Stage} (hw : stage.Within S)
    (e : StoreError) : (stage.resume s' t (.error e)).2 = (stage.resume s t (.error e)).2 := by
  cases stage with
  | feed number scan wanted items => simp only [Stage.resume, hR.pageCount h hw]
  | _ => rfl

/-- A task that gets its page makes the same change to it, and does the same next.  If the very
same copy is fetched, nothing can be told apart. -/
theorem resume (hR : Likeness t S R) (h : R s s') (hs : s.Follows l) (hs' : s'.Follows l')
    {stage : Stage} (hw : stage.Within S) (ht : S.table id.table)
    (hp : s.cache.page? id = some frame.page) (hp' : s'.cache.page? id = some frame'.page)
    (hi : ∀ p, ∀ ⦃i⦄, stage.insertion? = some i → i.SoundAt (s.view p).file)
    (ho : stage.writes = true → frame.page.owner = some t)
    (ho' : stage.writes = true → frame'.page.owner = some t)
    (hr : stage.releases = true → l.wrote t id = false)
    (hr' : stage.releases = true → l'.wrote t id = false) :
    R (stage.resume s t (.ok frame)).1 (stage.resume s' t (.ok frame')).1 ∧
      (stage.resume s' t (.ok frame')).2.bare = (stage.resume s t (.ok frame)).2.bare ∧
        (frame' = frame →
          (stage.resume s' t (.ok frame')).2 = (stage.resume s t (.ok frame)).2) := by
  have hfits := (hs.view id).fits hp
  have hfits' := (hs'.view id).fits hp'
  have hview := hR.view h ht
  obtain ⟨hid, hschema, hsize⟩ := hview.fits_eq hfits hfits'
  have hb : frame'.page.bare = frame.page.bare :=
    Page.bare_congr hfits.valid hfits'.valid hid hschema hsize (hview.content_eq hp hp')
  cases stage with
  | get =>
      refine ⟨h, by simp only [Stage.resume, Next.bare, Answer.bare, Frame.bare, hb], ?_⟩
      rintro rfl
      rfl
  | look task page count heldBefore =>
      obtain ⟨hlike, hnext⟩ := hR.looked h hs hs' (fun p => hi p rfl) hw.2 ht hfits.id hb
        (fun hh : heldBefore = false => hr (congrArg not hh))
        (fun hh : heldBefore = false => hr' (congrArg not hh)) page count
      exact ⟨hlike, congrArg Next.bare hnext, fun _ => hnext⟩
  | place task =>
      have hinsert := Page.insert_bare frame.page task.row
      rw [← hb, Page.insert_bare] at hinsert
      rcases Except.of_map_eq hinsert with
        ⟨e, hins', hins⟩ | ⟨⟨record, after'⟩, ⟨_, after⟩, hins', hins, rfl⟩
      · simp only [Stage.resume, Insertion.place, hins, hins', implies_true, and_true]
        exact h
      · have hrow := (hi id rfl).row
        have hm : Change.Made (.insert record task.row.fields) frame.page after := .insert hrow hins
        have hm' : Change.Made (.insert record task.row.fields) frame'.page after' :=
          .insert hrow hins'
        have hafter := hs.moves
          (fun p => change_moves hs.sound hp (fun _ => ho rfl) hm) hs.numbered
        have hafter' := hs'.moves
          (fun p => change_moves hs'.sound hp' (fun _ => ho' rfl) hm') hs'.numbered
        simp only [Stage.resume, Insertion.place, hins, hins']
        obtain ⟨hlike, hnext⟩ := hR.begin
          (hR.change h hs hs' ht hp hp' (ho rfl) (ho' rfl) hm hm') hafter hafter' hw.1 task.schema
          (record :: task.stored) task.rows
        exact ⟨hlike, congrArg Next.bare hnext, fun _ => hnext⟩
  | delete record answer =>
      have hdelete := Page.delete_bare frame.page record
      rw [← hb, Page.delete_bare] at hdelete
      rcases Except.of_map_eq hdelete with ⟨e, hdel', hdel⟩ | ⟨after', after, hdel', hdel, -⟩
      · simp only [Stage.resume, hdel, hdel', implies_true, and_true]
        exact h
      · simp only [Stage.resume, hdel, hdel', implies_true, and_true]
        exact hR.change h hs hs' ht hp hp' (ho rfl) (ho' rfl) (.delete hdel) (.delete hdel')
  | feed number scan wanted items =>
      refine ⟨h, ?_, ?_⟩
      · simp only [Stage.resume, hR.pageCount h hw, Scan.Stop.bare_next, Scan.bare_resume,
          Except.map, hb]
      · rintro rfl
        simp only [Stage.resume, hR.pageCount h hw]

end Store.Likeness

/-! ## Evaluating a request -/

/-- Fetching a page to read it does not say that it is written. -/
theorem Ledger.not_wrote_fetched {mode : LockMode} {u : TransactionId} {p : PageId} {copy : Page}
    (hm : mode = .shared) (hw : l.wrote u p = false) :
    (l.record (.fetched t id mode copy)).wrote u p = false := by
  subst hm
  exact hw

variable {source : TableFile} {r : LockRequest} {stage : Stage}

/-- The page is granted, and there is no room for it in the cache. -/
def Store.lacksRoom (s : Store) (t : TransactionId) (source : TableFile) (r : LockRequest) : Bool :=
  match (s.locks.consider t r).1,
    ({ s with locks := (s.locks.consider t r).2 }.fetch t source r.page r.mode).1 with
  | .granted, .error .noEvictablePage => true
  | _, _ => false

theorem Store.lacksRoom_iff (hv : (s.locks.consider t r).1 = .granted) :
    s.lacksRoom t source r = true ↔
      ({ s with locks := (s.locks.consider t r).2 }.fetch t source r.page r.mode).1 =
        .error .noEvictablePage := by
  rw [lacksRoom, hv]
  split
  · rename_i h
    simp only [h]
  · rename_i h
    simp only [Bool.false_eq_true, false_iff]
    exact h rfl

namespace Store

/-- A store follows the ledger after a page is locked. -/
theorem Follows.granted (hs : s.Follows l) (hv : (s.locks.consider t r).1 = .granted) :
    Follows (l.after ((s.view r.page).lockEvents t r.mode))
      { s with locks := (s.locks.consider t r).2 } :=
  hs.moves (fun p => by simpa only [hv, if_true] using s.consider_moves t r p l) hs.numbered

theorem Follows.taken {page : Page} {mode : LockMode} (hs : s.Follows l)
    (hm : mode = .exclusive → s.locks.modeOf? id t = some .exclusive)
    (hp : s.cache.page? id = some page) :
    Follows (l.record (.fetched t id mode page)) (s.take t id mode) :=
  hs.moves (fun _ => Store.take_moves mode page hm hp) hs.numbered

/-- A page that is granted in exclusive mode is held so while the store is silent. -/
theorem Silent.exclusive_of_granted {s₁ : Store}
    (hq : Silent { s with locks := (s.locks.consider t r).2 } s₁)
    (hv : (s.locks.consider t r).1 = .granted) (hx : r.mode = .exclusive) :
    s₁.locks.modeOf? r.page t = some .exclusive := by
  rw [(hq.quiet r.page).locks]
  exact LockTable.modeOf?_self_of_granted hv hx

/-- A transaction may see a page that it has locked. -/
theorem Follows.openTo_of_granted (hs : s.Follows l) (hv : (s.locks.consider t r).1 = .granted) :
    (Store.view { s with locks := (s.locks.consider t r).2 } r.page).OpenTo t := by
  refine ((hs.granted hv).view r.page).openTo_of_mode ?_
  show (s.locks.consider t r).2.modeOf? r.page t ≠ none
  rw [LockTable.modeOf?_of_granted hv, if_pos ⟨rfl, rfl⟩]
  simp

end Store

namespace Store.Likeness

/-- A task that is given its page, as it is in the cache of either store, does the same. -/
theorem resume_taken (hR : Likeness t S R) {mode : LockMode} {page page' : Page}
    (h : R s s') (hs : s.Follows l) (hs' : s'.Follows l') (hin : stage.Within S)
    (ht : S.table id.table) (hm : mode = .exclusive → s.locks.modeOf? id t = some .exclusive)
    (hm' : mode = .exclusive → s'.locks.modeOf? id t = some .exclusive)
    (hp : s.cache.page? id = some page) (hp' : s'.cache.page? id = some page')
    (hpage : frame.page = taken t mode page) (hpage' : frame'.page = taken t mode page')
    (hi : ∀ p, ∀ ⦃i⦄, stage.insertion? = some i → i.SoundAt (s.view p).file)
    (hw : stage.writes = true → mode = .exclusive)
    (hr : stage.releases = true → mode = .shared ∧ l.wrote t id = false)
    (hr' : stage.releases = true → l'.wrote t id = false) :
    R (stage.resume (s.take t id mode) t (.ok frame)).1
        (stage.resume (s'.take t id mode) t (.ok frame')).1 ∧
      (stage.resume (s'.take t id mode) t (.ok frame')).2.bare =
          (stage.resume (s.take t id mode) t (.ok frame)).2.bare ∧
        (frame' = frame → (stage.resume (s'.take t id mode) t (.ok frame')).2 =
          (stage.resume (s.take t id mode) t (.ok frame)).2) := by
  have howner : ∀ {page : Page} {frame : Frame}, frame.page = taken t mode page →
      stage.writes = true → frame.page.owner = some t := by
    intro page frame hpage hx
    rw [hpage, hw hx]
    rfl
  exact hR.resume (hR.take h hs hs' ht hm hp hp') (hs.taken hm hp) (hs'.taken hm' hp') hin ht
    (page?_take_self hp hpage) (page?_take_self hp' hpage') hi (howner hpage) (howner hpage')
    (fun hx => Ledger.not_wrote_fetched (hr hx).1 (hr hx).2)
    (fun hx => Ledger.not_wrote_fetched (hr hx).1 (hr' hx))

/-- A request comes to the same on both.  If the very same copy is fetched, nothing can be told
apart. -/
theorem submit (hR : Likeness t S R) (h : R s s') (hs : s.Follows l) (hs' : s'.Follows l')
    (hin : stage.Within S) (ht : S.table r.page.table)
    (hf : s.catalog.file r.page.table = .ok source)
    (hi : ∀ p, ∀ ⦃i⦄, stage.insertion? = some i → i.SoundAt (s.view p).file)
    (hw : stage.writes = true → r.mode = .exclusive)
    (hr : stage.releases = true → r.mode = .shared ∧ l.wrote t r.page = false)
    (hr' : stage.releases = true → l'.wrote t r.page = false)
    (hroom : s'.lacksRoom t source r = s.lacksRoom t source r) :
    R (PagedStore.submit s t source r stage).2 (PagedStore.submit s' t source r stage).2 ∧
      (PagedStore.submit s' t source r stage).1.map Next.bare =
          (PagedStore.submit s t source r stage).1.map Next.bare ∧
        (((s.locks.consider t r).1 = .granted →
            ({ s' with locks := (s'.locks.consider t r).2 }.fetch t source r.page r.mode).1 =
              ({ s with locks := (s.locks.consider t r).2 }.fetch t source r.page r.mode).1) →
          (PagedStore.submit s' t source r stage).1 =
            (PagedStore.submit s t source r stage).1) := by
  obtain ⟨hverdict, hconsider⟩ := hR.consider h ht
  cases hv : (s.locks.consider t r).1 with
  | waits =>
      rw [(submit_of_waits source stage hv).2,
        (submit_of_waits source stage (hverdict.trans hv)).2]
      exact ⟨hconsider, rfl, fun _ => rfl⟩
  | refused =>
      rw [(submit_of_refused source stage hv).2,
        (submit_of_refused source stage (hverdict.trans hv)).2]
      have hnext := hR.resume_error hconsider hin (.aborted t)
      exact ⟨hconsider, congrArg (fun next : Next => some next.bare) hnext,
        fun _ => congrArg some hnext⟩
  | granted =>
      have hv' := hverdict.trans hv
      have hs₁ := hs.granted hv
      have hs₁' := hs'.granted hv'
      have hroom := Bool.eq_iff_iff.1 hroom.symm
      rw [lacksRoom_iff hv, lacksRoom_iff hv'] at hroom
      rw [(submit_of_granted source stage hv rfl).2, (submit_of_granted source stage hv' rfl).2]
      dsimp only [Option.map_some]
      rcases hR.fetch hconsider hs₁ hs₁' hf ht (hs.openTo_of_granted hv) r.mode hroom with
        ⟨e, he, he', hlike⟩ |
          ⟨s₂, s₂', page, page', frame, frame', hlike, hq, hq', hp, hp', hpage, hpage', hfe, hfe'⟩
      · rw [he, he', stage.resume_error, stage.resume_error]
        have hnext := hR.resume_error hlike hin e
        exact ⟨hlike, congrArg (fun next : Next => some next.bare) hnext,
          fun _ => congrArg some hnext⟩
      · rw [hfe, hfe']
        have hs₂ := hq.follows hs₁
        have hs₂' := hq'.follows hs₁'
        have hfile := fun p => ((hq.quiet p).moves l).file_view
        obtain ⟨hresumed, hnext, hsame⟩ := hR.resume_taken hlike hs₂ hs₂' hin ht
          (hq.exclusive_of_granted hv) (hq'.exclusive_of_granted hv') hp hp' hpage hpage'
          (fun p => (hfile p).symm ▸ hi p) hw (by rw [wrote_lockEvents]; exact hr)
          (by rw [wrote_lockEvents]; exact hr')
        exact ⟨hresumed, congrArg some hnext,
          fun hf => congrArg some (hsame (Except.ok.inj (hf rfl)))⟩

/-! ## Beginning a task -/

theorem start (hR : Likeness t S R) (h : R s s') (hs : s.Follows l) (hs' : s'.Follows l')
    {request : Request} (hin : request.Within S) :
    R (request.start s t).1 (request.start s' t).1 ∧
      (request.start s' t).2 = (request.start s t).2 := by
  cases request with
  | getPage page mode => exact ⟨h, rfl⟩
  | insert table schema rows =>
      cases schema with
      | some schema => exact hR.begin h hs hs' hin schema [] rows
      | none =>
          rw [Request.start, Request.start, hR.catalog h]
          split
          · exact ⟨h, rfl⟩
          · exact hR.begin h hs hs' hin _ [] rows
  | delete record =>
      cases record with
      | none => exact ⟨h, rfl⟩
      | some record =>
          rw [Request.start, Request.start, hR.catalog h]
          split <;> exact ⟨h, rfl⟩
  | deleteFrom table record =>
      rw [Request.start, Request.start, hR.catalog h]
      split
      · exact ⟨h, rfl⟩
      · cases record with
        | none => exact ⟨h, rfl⟩
        | some record =>
            dsimp only
            split <;> exact ⟨h, rfl⟩
  | pull number scan wanted =>
      refine ⟨h, ?_⟩
      simp only [Request.start, hR.pageCount h hin]

end Store.Likeness

end PagedStore

import PagedStore.Proofs.Growth
import PagedStore.Proofs.OwnChanges
import PagedStore.Proofs.Ownership
import PagedStore.Session.Basic

/-!
# Changes through handles

A transaction that has got a page may keep a handle on the copy, and change the copy through
the handle later on.  Meanwhile there is other traffic.  Pages are fetched, changed and
flushed, by the transaction itself and by others (`Traffic.HandleRun`).

A copy stays in the cache when it is flushed.  But a transaction that needs room may have to
give up a page of its own, and then its handle on this page is on a copy that the cache no
longer has.  What is done through the handle from then on reaches no page
(`Traffic.view_write_of_not_has`), and is lost (`Traffic.loses_change_of_loose_copy`).

As long as a handle is used only while the cache has its copy, nothing is lost.  When the
transaction has committed, the file has all that it has done to the page, through handles and
otherwise (`Traffic.kept_of_handleRun`).
-/

namespace PagedStore

open PageView (Agrees Develops Kept)

variable {p : PageId} {l l' : Ledger} {s s' : Store} {t u : TransactionId} {move : Move}
  {hd : Handle}

/-! ## Copies and handles -/

namespace Cache

variable {c c' : Cache} {mine : TransactionId → Prop}

/-- The cache has the copy that a handle is on. -/
def Has (c : Cache) (hd : Handle) : Prop := c.frames[hd.page]?.map Frame.copy = some hd.copy

instance (c : Cache) (hd : Handle) : Decidable (c.Has hd) :=
  inferInstanceAs (Decidable (_ = some hd.copy))

theorem has_iff : c.Has hd ↔ ∃ frame, c.frames[hd.page]? = some frame ∧ frame.copy = hd.copy :=
  Option.map_eq_some_iff

theorem copy?_of_has (h : c.Has hd) : c.copy? hd.page hd.copy = c.page? hd.page := by
  obtain ⟨frame, hf, hcopy⟩ := has_iff.1 h
  rw [copy?, page?, hf]
  exact if_pos hcopy

theorem updateCopy_of_has (h : c.Has hd) (f : Page → Page) :
    c.updateCopy hd.page hd.copy f = c.update hd.page f := by
  obtain ⟨frame, hf, hcopy⟩ := has_iff.1 h
  rw [updateCopy, hf]
  exact if_pos hcopy

/-- A loose copy is changed, and the cache stays as it is otherwise. -/
theorem updateCopy_of_not_has (h : ¬ c.Has hd) (f : Page → Page) :
    c.updateCopy hd.page hd.copy f = { c with loose := c.loose.modify hd.copy f } := by
  rw [updateCopy]
  split
  · rename_i frame hf
    exact if_neg fun hcopy => h (has_iff.2 ⟨frame, hf, hcopy⟩)
  · rfl

end Cache

/-- A transaction has a handle on a copy of a page that it has fetched for writing.  As long as
the cache has the copy it belongs to the transaction. -/
structure GripAt (p : PageId) (l : Ledger) (c : Cache) (t : TransactionId) (hd : Handle) :
    Prop where
  wrote : l.wrote t p = true
  /-- The number of the copy was given out. -/
  given : hd.copy < c.copies
  owner : ∀ ⦃f⦄, c.frames[p]? = some f → f.copy = hd.copy → f.page.owner = some t

namespace GripAt

variable {c c' : Cache} {mine : TransactionId → Prop} {a b : Ledger × Store}

theorem quiet (h : GripAt p l c t hd) (hk : c.KeepsAt p mine c')
    (hw : ∀ u, l'.wrote u p = l.wrote u p) : GripAt p l' c' t hd where
  wrote := by rw [hw, h.wrote]
  given := Nat.lt_of_lt_of_le h.given hk.copies
  owner f' hf' hcopy := by
    rcases hk.frame hf' with ⟨hge, -, -⟩ | ⟨f, hf, hsame, howner⟩
    · -- A new copy has a new number.
      rw [hcopy] at hge
      exact absurd h.given (Nat.not_lt.2 hge)
    · rw [howner]
      exact h.owner hf (hsame ▸ hcopy)

theorem take (h : GripAt p l s.cache t hd) (hm : MarkedAt p l s) {id : PageId} {mode : LockMode}
    (hx : mode = .exclusive → s.locks.modeOf? id u = some .exclusive) (copy : Page) :
    GripAt p (l.record (.fetched u id mode copy)) (s.take u id mode).cache t hd where
  wrote := Ledger.wrote_fetched.2 (Or.inr h.wrote)
  given := by
    rw [Store.copies_take]
    exact h.given
  owner f' hf' hcopy := by
    rw [Store.getElem?_frames_take] at hf'
    split at hf'
    · rename_i hid
      obtain ⟨f, hf, rfl⟩ := Option.map_eq_some_iff.1 hf'
      cases mode with
      | shared => exact h.owner hf hcopy
      | exclusive =>
          -- Nobody but the transaction holds the page in exclusive mode.
          exact congrArg some (hm.eq_of_mode (hm.locked h.wrote) (hid ▸ hx rfl))
    · exact h.owner hf' hcopy

theorem save (h : GripAt p l s.cache t hd) {id : PageId} (hu : u ≠ t)
    (ho : s.cache.owner? id = some u) (hs : s.commitPage id = .ok s') :
    GripAt p l s'.cache t hd := by
  obtain ⟨-, hc⟩ := Store.commitPage_of_owner ho hs
  rw [hc]
  refine ⟨h.wrote, h.given, fun f' hf' hcopy => ?_⟩
  rw [Cache.getElem?_frames_update] at hf'
  split at hf'
  · rename_i hid
    obtain ⟨f, hf, rfl⟩ := Option.map_eq_some_iff.1 hf'
    have hown := h.owner hf hcopy
    rw [hid, Cache.owner?, Cache.page?, hf] at ho
    exact absurd (Option.some.inj (ho.symm.trans hown)) hu
  · exact h.owner hf' hcopy

/-- The end of another transaction and what comes before it leave a handle alone. -/
theorem mark (h : GripAt p a.1 a.2.cache t hd) (hm : MarkedAt p a.1 a.2) (hs : Mark p move a b)
    (ht : ¬ move.ends t) : GripAt p b.1 b.2.cache t hd := by
  have hwrote := wrote_of_marks (.single hs) ht h.wrote
  cases hs with
  | quiet hk hw => exact h.quiet hk.cache hw
  | lock u r hc _ hw => exact ⟨hwrote, hc ▸ h.given, hc ▸ h.owner⟩
  | release u id _ hc => exact ⟨hwrote, hc ▸ h.given, hc ▸ h.owner⟩
  | take u id mode copy _ hx => exact h.take hm hx copy
  | save u id hu ho hs =>
      refine h.save ?_ ho hs
      rintro rfl
      exact ht hu
  | finish u _ _ hc => exact ⟨hwrote, hc ▸ h.given, hc ▸ h.owner⟩

theorem marks (h : GripAt p a.1 a.2.cache t hd) (hm : MarkedAt p a.1 a.2) (hs : Marks p move a b)
    (ht : ¬ move.ends t) : GripAt p b.1 b.2.cache t hd := by
  induction hs with
  | refl => exact h
  | tail hbefore hstep ih => exact ih.mark (hm.marks hbefore) hstep ht

end GripAt

/-! ## Getting a page for writing -/

namespace Store

/-- Who fetches a page is given the copy that is in the cache then. -/
theorem frame_of_fetch {f : TableFile} {id : PageId} {mode : LockMode} {frame : Frame}
    (h : s.fetch t f id mode = (.ok frame, s')) :
    s'.cache.frames[id]? = some frame ∧ (mode = .exclusive → frame.page.owner = some t) := by
  refine ⟨?_, ?_⟩
  · rw [fetch] at h
    split at h
    · cases h
    · simp only at h
      split at h
      · rename_i hf
        cases h
        exact hf
      · cases h
  · rintro rfl
    rcases s.fetch_eq t f id .exclusive with ⟨e, he⟩ | ⟨e, -, he⟩ | ⟨page, frame', -, ht, he⟩
    · rw [h] at he
      cases he
    · rw [h] at he
      cases he
    · rw [h] at he
      cases he
      rw [ht]
      rfl

end Store

/-- A request for a page that is answered gives the transaction the copy in the cache. -/
theorem submit_get {source : TableFile} {r : LockRequest} {frame : Frame}
    (h : (submit s t source r .get).1 = some (.answer (.page frame))) :
    submitEvents s t source r .get =
        (s.view r.page).lockEvents t r.mode ++ [.fetched t r.page r.mode frame.page] ∧
      (submit s t source r .get).2.cache.frames[r.page]? = some frame ∧
        (r.mode = .exclusive → frame.page.owner = some t) := by
  cases hv : (s.locks.consider t r).1 with
  | waits =>
      rw [(submit_of_waits source .get hv).2] at h
      cases h
  | refused =>
      rw [(submit_of_refused source .get hv).2] at h
      cases h
  | granted =>
      obtain ⟨he, hsub⟩ := submit_of_granted source .get hv rfl
      rw [hsub] at h ⊢
      rw [he]
      cases hf : ({ s with locks := (s.locks.consider t r).2 } : Store).fetch t source r.page
          r.mode with
      | mk result s' =>
          rw [hf] at h
          cases result with
          | error e => cases h
          | ok frame' =>
              cases h
              obtain ⟨hframe, howner⟩ := Store.frame_of_fetch hf
              exact ⟨rfl, hframe, howner⟩

namespace Traffic

variable {w w' : Traffic} {events : List Event} {task : Task}

/-- The handle that a transaction gets if its request is evaluated now, and is one for a page
for writing. -/
def grip? (w : Traffic) (t : TransactionId) (task : Task) : Option Handle :=
  match task.mode, task.stage with
  | .exclusive, .get =>
      (task.source.or (w.store.catalog.file task.page.table).toOption).bind fun source =>
        let request : LockRequest := { page := task.page, mode := .exclusive }
        match (PagedStore.submit w.store t source request .get).1 with
        | some (.answer (.page frame)) => some { page := task.page, copy := frame.copy }
        | _ => none
  | _, _ => none

theorem grip?_eq_some (h : w.grip? t task = some hd) :
    task.mode = .exclusive ∧ task.stage = .get ∧ task.page = hd.page ∧
      ∃ source frame, w.resume t task = w.submit t task source ∧
        (PagedStore.submit w.store t source { page := task.page, mode := .exclusive } .get).1 =
            some (.answer (.page frame)) ∧
          frame.copy = hd.copy := by
  unfold grip? at h
  split at h
  · rename_i hmode hstage
    obtain ⟨source, hsource, h⟩ := Option.bind_eq_some_iff.1 h
    dsimp only at h
    split at h
    · rename_i frame hsub
      cases h
      refine ⟨hmode, hstage, rfl, source, frame, ?_, hsub, rfl⟩
      rw [Traffic.resume]
      cases ht : task.source with
      | some f =>
          rw [ht] at hsource
          cases hsource
          rfl
      | none =>
          rw [ht, Option.none_or] at hsource
          cases hf : w.store.catalog.file task.page.table with
          | error e =>
              rw [hf] at hsource
              cases hsource
          | ok f =>
              rw [hf] at hsource
              cases hsource
              rfl
    · cases h
  · cases h

/-- The transaction has a handle on the page then. -/
theorem gripAt_of_grip? (h : w.grip? t task = some hd) (hp : hd.page = p)
    (hm : MarkedAt p (l.after (w.resume t task).1) (w.resume t task).2.store) :
    GripAt p (l.after (w.resume t task).1) (w.resume t task).2.store.cache t hd := by
  obtain ⟨hmode, hstage, hpage, source, frame, hr, hsub, hcopy⟩ := grip?_eq_some h
  obtain rfl : task.page = p := hpage.trans hp
  obtain ⟨he, hframe, howner⟩ := submit_get hsub
  have hevents : (w.resume t task).1 =
      submitEvents w.store t source { page := task.page, mode := .exclusive } .get := by
    rw [hr, ← hmode, ← hstage]
    rfl
  have hstore : (w.resume t task).2.store =
      (PagedStore.submit w.store t source { page := task.page, mode := .exclusive } .get).2 := by
    rw [hr, store_submit, hmode, hstage]
  rw [hevents, hstore] at hm ⊢
  refine ⟨?_, ?_, fun f hf _ => ?_⟩
  · rw [he, Ledger.after_append]
    show (Ledger.record _ (.fetched t task.page .exclusive frame.page)).wrote t task.page = true
    exact Ledger.wrote_fetched.2 (Or.inl ⟨rfl, rfl, rfl⟩)
  · rw [← hcopy]
    exact hm.counted hframe
  · rw [hframe] at hf
    cases hf
    exact howner rfl

/-! ## Runs with handles -/

/-- The handles after a move.  A transaction gets one with a page for writing, and has none left
when it is to end. -/
def regrip (w : Traffic) (grips : List (TransactionId × Handle)) :
    Move → List (TransactionId × Handle)
  | .resume t => (((w.tasks t).bind (w.grip? t)).map fun hd => (t, hd)).toList ++ grips
  | .commit t | .abort t => grips.filter fun grip => grip.1 ≠ t
  | _ => grips

/-- The traffic after the copy that a handle is on is changed. -/
def write (w : Traffic) (hd : Handle) (page : Page) : Traffic :=
  { w with store := w.store.onCache fun c => c.updateCopy hd.page hd.copy fun _ => page }

/-- The history of a run in which transactions change pages also through handles that they
have, the traffic after it, and the handles.  A handle is used only where it is free to be
used. -/
inductive HandleRun (rule : Ledger → Traffic → Move → Traffic → Prop)
    (free : Cache → Handle → Prop) (s₀ : Store) :
    List Event → Traffic → List (TransactionId × Handle) → Prop
  | start : HandleRun rule free s₀ [] { store := s₀ } []
  /-- A move is made. -/
  | move {history events : List Event} {w w' : Traffic} {grips : List (TransactionId × Handle)}
      {move : Move} :
      HandleRun rule free s₀ history w grips → rule (Ledger.of history) w move w' →
        w.step move = some (events, w') →
          HandleRun rule free s₀ (history ++ events) w' (w.regrip grips move)
  /-- A transaction changes a copy through a handle. -/
  | write {history : List Event} {w : Traffic} {grips : List (TransactionId × Handle)}
      {t : TransactionId} {hd : Handle} {page page' : Page} {change : Change} :
      HandleRun rule free s₀ history w grips → (t, hd) ∈ grips → free w.store.cache hd →
        w.store.cache.copy? hd.page hd.copy = some page → change.Made page page' →
          HandleRun rule free s₀ (history ++ [.changed t change]) (w.write hd page') grips

/-- The handles after many moves. -/
def regrips (w : Traffic) (grips : List (TransactionId × Handle)) :
    List Move → List (TransactionId × Handle)
  | [] => grips
  | move :: moves =>
      match w.step move with
      | none => grips
      | some (_, w') => w'.regrips (w.regrip grips move) moves

/-- A run goes on with more moves that keep to the rule. -/
theorem HandleRun.steps {rule : Ledger → Traffic → Move → Traffic → Prop}
    {free : Cache → Handle → Prop} {s₀ : Store} {history events : List Event}
    {w w' : Traffic} {grips : List (TransactionId × Handle)} {moves : List Move}
    (h : HandleRun rule free s₀ history w grips)
    (hr : ∀ move ∈ moves, ∀ l w w', rule l w move w') (hs : w.steps moves = some (events, w')) :
    HandleRun rule free s₀ (history ++ events) w' (w.regrips grips moves) := by
  induction moves generalizing history events w grips with
  | nil =>
      cases hs
      rw [List.append_nil]
      exact h
  | cons move moves ih =>
      rw [Traffic.steps] at hs
      rw [regrips]
      cases hstep : w.step move with
      | none =>
          rw [hstep] at hs
          cases hs
      | some first =>
          obtain ⟨events₁, w₁⟩ := first
          rw [hstep] at hs
          obtain ⟨⟨rest, w₂⟩, hrest, hmk⟩ := Option.map_eq_some_iff.1 hs
          cases hmk
          have hnext := h.move (hr move List.mem_cons_self _ _ _) hstep
          rw [← List.append_assoc]
          exact ih hnext (fun m hm => hr m (List.mem_cons_of_mem _ hm)) hrest

/-- A handle that a transaction has after a move is one that it had, or one on the page that it
has got. -/
theorem mem_regrip {grips : List (TransactionId × Handle)} (h : (t, hd) ∈ w.regrip grips move) :
    ((t, hd) ∈ grips ∧ ¬ move.ends t) ∨
      ∃ task, move = .resume t ∧ w.tasks t = some task ∧ w.grip? t task = some hd := by
  cases move with
  | resume u =>
      rcases List.mem_append.1 h with h | h
      · obtain ⟨hd', hgrip, he⟩ := Option.map_eq_some_iff.1 (Option.mem_toList.1 h)
        cases he
        obtain ⟨task, ht, hgrip⟩ := Option.bind_eq_some_iff.1 hgrip
        exact Or.inr ⟨task, rfl, ht, hgrip⟩
      · exact Or.inl ⟨h, id⟩
  | commit u | abort u =>
      obtain ⟨h, hne⟩ := List.mem_filter.1 h
      exact Or.inl ⟨h, by simpa [Move.ends] using hne⟩
  | _ => exact Or.inl ⟨h, id⟩

/-! ### A small store -/

namespace Small

/-- The handle on the copy of the first page that is read first. -/
def grip : Handle := { page := page 0, copy := 0 }

/-- The traffic after the row of the first page is deleted through the handle, if it can be. -/
def wiped? (w : Traffic) : Option Traffic :=
  (w.store.cache.copy? grip.page grip.copy).bind fun copy =>
    match copy.delete (record 0) with
    | .ok copy => some (w.write grip copy)
    | .error _ => none

/-- The traffic after this, or as it was. -/
def wiped (w : Traffic) : Traffic := (wiped? w).getD w

/-- The event of this. -/
def wipe : Event := .changed ⟨0⟩ (.delete { page := page 0, slot := 0 })

/-- The first transaction fetches the first page for writing, and the page is flushed. -/
def flushed : List Move := [.start ⟨0⟩ (.getPage (page 0) .exclusive), .resume ⟨0⟩, .flushAll]

variable {free : Cache → Handle → Prop}

theorem handleRun {moves : List Move} (hp : ∀ move ∈ moves, move.isPlain = true)
    (hs : (({ store } : Traffic).steps moves).isSome = true) :
    HandleRun Orderly free store (after moves).1 (after moves).2
      (({ store } : Traffic).regrips [] moves) :=
  HandleRun.steps .start (fun move hm _ _ _ => orderly_of_isPlain (hp move hm))
    (eq_some_getD hs _)

theorem handleRun_wiped {rule : Ledger → Traffic → Move → Traffic → Prop} {s₀ : Store}
    {history : List Event} {w : Traffic} {grips : List (TransactionId × Handle)}
    (h : HandleRun rule free s₀ history w grips) (hg : (⟨0⟩, grip) ∈ grips)
    (hf : free w.store.cache grip) (hw : (wiped? w).isSome = true) :
    HandleRun rule free s₀ (history ++ [wipe]) (wiped w) grips := by
  obtain ⟨w', hw'⟩ := Option.isSome_iff_exists.1 hw
  rw [wiped, hw', Option.getD_some]
  obtain ⟨copy, hcopy, hdelete⟩ := Option.bind_eq_some_iff.1 hw'
  split at hdelete
  · rename_i copy' hok
    cases hdelete
    exact h.write hg hf hcopy (.delete hok)
  · cases hdelete

end Small

/-! ## What a change through a handle does -/

/-- A change of a copy that the cache does not have changes no page. -/
theorem view_write_of_not_has (h : ¬ w.store.cache.Has hd) (page : Page) (p : PageId) :
    (w.write hd page).store.view p = w.store.view p := by
  show (w.store.onCache fun c => c.updateCopy hd.page hd.copy fun _ => page).view p = _
  rw [Store.view_onCache, Cache.updateCopy_of_not_has h]
  rfl

/-- A handle that a transaction has after a move is on a copy of its own. -/
theorem CarefulAt.grips_of_remarked {grips : List (TransactionId × Handle)}
    (h : w.CarefulAt p l) (hr : Remarked p move l w (l.after events) w')
    (hs : w.step move = some (events, w'))
    (hg : ∀ ⦃t hd⦄, (t, hd) ∈ grips → hd.page = p → GripAt p l w.store.cache t hd)
    ⦃t : TransactionId⦄ ⦃hd : Handle⦄ (hgrip : (t, hd) ∈ w.regrip grips move)
    (hp : hd.page = p) : GripAt p (l.after events) w'.store.cache t hd := by
  rcases mem_regrip hgrip with ⟨hgrip, ht⟩ | ⟨task, rfl, htask, hgrip⟩
  · exact (hg hgrip hp).marks h.marked hr.marks ht
  · have hstep : w.resume t task = (events, w') := by
      have hs : (w.tasks t).map (w.resume t) = some (events, w') := hs
      rw [htask] at hs
      exact Option.some.inj hs
    have hnew := gripAt_of_grip? (l := l) hgrip hp
    rw [hstep] at hnew
    exact hnew (h.remarked hr).marked

/-- A change of a copy that the cache has is a change of the page. -/
theorem write_of_has (hk : w.store.cache.Keyed) (hhas : w.store.cache.Has hd) {page page' : Page}
    {change : Change} (hcopy : w.store.cache.copy? hd.page hd.copy = some page)
    (hmade : change.Made page page') :
    w.store.cache.page? hd.page = some page ∧ w.write hd page' =
      { w with store := w.store.onCache fun c => c.update page'.id fun _ => page' } := by
  rw [Cache.copy?_of_has hhas] at hcopy
  have hid : page'.id = hd.page := by rw [hmade.same, ← hk hcopy]
  refine ⟨hcopy, ?_⟩
  rw [write, Store.onCache, Cache.updateCopy_of_has hhas, hid]
  rfl

/-- All is well with a page, its exclusive holder finds there what it has made of it, and the
handles on it are on copies of their transactions. -/
structure HandledAt (p : PageId) (l : Ledger) (w : Traffic)
    (grips : List (TransactionId × Handle)) : Prop where
  sound : w.SoundAt p l
  careful : w.CarefulAt p l
  develops : Develops l (w.store.view p)
  grips : ∀ ⦃t hd⦄, (t, hd) ∈ grips → hd.page = p → GripAt p l w.store.cache t hd

namespace HandledAt

variable {grips : List (TransactionId × Handle)}

theorem start {s₀ : Store} (h₀ : Fresh s₀) (hn : s₀.NumberedAt p) :
    HandledAt p {} { store := s₀ } [] where
  sound := soundAt_start h₀ hn
  careful := carefulAt_start h₀.cache h₀.locks
  develops := by
    refine .of_forall_not (fun t hm => ?_) (fun hx _ => by cases hx) fun _ => rfl
    rw [h₀.mode_view] at hm
    cases hm
  grips _ _ hg := by cases hg

theorem step (h : HandledAt p l w grips) (hr : Orderly l w move w')
    (hs : w.step move = some (events, w')) (hn : w'.store.NumberedAt p) :
    HandledAt p (l.after events) w' (w.regrip grips move) := by
  have hturned := turned_of_step h.sound hs (hr.tidyAt hn)
  have hmarks := marks_of_step h.careful (fun _ hm => hr.guarded hm) hs
  exact ⟨hturned.sound, h.careful.remarked hmarks,
    h.develops.turns hturned.turns h.sound.agrees, h.careful.grips_of_remarked hmarks hs h.grips⟩

/-- A change of a cached copy through a handle is a change of the page by its owner. -/
theorem write (h : HandledAt p l w grips) {page page' : Page} {change : Change}
    (hg : (t, hd) ∈ grips) (hhas : w.store.cache.Has hd)
    (hcopy : w.store.cache.copy? hd.page hd.copy = some page) (hmade : change.Made page page') :
    HandledAt p (l.record (.changed t change)) (w.write hd page') grips := by
  obtain ⟨hcopy, hwrite⟩ := write_of_has h.sound.store.keyed hhas hcopy hmade
  have howner : hd.page = p → page.owner = some t := by
    intro hp
    obtain ⟨frame, hf, hsame⟩ := Cache.has_iff.1 hhas
    have hown := (h.grips hg hp).owner (hp ▸ hf) hsame
    rw [Cache.page?, hf] at hcopy
    cases hcopy
    exact hown
  have hmoves := Store.change_moves (p := p) (l := l) h.sound.store hcopy howner hmade
  have hkeeps : w.store.KeepsAt p (fun _ => True) _ :=
    Store.keepsAt_change h.sound.store.keyed hcopy hmade.same fun _ _ => trivial
  rw [hwrite]
  have hturned := h.sound.turned_of_tasks (e := [.changed t change]) hmoves h.sound.numbered
    fun _ _ hm => by cases List.mem_singleton.1 hm
  refine ⟨hturned.sound, ⟨h.careful.marked.quiet hkeeps fun _ => rfl, ?_⟩,
    h.develops.turns hturned.turns h.sound.agrees, ?_⟩
  · exact fun u task ht => (h.careful.tasks ht).mono fun hw => hw
  · exact fun u hd' hg' hp => (h.grips hg' hp).quiet hkeeps.cache fun _ => rfl

end HandledAt

/-- After every orderly run in which handles are used only while the cache has their copies, all
is well with a page. -/
theorem handledAt_of_run {s₀ : Store} {history : List Event}
    {grips : List (TransactionId × Handle)} (h₀ : Fresh s₀)
    (h : HandleRun Orderly Cache.Has s₀ history w grips) (hn : w.store.NumberedAt p) :
    w.HandledAt p (Ledger.of history) grips := by
  induction h with
  | start => exact .start h₀ hn
  | move _ hrule hs ih =>
      rw [Ledger.of_append]
      exact (ih ((grew_of_step hrule hs).numberedAt hn)).step hrule hs hn
  | write _ hg hhas hcopy hmade ih =>
      rw [Ledger.of_append]
      exact (ih hn).write hg hhas hcopy hmade

/-- What a transaction does to a page is in the file when it has committed, be it done through a
handle or otherwise, and however often the page was flushed in between, or left the cache and
came back.  A handle may be used only while the cache has its copy, and the table of the page has
fewer than `2 ^ 32` pages. -/
theorem kept_of_handleRun {s₀ : Store} {history : List Event}
    {grips : List (TransactionId × Handle)} (h₀ : Fresh s₀)
    (h : HandleRun Orderly Cache.Has s₀ history w grips) (hg : (t, hd) ∈ grips)
    (hn : w.store.NumberedAt hd.page) (hok : (w.store.commit t).1 = .ok ()) :
    Kept (Ledger.of history) t ((w.store.commit t).2.view hd.page) := by
  have hw := handledAt_of_run h₀ h hn
  have hview : (w.store.commit t).2.view hd.page = (w.store.view hd.page).committed t := by
    rcases Store.commit_cases hw.sound.store t with ⟨-, -, -, -, hv⟩ | ⟨e, -, -, he, -⟩
    · exact hv hd.page
    · rw [he] at hok
      cases hok
  rw [hview]
  exact hw.develops.kept_committed hw.sound.agrees (hw.grips hg rfl).wrote

theorem kept_of_handleRun_small :
    HandleRun Orderly Cache.Has Small.store ((Small.after Small.flushed).1 ++ [Small.wipe])
        (Small.wiped (Small.after Small.flushed).2)
        (({ store := Small.store } : Traffic).regrips [] Small.flushed) ∧
      ((Small.wiped (Small.after Small.flushed).2).store.commit ⟨0⟩).1 = .ok () ∧
        Kept (Ledger.of ((Small.after Small.flushed).1 ++ [Small.wipe])) ⟨0⟩
            (((Small.wiped (Small.after Small.flushed).2).store.commit ⟨0⟩).2.view
              (Small.page 0)) ∧
          (((Small.wiped (Small.after Small.flushed).2).store.commit ⟨0⟩).2.view
            (Small.page 0)).image = some [0, 0, 0, 0, 0] := by
  have hg : (⟨0⟩, Small.grip) ∈ ({ store := Small.store } : Traffic).regrips [] Small.flushed := by
    decide +kernel
  have hrun : HandleRun Orderly Cache.Has Small.store _ _ _ :=
    Small.handleRun_wiped (Small.handleRun (by decide) (by decide +kernel)) hg
      (by decide +kernel) (by decide +kernel)
  have hn := Small.numberedAt (s := (Small.wiped (Small.after Small.flushed).2).store)
    (by decide +kernel) (by decide +kernel) (Small.page 0)
  have hok : ((Small.wiped (Small.after Small.flushed).2).store.commit ⟨0⟩).1 = .ok () := by rfl
  exact ⟨hrun, hok, kept_of_handleRun Small.fresh hrun hg hn hok, by decide +kernel⟩

/-- After its page has left the cache the handle of a transaction is on a loose copy, and what is
done through it is lost. -/
theorem loses_change_of_loose_copy :
    HandleRun Orderly (fun _ _ => True) Small.store
        ((Small.after Small.fetches).1 ++ [Small.wipe])
        (Small.wiped (Small.after Small.fetches).2)
        (({ store := Small.store } : Traffic).regrips [] Small.fetches) ∧
      (⟨0⟩, Small.grip) ∈ ({ store := Small.store } : Traffic).regrips [] Small.fetches ∧
        ((Small.wiped (Small.after Small.fetches).2).store.commit ⟨0⟩).1 = .ok () ∧
          ¬ Kept (Ledger.of ((Small.after Small.fetches).1 ++ [Small.wipe])) ⟨0⟩
            (((Small.wiped (Small.after Small.fetches).2).store.commit ⟨0⟩).2.view
              (Small.page 0)) := by
  refine ⟨Small.handleRun_wiped (Small.handleRun (by decide) (by decide +kernel))
    (by decide +kernel) trivial (by decide +kernel), by decide +kernel, by rfl, by decide +kernel⟩

end Traffic

end PagedStore

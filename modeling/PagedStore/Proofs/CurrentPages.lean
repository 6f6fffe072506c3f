import PagedStore.Proofs.CacheRuns
import PagedStore.Proofs.Registration
import PagedStore.Proofs.SerialReplay

/-!
# Pages and the catalog

A table may be registered anew, with other columns for the same file.  The cache is not told of
it.  A page that is cached stays as it was read, and so does a request that has looked up the file
of its page and waits.  So a transaction may be given a page with columns that the catalog no
longer knows (`Traffic.not_current_small`).

A page is *known* by the columns that it is cached with, and by those that a waiting request
would read it with (`Traffic.KnownAs`).  As long as its table is registered with the columns that
it is known by, whoever gets the page gets it with the columns and the slots that the catalog asks
for (`Traffic.current_of_fetched`).  It is enough to look back to a point where the page was known
by no columns.  What was registered before does not matter, and nothing is asked of other tables,
of the files and of what is done through handles.
-/

namespace PagedStore

open Relation (ReflTransGen)
open Std (ExtTreeMap)

/-! ## Registrations -/

namespace Catalog

variable {c c' : Catalog}

/-- The files of all tables have the page size of the catalog. -/
def OfOneSize (c : Catalog) : Prop := ∀ ⦃t f⦄, c.file t = .ok f → f.pageSize = c.pageSize

/-- What registrations make of a catalog: a table is added, or all are forgotten. -/
inductive Registers (c : Catalog) : Catalog → Prop
  | add {c' : Catalog} {file : TableFile} {name : String} {key : Option String} :
      c.add file name key = .ok c' → Registers c c'
  | clear : Registers c c.clear

theorem pageSize_of_add {file : TableFile} {name : String} {key : Option String}
    (h : c.add file name key = .ok c') : c'.pageSize = c.pageSize ∧ file.pageSize = c.pageSize := by
  have hname : ∀ c : Catalog, ∀ name, (c.forgetName name).pageSize = c.pageSize := by
    intro c name
    rw [forgetName]
    split <;> rfl
  have htable : ∀ c : Catalog, ∀ t, (c.forgetTable t).pageSize = c.pageSize := by
    intro c t
    rw [forgetTable]
    split <;> rfl
  rw [add] at h
  split at h
  · cases h
  · rename_i hsize
    cases h
    exact ⟨(htable ..).trans (hname ..), Decidable.not_not.1 hsize⟩

theorem Registers.pageSize_eq (h : c.Registers c') : c'.pageSize = c.pageSize := by
  cases h with
  | add ha => exact (pageSize_of_add ha).1
  | clear => rfl

theorem OfOneSize.registers (h : c.OfOneSize) (hr : c.Registers c') : c'.OfOneSize := by
  intro t f hf
  rw [hr.pageSize_eq]
  cases hr with
  | add ha =>
      rcases file_of_add ha hf with ⟨-, rfl⟩ | hf
      · exact (pageSize_of_add ha).2
      · exact h hf
  | clear =>
      obtain ⟨e, he, -⟩ := file_eq_ok.1 hf
      simp [clear] at he

end Catalog

/-! ## The shape of a cached page -/

namespace Cache

variable {c c' : Cache} {p : PageId} {P : Page → Prop} {Q : Schema → Nat → Prop} {room : Nat}

/-- The page is not cached, or with columns and a number of slots of a kind. -/
def ShapedAt (p : PageId) (Q : Schema → Nat → Prop) (c : Cache) : Prop :=
  ∀ ⦃page⦄, c.page? p = some page → Q page.schema page.slots.length

/-- The shape of a page is settled when it comes in. -/
theorem ShapedAt.shift (h : c.ShapedAt p Q) (hs : Shift P room c c')
    (hP : ∀ page, P page → page.id = p → Q page.schema page.slots.length) : c'.ShapedAt p Q := by
  cases hs with
  | load hnew _ _ =>
      intro page hp
      rw [page?_touch, page?_load] at hp
      split at hp
      · rename_i hid
        cases hp
        exact hP _ hnew hid
      · exact h hp
  | touch _ => exact h
  | edit hf =>
      intro page hp
      rw [page?_update] at hp
      split at hp
      · rename_i hid
        obtain ⟨old, hold, rfl⟩ := Option.map_eq_some_iff.1 hp
        have hsame := hf old (hid ▸ hold)
        rw [hsame.schema_eq, hsame.length_slots]
        exact h hold
      · exact h hp
  | drop id =>
      intro page hp
      rw [page?_drop] at hp
      split at hp
      · cases hp
      · exact h hp
  | beside hf _ =>
      intro page hp
      rw [page?, hf] at hp
      exact h hp

theorem ShapedAt.shifts (h : c.ShapedAt p Q) (hs : Shifts P room c c')
    (hP : ∀ page, P page → page.id = p → Q page.schema page.slots.length) : c'.ShapedAt p Q := by
  induction hs with
  | refl => exact h
  | tail _ hlast ih => exact ih.shift hlast hP

end Cache

/-- A page has the columns of the file that gives it, and all slots that there is room for. -/
theorem TableFile.Yields.shape {f : TableFile} {id : PageId} {page : Page} (h : f.Yields id page) :
    page.id = id ∧ page.schema = f.schema ∧
      page.slots.length = slotsPerPage f.pageSize f.schema := by
  obtain ⟨image, hd⟩ := h
  obtain ⟨-, hid, hschema, -⟩ := Page.decode_eq_ok hd
  exact ⟨hid, hschema, Page.length_slots_of_decode hd⟩

namespace Traffic

variable {w w' : Traffic} {move : Move} {events : List Event} {p : PageId} {t : TransactionId}
  {rule : Traffic → Move → Prop}

/-! ## What happens -/

/-- One thing that happens: a move that keeps to a rule, or a change of a copy through a
handle. -/
inductive Happens (rule : Traffic → Move → Prop) : Traffic → Traffic → Prop
  | move {w w' : Traffic} {events : List Event} {move : Move} :
      rule w move → w.step move = some (events, w') → Happens rule w w'
  | write {w : Traffic} {hd : Handle} {page page' : Page} :
      w.store.cache.copy? hd.page hd.copy = some page → page.SameShape page' →
        Happens rule w (w.write hd page')

/-- Tables are replaced by registrations.  The files may be changed in any way. -/
def Registering (w : Traffic) : Move → Prop
  | .replace catalog _ => w.store.catalog.Registers catalog
  | _ => True

/-- The page is cached with these columns, or a request for it waits that has looked up a file
with these columns. -/
def KnownAs (w : Traffic) (p : PageId) (schema : Schema) : Prop :=
  (∃ page, w.store.cache.page? p = some page ∧ page.schema = schema) ∨
    ∃ t task source, w.tasks t = some task ∧ task.page = p ∧ task.source = some source ∧
      source.schema = schema

/-- Besides, the table of a page is registered with the columns that the page is known by. -/
def Respecting (p : PageId) (w : Traffic) (move : Move) : Prop :=
  Registering w move ∧
    match move with
    | .replace catalog _ => ∀ ⦃schema f⦄, w.KnownAs p schema → catalog.file p.table = .ok f →
        schema.SameTypes f.schema
    | _ => True

theorem registering_of_isPlain (h : move.isPlain = true) : Registering w move := by
  cases move with
  | discard | release | replace => cases h
  | _ => trivial

theorem respecting_of_isPlain (h : move.isPlain = true) : Respecting p w move := by
  refine ⟨registering_of_isPlain h, ?_⟩
  cases move with
  | discard | release | replace => cases h
  | _ => trivial

theorem Happens.mono {more : Traffic → Move → Prop} (h : Happens rule w w')
    (hm : ∀ w move, rule w move → more w move) : Happens more w w' := by
  cases h with
  | move hr hs => exact .move (hm _ _ hr) hs
  | write hc hsame => exact .write hc hsame

/-! ## The files of requests -/

theorem source_of_ofNext {next : Next} {task : Task} (h : Task.ofNext next = some task) :
    task.source = none := by
  cases next with
  | answer => cases h
  | ask =>
      cases h
      rfl

/-- A file that a request has looked up is the one that it went by before. -/
theorem asked_of_step (hs : w.step move = some (events, w')) {task' : Task} {source : TableFile}
    (ht : w'.tasks t = some task') (hsource : task'.source = some source) :
    ∃ task, w.tasks t = some task ∧ task.page = task'.page ∧ w.sourceOf task = .ok source := by
  have hsame : w.tasks t = some task' → ∃ task, w.tasks t = some task ∧
      task.page = task'.page ∧ w.sourceOf task = .ok source := by
    intro h
    exact ⟨task', h, rfl, by rw [sourceOf, hsource]⟩
  have hturn : ∀ {u store task}, (w.turn u store task).tasks t = some task' →
      (t = u ∧ task = some task') ∨ w.tasks t = some task' := by
    intro u store task h
    by_cases hu : t = u
    · exact Or.inl ⟨hu, (if_pos hu).symm.trans h⟩
    · exact Or.inr ((if_neg hu).symm.trans h)
  have hnone : ∀ next, Task.ofNext next ≠ some task' := by
    intro next h
    rw [source_of_ofNext h] at hsource
    cases hsource
  cases move with
  | start u request =>
      simp only [step] at hs
      split at hs
      · cases hs
      · cases hs
        exact (hturn ht).elim (fun h => absurd h.2 (hnone _)) hsame
  | resume u =>
      obtain ⟨task, htask, hr⟩ := Option.map_eq_some_iff.1 hs
      cases hlooked : w.sourceOf task with
      | error e =>
          rw [resume_of_error hlooked] at hr
          cases hr
          exact (hturn ht).elim (fun h => absurd h.2 (hnone _)) hsame
      | ok looked =>
          rw [resume_of_source hlooked, submit] at hr
          split at hr
          · cases hr
            rcases hturn ht with ⟨rfl, h⟩ | h
            · cases h
              cases hsource
              exact ⟨task, htask, rfl, hlooked⟩
            · exact hsame h
          · cases hr
            exact (hturn ht).elim (fun h => absurd h.2 (hnone _)) hsame
  | flushPage page =>
      simp only [step] at hs
      split at hs <;> cases hs <;> exact hsame ht
  | _ =>
      cases hs
      exact hsame ht

/-! ## Whole pages -/

/-- Everything is of one page size: the files of the tables, those that requests have looked up,
and the cached pages, which have all slots that there is room for. -/
structure Whole (w : Traffic) : Prop where
  inOrder : w.store.InOrder
  registered : w.store.catalog.OfOneSize
  asked : ∀ ⦃t task source⦄, w.tasks t = some task → task.source = some source →
    source.pageSize = w.store.catalog.pageSize
  cached : ∀ id, w.store.cache.ShapedAt id fun schema slots =>
    slots = slotsPerPage w.store.catalog.pageSize schema

theorem Whole.pageSize_of_sourceOf (h : w.Whole) {task : Task} {source : TableFile}
    (ht : w.tasks t = some task) (hs : w.sourceOf task = .ok source) :
    source.pageSize = w.store.catalog.pageSize := by
  rw [sourceOf] at hs
  split at hs
  · rename_i hlooked
    cases hs
    exact h.asked ht hlooked
  · exact h.registered hs

/-- A page that comes in is whole. -/
theorem Whole.shape_of_admits (h : w.Whole) {page : Page} (ha : w.Admits move page) :
    page.slots.length = slotsPerPage w.store.catalog.pageSize page.schema := by
  obtain ⟨t, task, source, -, ht, hs, hy⟩ := ha
  obtain ⟨-, hschema, hslots⟩ := hy.shape
  rw [hslots, hschema, h.pageSize_of_sourceOf ht hs]

theorem catalog_of_step (hr : ∀ catalog disk, move ≠ .replace catalog disk)
    (hs : w.step move = some (events, w')) : w'.store.catalog = w.store.catalog :=
  (grew_of_ne_replace hr hs).catalog

theorem Whole.happens (h : w.Whole) (hs : Happens Registering w w') : w'.Whole := by
  cases hs with
  | write hc hsame =>
      have hshifts : w.store.Shifts (fun _ => False) (w.write _ _).store := shifts_write hc hsame
      exact ⟨hshifts.inOrder h.inOrder, h.registered, h.asked,
        fun id => (h.cached id).shifts hshifts.cache fun page hf => hf.elim⟩
  | @move _ events move hrule hs =>
      have hsize : w'.store.catalog.pageSize = w.store.catalog.pageSize ∧
          w'.store.catalog.OfOneSize := by
        cases move with
        | replace catalog disk =>
            cases hs
            exact ⟨Catalog.Registers.pageSize_eq hrule, h.registered.registers hrule⟩
        | _ =>
            rw [catalog_of_step (by simp) hs]
            exact ⟨rfl, h.registered⟩
      have hshifts := shifts_of_step h.inOrder hs
      refine ⟨hshifts.inOrder h.inOrder, hsize.2, ?_, ?_⟩
      · intro t task source ht hsource
        obtain ⟨old, hold, -, hlooked⟩ := asked_of_step hs ht hsource
        rw [hsize.1]
        exact h.pageSize_of_sourceOf hold hlooked
      · intro id
        rw [hsize.1]
        exact (h.cached id).shifts hshifts.cache fun page ha _ => h.shape_of_admits ha

theorem whole_of_happens {s₀ : Store} (hc : s₀.cache = ∅) (hsize : s₀.catalog.OfOneSize)
    (h : ReflTransGen (Happens Registering) { store := s₀ } w) : w.Whole := by
  induction h with
  | refl =>
      have hempty : s₀.InOrder := by
        rw [Store.InOrder, hc]
        exact .empty _
      refine ⟨hempty, hsize, fun _ _ _ ht => (by cases ht), fun id page hp => ?_⟩
      have hnone : s₀.cache.page? id = none := by
        rw [hc]
        rfl
      rw [hnone] at hp
      cases hp
  | tail _ hlast ih => exact ih.happens hlast

/-! ## Current pages -/

/-- The columns that the page is known by are those of its table. -/
def CurrentAt (p : PageId) (w : Traffic) : Prop :=
  ∀ ⦃schema f⦄, w.KnownAs p schema → w.store.catalog.file p.table = .ok f →
    schema.SameTypes f.schema

theorem CurrentAt.sourceOf (h : w.CurrentAt p) {task : Task} {source f : TableFile}
    (ht : w.tasks t = some task) (hp : task.page = p) (hs : w.sourceOf task = .ok source)
    (hf : w.store.catalog.file p.table = .ok f) : source.schema.SameTypes f.schema := by
  rw [Traffic.sourceOf] at hs
  split at hs
  · rename_i hlooked
    cases hs
    exact h (Or.inr ⟨t, task, source, ht, hp, hlooked, rfl⟩) hf
  · rw [hp, hf] at hs
    cases hs
    rfl

theorem CurrentAt.shapedAt (h : w.CurrentAt p) {f : TableFile}
    (hf : w.store.catalog.file p.table = .ok f) :
    w.store.cache.ShapedAt p fun schema _ => schema.SameTypes f.schema :=
  fun page hp => h (Or.inl ⟨page, hp, rfl⟩) hf

theorem CurrentAt.happens (h : w.CurrentAt p) (hw : w.Whole) (hs : Happens (Respecting p) w w') :
    w'.CurrentAt p := by
  cases hs with
  | write hc hsame =>
      intro schema f hknown hf
      rcases hknown with ⟨page, hp, rfl⟩ | hasked
      · have hshifts : w.store.Shifts (fun _ => False) (w.write _ _).store := shifts_write hc hsame
        exact (h.shapedAt hf).shifts hshifts.cache (fun page hfalse => hfalse.elim) hp
      · exact h (Or.inr hasked) hf
  | @move _ events move hrule hs =>
      by_cases hreplace : ∃ catalog disk, move = .replace catalog disk
      · obtain ⟨catalog, disk, rfl⟩ := hreplace
        cases hs
        exact hrule.2
      · have hne : ∀ catalog disk, move ≠ .replace catalog disk := by
          rintro catalog disk rfl
          exact hreplace ⟨catalog, disk, rfl⟩
        intro schema f hknown hf
        rw [catalog_of_step hne hs] at hf
        rcases hknown with ⟨page, hp, rfl⟩ | ⟨t, task, source, ht, hp, hsource, rfl⟩
        · refine (h.shapedAt hf).shifts (shifts_of_step hw.inOrder hs).cache ?_ hp
          rintro page ⟨t, task, source, -, ht, hsource, hy⟩ hid
          obtain ⟨hpage, hschema, -⟩ := hy.shape
          rw [hschema]
          exact h.sourceOf ht (hpage.symm.trans hid) hsource hf
        · obtain ⟨old, hold, hpage, hlooked⟩ := asked_of_step hs ht hsource
          exact h.sourceOf hold (hpage.trans hp) hlooked hf

theorem current_of_happens {w₀ : Traffic} (hw : w₀.Whole)
    (hunknown : ∀ schema, ¬ w₀.KnownAs p schema)
    (h : ReflTransGen (Happens (Respecting p)) w₀ w) : w.Whole ∧ w.CurrentAt p := by
  induction h with
  | refl => exact ⟨hw, fun schema f hknown _ => absurd hknown (hunknown schema)⟩
  | tail _ hlast ih =>
      exact ⟨ih.1.happens (hlast.mono fun _ _ hrule => hrule.1), ih.2.happens ih.1 hlast⟩

/-! ## The pages that are given -/

/-- A transaction is given the page that is cached by then. -/
theorem fetched_of_step (h : w.store.InOrder) (hs : w.step move = some (events, w'))
    {mode : LockMode} {copy : Page} (he : .fetched t p mode copy ∈ events) :
    w'.store.catalog = w.store.catalog ∧
      ∃ s, w.store.Shifts (w.Admits move) s ∧ s.cache.page? p = some copy := by
  obtain ⟨u, task, source, rfl, ht, hsource, hsub⟩ := exists_submit_of_fetched hs he
  have hevents : events = submitEvents w.store u source
      { page := task.page, mode := task.mode } task.stage := congrArg Prod.fst hsub.symm
  obtain ⟨es, es', hsplit⟩ := List.append_of_mem he
  obtain ⟨-, rfl, rfl, -, frame, hframe, rfl⟩ := submitEvents_eq_append (hevents ▸ hsplit)
  refine ⟨catalog_of_step (by simp) hs, _, ?_, Cache.page?_eq_some.2
    ⟨frame, (Store.frame_of_fetch (Prod.ext hframe rfl)).1, rfl⟩⟩
  have hlocks : w.store.Shifts (source.Yields task.page) { w.store with
      locks := (w.store.locks.consider t { page := task.page, mode := task.mode }).2 } :=
    .beside rfl rfl rfl
  exact (hlocks.trans ((hlocks.inOrder h).fetch ..)).mono
    fun page hy => ⟨t, task, source, rfl, ht, hsource, hy⟩

/-- From a point where a page was known by no columns, its table is registered with the columns
that the page is known by, if it is registered at all.  Then whoever gets the page gets it with
the columns that the catalog holds for its table, and with all slots that there is room for. -/
theorem current_of_fetched {s₀ : Store} {w₀ : Traffic} (hc : s₀.cache = ∅)
    (hsize : s₀.catalog.OfOneSize)
    (h₀ : ReflTransGen (Happens Registering) { store := s₀ } w₀)
    (hunknown : ∀ schema, ¬ w₀.KnownAs p schema) (h : ReflTransGen (Happens (Respecting p)) w₀ w)
    (hs : w.step move = some (events, w')) {mode : LockMode} {copy : Page}
    (he : .fetched t p mode copy ∈ events) {f : TableFile}
    (hf : w'.store.catalog.file p.table = .ok f) :
    copy.schema.SameTypes f.schema ∧
      copy.slots.length = slotsPerPage w'.store.catalog.pageSize f.schema := by
  obtain ⟨hwhole, hcurrent⟩ := current_of_happens (whole_of_happens hc hsize h₀) hunknown h
  obtain ⟨hcatalog, s, hshifts, hcopy⟩ := fetched_of_step hwhole.inOrder hs he
  rw [hcatalog] at hf ⊢
  have hslots : copy.slots.length = slotsPerPage w.store.catalog.pageSize copy.schema :=
    (hwhole.cached p).shifts hshifts.cache (fun page ha _ => hwhole.shape_of_admits ha) hcopy
  have htypes : copy.schema.SameTypes f.schema := by
    refine (hcurrent.shapedAt hf).shifts hshifts.cache ?_ hcopy
    rintro page ⟨t, task, source, -, ht, hsource, hy⟩ hid
    obtain ⟨hpage, hschema, -⟩ := hy.shape
    rw [hschema]
    exact hcurrent.sourceOf ht (hpage.symm.trans hid) hsource hf
  refine ⟨htypes, ?_⟩
  rw [hslots, slotsPerPage, slotsPerPage, htypes.width_eq]

/-! ## A table that is registered anew -/

/-- The traffic after some moves, if they can be made. -/
def comesTo (w : Traffic) (moves : List Move) : Traffic := ((w.steps moves).getD ([], w)).2

theorem happens_steps {moves : List Move} (hr : ∀ w move, move.isPlain = true → rule w move)
    (hp : ∀ move ∈ moves, move.isPlain = true) (h : w.steps moves = some (events, w')) :
    ReflTransGen (Happens rule) w w' := by
  induction moves generalizing w events with
  | nil =>
      cases h
      exact .refl
  | cons move moves ih =>
      rw [steps] at h
      split at h
      · cases h
      · rename_i first w₁ hstep
        obtain ⟨⟨rest, w₂⟩, hrest, hmk⟩ := Option.map_eq_some_iff.1 h
        cases hmk
        have hlast := ih (fun m hm => hp m (List.mem_cons_of_mem _ hm)) hrest
        exact .head (.move (hr _ _ (hp move List.mem_cons_self)) hstep) hlast

theorem happens_comesTo {moves : List Move} (hr : ∀ w move, move.isPlain = true → rule w move)
    (hp : ∀ move ∈ moves, move.isPlain = true) (w : Traffic) :
    ReflTransGen (Happens rule) w (w.comesTo moves) := by
  rw [comesTo]
  cases h : w.steps moves with
  | none => exact .refl
  | some r => exact happens_steps hr hp h

namespace Small

/-- The file of a table with one column of numbers and two rows to a page. -/
def single : TableFile where
  name := "a"
  table := ⟨1⟩
  schema := { columns := [{ type := .int }] }
  pageSize := 9
  fits := by decide

/-- The same file with two columns, so that a page has one row. -/
def double : TableFile where
  name := "a"
  table := ⟨1⟩
  schema := { columns := [{ type := .int }, { type := .int }] }
  pageSize := 9
  fits := by decide

/-- A store of the table with one column, and one page. -/
def singleStore : Store where
  settings := { pageSize := 9, poolPages := 2 }
  disk :=
    { directory := "/d"
      files := ExtTreeMap.insert ∅ "a" (.ofBytes [1, 0, 0, 0, 7, 0, 0, 0, 0]) }
  catalog :=
    { pageSize := 9
      tables := ExtTreeMap.insert ∅ ⟨1⟩ { name := "a", key := none, file := single }
      names := ExtTreeMap.insert ∅ "a" ⟨1⟩ }

/-- The traffic after the table is registered with two columns, if it can be. -/
def renewed (w : Traffic) : Traffic :=
  match w.store.catalog.add double "a" none with
  | .ok catalog => { w with store := { w.store with catalog } }
  | .error _ => w

/-- Someone asks for the page. -/
def ask (t : TransactionId) : List Move := [.start t (.getPage (page 0) .shared)]

/-- Someone is given the page, and its table is registered anew. -/
def stale : Traffic :=
  (renewed (({ store := singleStore } : Traffic).comesTo (ask ⟨0⟩ ++ [.resume ⟨0⟩]))).comesTo
    (ask ⟨1⟩)

/-- The table is registered anew before anyone is given the page. -/
def current : Traffic := (renewed { store := singleStore }).comesTo (ask ⟨1⟩)

/-- The events when the second one is given the page, and the traffic after them. -/
def given (w : Traffic) : List Event × Traffic := (w.step (.resume ⟨1⟩)).getD ([], w)

theorem happens_renewed (hr : ∀ catalog, w.store.catalog.Registers catalog →
    rule w (.replace catalog w.store.disk)) : ReflTransGen (Happens rule) w (renewed w) := by
  rw [renewed]
  split
  · rename_i catalog ha
    exact .single (.move (hr catalog (.add ha)) rfl)
  · exact .refl

theorem step_given (h : (w.step (.resume ⟨1⟩)).isSome = true) :
    w.step (.resume ⟨1⟩) = some ((given w).1, (given w).2) := by
  obtain ⟨r, hr⟩ := Option.isSome_iff_exists.1 h
  rw [given, hr, Option.getD_some]

theorem ofOneSize_single : singleStore.catalog.OfOneSize := by
  intro t f hf
  obtain ⟨e, he, rfl⟩ := Catalog.file_eq_ok.1 hf
  simp only [singleStore, ExtTreeMap.getElem?_insert, ExtTreeMap.getElem?_empty] at he
  split at he
  · cases he
    rfl
  · cases he

theorem file_given {w : Traffic} (h : ((given w).2.store.catalog.tables[(⟨1⟩ : TableId)]?).map
    TableEntry.file = some double) : (given w).2.store.catalog.file ⟨1⟩ = .ok double :=
  Catalog.file_eq_ok.2 (Option.map_eq_some_iff.1 h)

end Small

/-- The page as it is read with one column. -/
def Small.singleCopy : Page where
  id := Small.page 0
  schema := Small.single.schema
  pageSize := 9
  slots := [some { schema := Small.single.schema, fields := [.int 7], recordId := Small.record 0 },
    none]
  beforeImage := [1, 0, 0, 0, 7, 0, 0, 0, 0]

/-- The page as it is read with two columns. -/
def Small.doubleCopy : Page where
  id := Small.page 0
  schema := Small.double.schema
  pageSize := 9
  slots :=
    [some { schema := Small.double.schema, fields := [.int 7, .int 0], recordId := Small.record 0 }]
  beforeImage := [1, 0, 0, 0, 7, 0, 0, 0, 0]

/-- A page is given with columns that have been replaced: it is cached with one column when its
table is registered with two. -/
theorem not_current_small :
    ReflTransGen (Happens Registering) { store := Small.singleStore } Small.stale ∧
      Small.stale.step (.resume ⟨1⟩) =
          some ((Small.given Small.stale).1, (Small.given Small.stale).2) ∧
        .fetched ⟨1⟩ (Small.page 0) .shared Small.singleCopy ∈ (Small.given Small.stale).1 ∧
          (Small.given Small.stale).2.store.catalog.file ⟨1⟩ = .ok Small.double ∧
            ¬ Small.singleCopy.schema.SameTypes Small.double.schema ∧
              Small.singleCopy.slots.length ≠ slotsPerPage 9 Small.double.schema := by
  have hread : ReflTransGen (Happens Registering) { store := Small.singleStore }
      (({ store := Small.singleStore } : Traffic).comesTo (Small.ask ⟨0⟩ ++ [.resume ⟨0⟩])) :=
    happens_comesTo (fun _ _ => registering_of_isPlain) (by decide) _
  have hrenewed := hread.trans (Small.happens_renewed fun _ h => h)
  have hasked : ReflTransGen (Happens Registering) { store := Small.singleStore } Small.stale :=
    hrenewed.trans (happens_comesTo (fun _ _ => registering_of_isPlain) (by decide) _)
  exact ⟨hasked, Small.step_given (by decide +kernel), by decide +kernel,
    Small.file_given (by decide +kernel), by decide, by decide⟩

theorem current_of_fetched_small :
    .fetched ⟨1⟩ (Small.page 0) .shared Small.doubleCopy ∈ (Small.given Small.current).1 ∧
      Small.doubleCopy.schema.SameTypes Small.double.schema ∧
        Small.doubleCopy.slots.length = slotsPerPage 9 Small.double.schema := by
  have hunknown : ∀ schema,
      ¬ ({ store := Small.singleStore } : Traffic).KnownAs (Small.page 0) schema := by
    rintro schema (⟨page, hp, -⟩ | ⟨t, task, source, ht, -⟩)
    · cases hp
    · cases ht
  have hrenewed : ReflTransGen (Happens (Respecting (Small.page 0)))
      { store := Small.singleStore } (Small.renewed { store := Small.singleStore }) :=
    Small.happens_renewed fun _ h => ⟨h, fun schema _ hknown => absurd hknown (hunknown schema)⟩
  have hasked : ReflTransGen (Happens (Respecting (Small.page 0))) { store := Small.singleStore }
      Small.current :=
    hrenewed.trans (happens_comesTo (fun _ _ => respecting_of_isPlain) (by decide) _)
  have hgiven : .fetched ⟨1⟩ (Small.page 0) .shared Small.doubleCopy ∈
      (Small.given Small.current).1 := by decide +kernel
  have hcurrent := current_of_fetched rfl Small.ofOneSize_single .refl hunknown hasked
    (Small.step_given (by decide +kernel)) hgiven (Small.file_given (by decide +kernel))
  exact ⟨hgiven, hcurrent.1, hcurrent.2.trans (by decide +kernel)⟩

end Traffic

end PagedStore

import PagedStore.Proofs.TaskSteps

/-!
# Bare forms

Two copies of a page can differ in their numbers, owners and before images, and in the column
names of their rows, and still hold the same rows at the same addresses.  What is left of a
page, of an answer or of a task without all this is its *bare* form (`Page.bare`,
`Answer.bare`, `Task.bare`).

What a task does next depends on what bare forms tell of its stage, and the bare form of it
depends on nothing else (`submit_bare`).
-/

namespace PagedStore

/-! ## Bare forms -/

/-- The values and the address. -/
def Row.bare (row : Row) : Row := { row with schema := ⟨[]⟩ }

/-- What the slots hold, and where. -/
def Page.bare (page : Page) : Page :=
  { page with slots := page.slots.map (Option.map Row.bare), owner := none, beforeImage := [] }

/-- The page, whatever the number of the copy. -/
def Frame.bare (frame : Frame) : Frame := { copy := 0, page := frame.page.bare }

/-- The scan, with the bare rows that are still to come. -/
def Scan.bare (scan : Scan) : Scan := { scan with buffered := scan.buffered.map Row.bare }

/-- The item, with a bare row. -/
def ScanItem.bare : ScanItem → ScanItem
  | .row r => .row r.bare
  | .failed e => .failed e
  | .finish => .finish

/-- Where a scan stops, with bare rows. -/
def Scan.Stop.bare : Scan.Stop → Scan.Stop
  | .answered items scan => .answered (items.map ScanItem.bare) scan.bare
  | .needs page wanted items scan => .needs page wanted (items.map ScanItem.bare) scan.bare

/-- What can be told from an answer. -/
def Answer.bare : Answer → Answer
  | .page frame => .page frame.bare
  | .pulled number items scan => .pulled number (items.map ScanItem.bare) scan.bare
  | answer => answer

/-- The stage, with the bare rows that a scan has come to. -/
def Stage.bare : Stage → Stage
  | .delete record answer => .delete record answer.bare
  | .feed number scan wanted items => .feed number scan.bare wanted (items.map ScanItem.bare)
  | stage => stage

/-- What can be told from what a task does next. -/
def Next.bare : Next → Next
  | .answer a => .answer a.bare
  | .ask page mode stage => .ask page mode stage.bare

/-- The task at a bare stage. -/
def Task.bare (task : Task) : Task := { task with stage := task.stage.bare }

/-- The request, for a scan with bare rows. -/
def Request.bare : Request → Request
  | .pull number scan wanted => .pull number scan.bare wanted
  | request => request

/-! ## Bare forms of bare forms -/

@[simp] theorem Row.bare_bare (row : Row) : row.bare.bare = row.bare := rfl

@[simp] theorem Page.bare_bare (page : Page) : page.bare.bare = page.bare := by
  rw [bare, bare, List.map_map]
  refine congrArg (fun slots => { page with slots, owner := none, beforeImage := [] })
    (List.map_congr_left fun entry _ => ?_)
  cases entry <;> rfl

@[simp] theorem Frame.bare_bare (frame : Frame) : frame.bare.bare = frame.bare := by
  simp only [bare, Page.bare_bare]

@[simp] theorem Scan.bare_bare (scan : Scan) : scan.bare.bare = scan.bare := by
  simp only [bare, List.map_map, Function.comp_def, Row.bare_bare]

@[simp] theorem ScanItem.bare_bare (item : ScanItem) : item.bare.bare = item.bare := by
  cases item <;> simp [bare]

@[simp] theorem Answer.bare_bare (answer : Answer) : answer.bare.bare = answer.bare := by
  cases answer <;> simp [bare, Function.comp_def]

theorem Stage.releases_bare (stage : Stage) : stage.bare.releases = stage.releases := by
  cases stage <;> rfl

/-- Tasks with the same bare form ask for the same page. -/
theorem Task.asked_of_bare_eq {task task' : Task} (hb : task'.bare = task.bare) :
    task'.page = task.page ∧ task'.mode = task.mode ∧ task'.stage.bare = task.stage.bare :=
  ⟨(congrArg Task.page hb :), (congrArg Task.mode hb :), (congrArg Task.stage hb :)⟩

/-! ## Pages with the same bare form -/

namespace Page

/-- What the slots of valid pages hold determines their bare forms. -/
theorem bare_congr {p q : Page} (hp : p.Valid) (hq : q.Valid) (hid : q.id = p.id)
    (hs : q.schema = p.schema) (hz : q.pageSize = p.pageSize) (hc : q.content = p.content) :
    q.bare = p.bare := by
  have hslots : q.slots.map (Option.map Row.bare) = p.slots.map (Option.map Row.bare) := by
    refine List.ext_getElem? fun i => ?_
    have hi := congrArg (fun content : Content => content[i]?) hc
    simp only [content, List.getElem?_map] at hi ⊢
    cases hpi : p.slots[i]? with
    | none =>
        rw [hpi] at hi
        rw [Option.map_eq_none_iff.1 hi]
    | some entry =>
        rw [hpi] at hi
        obtain ⟨entry', hqi, he⟩ := Option.map_eq_some_iff.1 hi
        rw [hqi]
        cases entry with
        | none =>
            rw [Option.map_eq_none_iff.1 he]
        | some row =>
            obtain ⟨row', rfl, hf⟩ := Option.map_eq_some_iff.1 he
            have hr : row'.recordId = row.recordId := by
              rw [(hq.fits hqi).recordId, (hp.fits hpi).recordId, hid]
            simp only [Option.map_some, Row.bare, hf, hr]
  rw [bare, bare, hslots]
  cases p
  cases q
  simp_all

theorem countFree_bare (p : Page) : p.bare.countFree = p.countFree := by
  rw [countFree, countFree, bare, List.countP_map]
  refine List.countP_congr fun entry _ => ?_
  cases entry <;> rfl

theorem rows_bare (p : Page) : p.bare.rows = p.rows.map Row.bare := by
  rw [rows, rows, bare, List.filterMap_map, List.map_filterMap]
  rfl

/-- Where a row is placed, or why it is not. -/
theorem insert_bare (p : Page) (row : Row) :
    (p.bare.insert row).map Prod.fst = (p.insert row).map Prod.fst := by
  have hfind : p.bare.slots.findIdx? Option.isNone = p.slots.findIdx? Option.isNone := by
    rw [bare, List.findIdx?_map]
    refine congrArg (fun f => p.slots.findIdx? f) (funext fun entry => ?_)
    cases entry <;> rfl
  have hschema : p.bare.schema = p.schema := rfl
  rw [insert, insert, hfind, hschema]
  by_cases hs : row.schema.SameTypes p.schema
  · rw [if_neg (not_not_intro hs), if_neg (not_not_intro hs)]
    cases p.slots.findIdx? Option.isNone <;> rfl
  · rw [if_pos hs, if_pos hs]

/-- Whether a row can be taken out, or why not. -/
theorem delete_bare (p : Page) (record : RecordId) :
    (p.bare.delete (some record)).map (fun _ => ()) = (p.delete (some record)).map fun _ => () := by
  have hused : p.bare.isUsed record.slot = p.isUsed record.slot := by
    rw [isUsed, isUsed, rowAt?, rowAt?, bare, List.getElem?_map]
    cases p.slots[record.slot]? with
    | none => rfl
    | some entry => cases entry <;> rfl
  have hid : p.bare.id = p.id := rfl
  rw [delete, delete, hused, hid]
  by_cases hc : record.page = p.id ∧ p.isUsed record.slot = true
  · rw [if_pos hc, if_pos hc]
    rfl
  · rw [if_neg hc, if_neg hc]

end Page

/-! ## Scans with the same bare form -/

namespace Scan

theorem bare_pull (count : Nat) (s : Scan) (items : List ScanItem) (n : Nat) :
    (pull count s items n).bare = pull count s.bare (items.map ScanItem.bare) n := by
  induction n generalizing s items with
  | zero => rfl
  | succ n ih =>
      rw [pull, pull]
      cases hb : s.buffered with
      | cons row rows =>
          simp only [bare, hb, List.map_cons]
          exact ih { s with buffered := rows } (.row row :: items)
      | nil =>
          simp only [bare, hb, List.map_nil]
          cases hn : s.nextPage with
          | none => simp only [Stop.bare, bare, hb, hn, List.map_cons, List.map_nil, ScanItem.bare]
          | some page =>
              dsimp only
              split
              · simp only [Stop.bare, bare, List.map_nil]
              · simp only [Stop.bare, bare, close, List.map_cons, List.map_nil, ScanItem.bare]

theorem bare_resume (count : Nat) (s : Scan) (items : List ScanItem) (wanted : Nat)
    (r : Except StoreError Page) :
    (resume count s items wanted r).bare =
      resume count s.bare (items.map ScanItem.bare) wanted (r.map Page.bare) := by
  cases r with
  | ok page =>
      rw [resume, bare_pull]
      simp only [Except.map, resume, bare, Page.rows_bare]
  | error e =>
      rw [resume, bare_pull]
      rfl

theorem Stop.bare_next (number : Nat) (stop : Stop) :
    (stop.next number).bare = stop.bare.next number := by
  cases stop with
  | answered items scan =>
      simp only [next, Next.bare, Answer.bare, Stop.bare, List.map_reverse]
  | needs page wanted items scan => rfl

end Scan

/-! ## What tasks do -/

namespace Stage

/-- What the items of a scan have for column names does not matter. -/
theorem resume_bare (stage : Stage) (s : Store) (t : TransactionId) (r : Except StoreError Frame) :
    (stage.bare.resume s t r).1 = (stage.resume s t r).1 ∧
      (stage.bare.resume s t r).2.bare = (stage.resume s t r).2.bare := by
  cases stage with
  | get | look | place => exact ⟨rfl, rfl⟩
  | delete record answer =>
      cases r with
      | error e => exact ⟨rfl, rfl⟩
      | ok frame =>
          rw [bare, resume, resume]
          split
          · exact ⟨rfl, rfl⟩
          · exact ⟨rfl, by simp only [Next.bare, Answer.bare_bare]⟩
  | feed number scan wanted items =>
      refine ⟨rfl, ?_⟩
      simp only [bare, resume, Scan.Stop.bare_next, Scan.bare_resume, Scan.bare_bare, List.map_map,
        Function.comp_def, ScanItem.bare_bare]
      rfl

end Stage

/-- What the items of a scan have for column names does not matter. -/
theorem submit_bare (s : Store) (t : TransactionId) (source : TableFile) (r : LockRequest)
    (stage : Stage) :
    (submit s t source r stage.bare).2 = (submit s t source r stage).2 ∧
      (submit s t source r stage.bare).1.map Next.bare =
        (submit s t source r stage).1.map Next.bare := by
  rw [submit, submit]
  dsimp only
  split
  · exact ⟨rfl, rfl⟩
  · obtain ⟨hstore, hnext⟩ := stage.resume_bare { s with locks := (s.locks.consider t r).2 } t
      (.error (.aborted t))
    exact ⟨hstore, congrArg some hnext⟩
  · obtain ⟨hstore, hnext⟩ := stage.resume_bare
      ({ s with locks := (s.locks.consider t r).2 }.fetch t source r.page r.mode).2 t
      ({ s with locks := (s.locks.consider t r).2 }.fetch t source r.page r.mode).1
    exact ⟨hstore, congrArg some hnext⟩

namespace Request

/-- What a scan has for column names does not matter. -/
theorem start_bare (request : Request) (s : Store) (t : TransactionId) :
    (request.bare.start s t).1 = (request.start s t).1 ∧
      (request.bare.start s t).2.bare = (request.start s t).2.bare := by
  cases request with
  | pull number scan wanted =>
      refine ⟨rfl, ?_⟩
      simp only [bare, start, Scan.Stop.bare_next, Scan.bare_pull, Scan.bare_bare, List.map_nil]
      rfl
  | _ => exact ⟨rfl, rfl⟩

end Request

end PagedStore

import PagedStore.Store.Finish
import PagedStore.Tasks.Scan

/-!
# Tasks

A task is what a transaction wants done with pages: to get a page, to insert
rows, to delete a row, or to go on with a scan.  A task asks for one page after
another, and each time it may have to wait until the page can be locked.

Between two pages a task is at a *stage*, which says what it does with the page it
has asked for (`Stage.resume`).  What it does then ends with its answer, or with
the request for another page.

A row is inserted into the first page that has room.  The pages are looked at in
order, each in shared mode.  One that is full is released again, unless the
transaction held it before.  One that has room is asked for again in exclusive
mode.  If all pages are full a new one is put at the end of the file.  Pages that
others put there in the meantime are not looked at.

A page that was changed is still in the cache, has its owner, and was used last.  To install it
(`Stage.resumeAndInstall`) would change nothing, so it is left there as it is.

`cost_resume_lt` says that a task ends: the cost of its stages goes down.
-/

namespace PagedStore

/-! ## Requests and answers -/

/-- What a transaction wants done. -/
inductive Request where
  /-- To get a page. -/
  | getPage (page : PageId) (mode : LockMode)
  /-- To insert rows one by one, with a schema of their own or that of the table. -/
  | insert (table : TableId) (schema : Option Schema) (rows : List (List Field))
  /-- To delete the row at an address. -/
  | delete (record : Option RecordId)
  /-- To delete the row at an address from the file of a table. -/
  | deleteFrom (table : TableId) (record : Option RecordId)
  /-- To pull items from a scan that is known by a number. -/
  | pull (number : Nat) (scan : Scan) (wanted : Nat)

/-- What comes of a request. -/
inductive Answer where
  /-- The copy of the page. -/
  | page (frame : Frame)
  /-- The addresses of the rows that were inserted, and why no more were. -/
  | inserted (records : List RecordId) (failure : Option StoreError)
  /-- The row was deleted. -/
  | deleted
  /-- The row was deleted, and these pages are changed. -/
  | changed (pages : List PageId)
  /-- The items, and the scan after them. -/
  | pulled (number : Nat) (items : List ScanItem) (scan : Scan)
  /-- It could not be done. -/
  | failed (error : StoreError)
deriving DecidableEq

/-! ## Stages -/

/-- The insertion of rows, one of which is being placed. -/
structure Insertion where
  /-- The table. -/
  table : TableId
  /-- The columns of the rows. -/
  schema : Schema
  /-- The row that is being placed. -/
  row : Row
  /-- The file in which the row is placed. -/
  file : TableFile
  /-- The rows after this one. -/
  rows : List (List Field)
  /-- The addresses of the rows before this one, the latest first. -/
  stored : List RecordId
deriving DecidableEq

/-- What a task does with the page that it has asked for. -/
inductive Stage where
  /-- It answers with the page. -/
  | get
  /-- It looks whether the page has room. -/
  | look (task : Insertion) (page count : Nat) (heldBefore : Bool)
  /-- It places the row. -/
  | place (task : Insertion)
  /-- It deletes a row. -/
  | delete (record : RecordId) (answer : Answer)
  /-- It gives the rows of the page to a scan. -/
  | feed (number : Nat) (scan : Scan) (wanted : Nat) (items : List ScanItem)
deriving DecidableEq

/-- What a task does next. -/
inductive Next where
  /-- It ends. -/
  | answer (answer : Answer)
  /-- It asks for a page. -/
  | ask (page : PageId) (mode : LockMode) (stage : Stage)
deriving DecidableEq

/-! ## Inserting -/

namespace Insertion

/-- Ends the insertion. -/
def stop (stored : List RecordId) (failure : Option StoreError) : Next :=
  .answer (.inserted stored.reverse failure)

/-- Looks at the pages from a number on, and puts a new page at the end if there are
none. -/
def search (task : Insertion) (s : Store) (t : TransactionId) (page count : Nat) : Store × Next :=
  if page < count then
    let id : PageId := { table := task.file.table, number := page }
    (s, .ask id .shared (.look task page count (s.locks.holds id t)))
  else
    let added := s.disk.append task.file
    ({ s with disk := added.2 },
      .ask { table := task.file.table, number := added.1 } .exclusive (.place task))

/-- Begins with the first of some rows. -/
def begin (s : Store) (t : TransactionId) (table : TableId) (schema : Schema)
    (stored : List RecordId) : List (List Field) → Store × Next
  | [] => (s, stop stored none)
  | fields :: rows =>
      match Row.ofFields schema fields with
      | .error fault => (s, stop stored (some (.invalidRow fault)))
      | .ok row =>
          match s.catalog.file table with
          | .error e => (s, stop stored (some e))
          | .ok file =>
              if row.schema.SameTypes file.schema then
                search { table, schema, row, file, rows, stored } s t 0 (s.disk.pageCount file)
              else (s, stop stored (some (.invalidRow (.schemaMismatch row.schema file.schema))))

/-- Goes on after a page was looked at. -/
def looked (task : Insertion) (s : Store) (t : TransactionId) (page count : Nat)
    (heldBefore : Bool) (frame : Frame) : Store × Next :=
  if 0 < frame.page.countFree then (s, .ask frame.page.id .exclusive (.place task))
  else task.search (if heldBefore then s else (s.releasePage t frame.page.id).2) t (page + 1) count

/-- Places the row in a page, and goes on with the next row. -/
def place (task : Insertion) (s : Store) (t : TransactionId) (frame : Frame) : Store × Next :=
  match frame.page.insert task.row with
  | .error e => (s, stop task.stored (some e))
  | .ok (record, page) =>
      begin (s.onCache fun c => c.update page.id fun _ => page) t task.table task.schema
        (record :: task.stored) task.rows

end Insertion

/-! ## Deleting and scanning -/

/-- Asks for the page of a row to delete. -/
def Request.deleteIn (record : RecordId) (answer : Answer) : Next :=
  .ask record.page .exclusive (.delete record answer)

/-- Goes on where a scan stopped. -/
def Scan.Stop.next (number : Nat) : Scan.Stop → Next
  | .answered items scan => .answer (.pulled number items.reverse scan)
  | .needs page wanted items scan =>
      .ask { table := scan.file.table, number := page } .shared (.feed number scan wanted items)

/-! ## Beginning and going on -/

/-- The first thing that a task does. -/
def Request.start (s : Store) (t : TransactionId) : Request → Store × Next
  | .getPage page mode => (s, .ask page mode .get)
  | .insert table (some schema) rows => Insertion.begin s t table schema [] rows
  | .insert table none rows =>
      match s.catalog.schema table with
      | .error e => (s, .answer (.failed e))
      | .ok schema => Insertion.begin s t table schema [] rows
  | .delete none => (s, .answer (.failed (.invalidRow .noRecordId)))
  | .delete (some record) =>
      match s.catalog.file record.page.table with
      | .error e => (s, .answer (.failed e))
      | .ok _ => (s, deleteIn record .deleted)
  | .deleteFrom table record =>
      match s.catalog.file table with
      | .error e => (s, .answer (.failed e))
      | .ok file =>
          match record with
          | none => (s, .answer (.failed (.invalidRow .noRecordId)))
          | some record =>
              if record.page.table = file.table then (s, deleteIn record (.changed [record.page]))
              else (s, .answer (.failed (.recordNotFound record)))
  | .pull number scan wanted =>
      (s, (scan.pull (s.disk.pageCount scan.file) [] wanted).next number)

/-- What a task does when the page that it asked for is there, or cannot be
fetched. -/
def Stage.resume (s : Store) (t : TransactionId) :
    Stage → Except StoreError Frame → Store × Next
  | .get, .ok frame => (s, .answer (.page frame))
  | .get, .error e => (s, .answer (.failed e))
  | .look task page count held, .ok frame => task.looked s t page count held frame
  | .look task .., .error e => (s, Insertion.stop task.stored (some e))
  | .place task, .ok frame => task.place s t frame
  | .place task, .error e => (s, Insertion.stop task.stored (some e))
  | .delete record answer, .ok frame =>
      match frame.page.delete (some record) with
      | .error e => (s, .answer (.failed e))
      | .ok page => (s.onCache fun c => c.update page.id fun _ => page, .answer answer)
  | .delete .., .error e => (s, .answer (.failed e))
  | .feed number scan wanted items, r =>
      (s, (scan.resume (s.disk.pageCount scan.file) items wanted (r.map Frame.page)).next number)

/-! ## Installing what was changed -/

/-- Places the row in a page, installs the page, and goes on with the next row. -/
def Insertion.placeAndInstall (task : Insertion) (s : Store) (t : TransactionId) (frame : Frame) :
    Store × Next :=
  match frame.page.insert task.row with
  | .error e => (s, stop task.stored (some e))
  | .ok (record, page) =>
      match (s.onCache fun c => c.update page.id fun _ => page).install t { frame with page } with
      | (.error e, s) => (s, stop task.stored (some e))
      | (.ok _, s) => begin s t task.table task.schema (record :: task.stored) task.rows

/-- What a task does with its page if a page that it has changed is installed.  When a row is
deleted from the file of a table the page is not installed. -/
def Stage.resumeAndInstall (s : Store) (t : TransactionId) :
    Stage → Except StoreError Frame → Store × Next
  | .place task, .ok frame => task.placeAndInstall s t frame
  | .delete record .deleted, .ok frame =>
      match frame.page.delete (some record) with
      | .error e => (s, .answer (.failed e))
      | .ok page =>
          match (s.onCache fun c => c.update page.id fun _ => page).install t
              { frame with page } with
          | (.error e, s) => (s, .answer (.failed e))
          | (.ok _, s) => (s, .answer .deleted)
  | stage, r => stage.resume s t r

/-! ## Tasks end -/

/-- What a stage can still cost.  The first number counts the stages of an insertion
that are still to come, the second the pages. -/
def Stage.cost : Stage → Nat × Nat
  | get | delete .. => (1, 0)
  | look task page count _ => (2 * task.rows.length + 2, count - page)
  | place task => (2 * task.rows.length + 1, 0)
  | feed _ scan .. => (1, 4294967296 - scan.nextPage.getD 0)

/-- The cost of the stage that a task is at next. -/
def Next.cost : Next → Nat × Nat
  | answer _ => (0, 0)
  | ask _ _ stage => stage.cost

/-- Less in the first number, or in the second if the first is equal. -/
abbrev Cheaper : Nat × Nat → Nat × Nat → Prop := Prod.Lex (· < ·) (· < ·)

theorem Cheaper.of_fst {c d : Nat × Nat} (h : c.1 < d.1) : Cheaper c d :=
  Prod.lex_def.2 (Or.inl h)

theorem Stage.cost_fst_pos (stage : Stage) : 0 < stage.cost.1 := by
  cases stage <;> simp [cost]

theorem Stage.answer_cheaper (stage : Stage) (a : Answer) :
    Cheaper (Next.answer a).cost stage.cost :=
  Cheaper.of_fst stage.cost_fst_pos

theorem Insertion.cost_search_le (task : Insertion) (s : Store) (t : TransactionId)
    (page count : Nat) : (task.search s t page count).2.cost.1 ≤ 2 * task.rows.length + 2 := by
  unfold search
  split <;> simp [Next.cost, Stage.cost]

theorem Insertion.cost_begin_le (s : Store) (t : TransactionId) (table : TableId)
    (schema : Schema) (stored : List RecordId) (rows : List (List Field)) :
    (begin s t table schema stored rows).2.cost.1 ≤ 2 * rows.length := by
  cases rows with
  | nil => simp [begin, stop, Next.cost]
  | cons fields rows =>
      rw [begin]
      split
      · simp [stop, Next.cost]
      · split
        · simp [stop, Next.cost]
        · split
          · refine Nat.le_trans (cost_search_le ..) ?_
            simp only [List.length_cons]
            omega
          · simp [stop, Next.cost]

theorem Disk.pageCount_lt (d : Disk) (f : TableFile) : d.pageCount f < 4294967296 :=
  Nat.mod_lt _ (by decide)

theorem Scan.Stop.cheaper_next {s : Scan} {count : Nat} {items : List ScanItem} {number : Nat}
    {n : Nat} (wanted : Nat) (items' : List ScanItem) (hc : count < 4294967296) :
    Cheaper ((s.pull count items n).next number).cost (Stage.feed number s wanted items').cost := by
  cases h : s.pull count items n with
  | answered items'' s' => exact Stage.answer_cheaper ..
  | needs page wanted' items'' s' =>
      obtain ⟨h1, h2, h3⟩ := nextPage_of_pull_eq_needs h
      simp only [next, Next.cost, Stage.cost, h1, h2, Option.getD_some]
      refine Prod.Lex.right _ ?_
      omega

/-- Each stage of a task is cheaper than the one before. -/
theorem Stage.cost_resume_lt (s : Store) (t : TransactionId) (stage : Stage)
    (r : Except StoreError Frame) : Cheaper (stage.resume s t r).2.cost stage.cost := by
  cases stage with
  | get => cases r <;> exact answer_cheaper ..
  | look task page count held =>
      cases r with
      | error e => exact answer_cheaper (.look task page count held) _
      | ok frame =>
          rw [resume, Insertion.looked]
          split
          · exact Cheaper.of_fst (by simp [Next.cost, cost])
          · rw [Insertion.search]
            split
            · rename_i h
              simp only [Next.cost, cost]
              refine Prod.Lex.right _ ?_
              omega
            · exact Cheaper.of_fst (by simp [Next.cost, cost])
  | place task =>
      cases r with
      | error e => exact answer_cheaper (.place task) _
      | ok frame =>
          rw [resume, Insertion.place]
          split
          · exact answer_cheaper (.place task) _
          · refine Cheaper.of_fst (Nat.lt_of_le_of_lt (Insertion.cost_begin_le ..) ?_)
            simp [cost]
  | delete record answer =>
      cases r with
      | error e => exact answer_cheaper (.delete record answer) _
      | ok frame =>
          rw [resume]
          split <;> exact answer_cheaper (.delete record answer) _
  | feed name scan wanted items =>
      have hc := s.disk.pageCount_lt scan.file
      cases r with
      | ok frame => exact Scan.Stop.cheaper_next wanted items hc
      | error e => exact Scan.Stop.cheaper_next wanted items hc

end PagedStore

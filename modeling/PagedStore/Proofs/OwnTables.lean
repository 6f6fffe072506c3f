import PagedStore.Proofs.BareForms
import PagedStore.Proofs.ScanItems

/-!
# The tables that a task uses

What a transaction uses of a store may be limited to a *scope*: some tables, and the files in
which it counts pages or puts new ones (`Scope`).  Some tables of a catalog and their files are
a scope (`Catalog.scope`).

A task is *within* a scope if it asks for a page of one of the tables, and goes on in one of the
files (`Task.Within`).  A task that begins with a request within the scope of some tables stays
there (`Request.within_start`, `within_submit`).
-/

namespace PagedStore

/-! ## Scopes -/

/-- What may be used of a store. -/
structure Scope where
  /-- The tables whose pages are asked for. -/
  table : TableId → Prop
  /-- The files whose pages are counted, and which get new ones. -/
  file : TableFile → Prop

/-- Everything. -/
def Scope.all : Scope := ⟨fun _ => True, fun _ => True⟩

/-- Some tables of a catalog, and their files. -/
def Catalog.scope (c : Catalog) (tables : TableId → Prop) : Scope where
  table := tables
  file f := tables f.table ∧ c.file f.table = .ok f

/-- The stage goes on in a file of the scope. -/
def Stage.Within (S : Scope) : Stage → Prop
  | .look task .. | .place task => S.table task.table ∧ S.file task.file
  | .feed _ scan .. => S.file scan.file
  | .get | .delete .. => True

/-- The task asks for a page of the scope, and goes on there. -/
structure Task.Within (S : Scope) (task : Task) : Prop where
  page : S.table task.page.table
  stage : task.stage.Within S

/-- What is done next is within the scope. -/
def Next.Within (S : Scope) : Next → Prop
  | .answer _ => True
  | .ask page _ stage => S.table page.table ∧ stage.Within S

/-- Only what is in the scope is wanted. -/
def Request.Within (S : Scope) : Request → Prop
  | .getPage page _ => S.table page.table
  | .insert table .. | .deleteFrom table _ => S.table table
  | .delete record => ∀ ⦃r⦄, record = some r → S.table r.page.table
  | .pull _ scan _ => S.file scan.file

theorem Stage.within_all (stage : Stage) : stage.Within .all := by
  cases stage <;> simp [Within, Scope.all]

theorem Request.within_all (request : Request) : request.Within .all := by
  cases request <;> simp [Within, Scope.all]

theorem Task.within_all (task : Task) : task.Within .all := ⟨trivial, task.stage.within_all⟩

theorem Stage.within_bare {S : Scope} {stage : Stage} : stage.bare.Within S ↔ stage.Within S := by
  cases stage <;> rfl

theorem Request.within_bare {S : Scope} {request : Request} :
    request.bare.Within S ↔ request.Within S := by
  cases request <;> rfl

/-- Tasks with the same bare form use the same tables. -/
theorem Task.Within.of_bare_eq {S : Scope} {task task' : Task} (h : task.Within S)
    (hb : task'.bare = task.bare) : task'.Within S := by
  obtain ⟨hpage, -, hstage⟩ := Task.asked_of_bare_eq hb
  refine ⟨hpage ▸ h.page, ?_⟩
  rw [← Stage.within_bare, hstage, Stage.within_bare]
  exact h.stage

/-! ## What is done next -/

variable {s : Store} {t : TransactionId} {S : Scope} {tables : TableId → Prop}

theorem Next.within_ofNext {next : Next} {task : Task} (h : next.Within S)
    (ht : Task.ofNext next = some task) : task.Within S := by
  cases next with
  | answer a => cases ht
  | ask page mode stage =>
      cases ht
      exact ⟨h.1, h.2⟩

/-- A table of the scope has its file there. -/
theorem Catalog.Sound.scope_file {c : Catalog} (hs : c.Sound) {table : TableId} {f : TableFile}
    (ht : tables table) (hf : c.file table = .ok f) : (c.scope tables).file f := by
  have htable := hs.table hf
  exact ⟨htable.symm ▸ ht, htable.symm ▸ hf⟩

/-- A scan goes on in its file. -/
theorem Scan.within_next (scan : Scan) (number count : Nat) (items : List ScanItem)
    (wanted : Nat) (h : (s.catalog.scope tables).file scan.file) :
    ((scan.pull count items wanted).next number).Within (s.catalog.scope tables) := by
  have hpulled := scan.pulled_pull count items wanted
  generalize scan.pull count items wanted = stop at hpulled
  cases hpulled with
  | enough | finished => trivial
  | asks => exact ⟨h.1, h⟩

namespace Insertion

variable {task : Insertion}

theorem within_search (ht : tables task.table) (hf : (s.catalog.scope tables).file task.file)
    (page count : Nat) : (task.search s t page count).2.Within (s.catalog.scope tables) := by
  rw [search]
  split
  · exact ⟨hf.1, ht, hf⟩
  · exact ⟨hf.1, ht, hf⟩

theorem within_begin (hs : s.catalog.Sound) {table : TableId} (ht : tables table)
    (schema : Schema) (stored : List RecordId) (rows : List (List Field)) :
    (begin s t table schema stored rows).2.Within (s.catalog.scope tables) := by
  cases rows with
  | nil => trivial
  | cons fields rows =>
      rw [begin]
      split
      · trivial
      · split
        · trivial
        · rename_i f hf
          split
          · exact within_search ht (hs.scope_file ht hf) 0 _
          · trivial

theorem within_looked (ht : tables task.table) (hf : (s.catalog.scope tables).file task.file)
    {frame : Frame} (hp : tables frame.page.id.table) (page count : Nat) (heldBefore : Bool) :
    (task.looked s t page count heldBefore frame).2.Within (s.catalog.scope tables) := by
  rw [looked]
  split
  · exact ⟨hp, ht, hf⟩
  · cases heldBefore
    · exact within_search (s := (s.releasePage t frame.page.id).2) ht hf (page + 1) count
    · exact within_search ht hf (page + 1) count

end Insertion

theorem Request.within_start (hs : s.catalog.Sound) {request : Request}
    (h : request.Within (s.catalog.scope tables)) :
    (request.start s t).2.Within (s.catalog.scope tables) := by
  cases request with
  | getPage page mode => exact ⟨h, trivial⟩
  | insert table schema rows =>
      cases schema with
      | some schema => exact Insertion.within_begin hs h ..
      | none =>
          rw [start]
          split
          · trivial
          · exact Insertion.within_begin hs h ..
  | delete record =>
      cases record with
      | none => trivial
      | some record =>
          rw [start]
          split
          · trivial
          · exact ⟨h rfl, trivial⟩
  | deleteFrom table record =>
      rw [start]
      split
      · trivial
      · rename_i f hf
        cases record with
        | none => trivial
        | some record =>
            dsimp only
            split
            · rename_i htable
              -- The file is the one of the table, so the row is in the table.
              rw [hs.table hf] at htable
              exact ⟨htable.symm ▸ h, trivial⟩
            · trivial
  | pull number scan wanted => exact scan.within_next number _ _ _ h

/-- A task that gets a page of the scope, or none, stays within. -/
theorem Stage.within_resume (hs : s.catalog.Sound) {stage : Stage}
    (h : stage.Within (s.catalog.scope tables)) {r : Except StoreError Frame}
    (hp : ∀ ⦃frame⦄, r = .ok frame → tables frame.page.id.table) :
    (stage.resume s t r).2.Within (s.catalog.scope tables) := by
  cases r with
  | error e =>
      cases stage with
      | get | look | place | delete => trivial
      | feed number scan wanted items => exact scan.within_next number _ _ _ h
  | ok frame =>
      cases stage with
      | get => trivial
      | look task page count heldBefore => exact Insertion.within_looked h.1 h.2 (hp rfl) ..
      | place task =>
          rw [resume, Insertion.place]
          split
          · trivial
          · exact Insertion.within_begin
              (s := s.onCache fun c => c.update _ fun _ => _) hs h.1 ..
      | delete record answer =>
          rw [resume]
          split <;> trivial
      | feed number scan wanted items =>
          exact Scan.within_next { scan with buffered := frame.page.rows } number _ _ _ h

end PagedStore

import PagedStore.TableFile

/-!
# The catalog

The catalog knows the tables of a store by identity and by name.  All their
files have the page size of the catalog.

A new table replaces the one that had its name, and then the one that had its
identity.  A table that is added without a name is named after its identity.
-/

namespace PagedStore

open Std (ExtTreeMap)

/-- What the catalog knows about a table. -/
structure TableEntry where
  /-- The name of the table. -/
  name : String
  /-- The name of its primary key, if it has one. -/
  key : Option String
  /-- Its file. -/
  file : TableFile
deriving DecidableEq

/-- The tables of a store. -/
@[ext] structure Catalog where
  /-- The bytes of a page, for every table. -/
  pageSize : Nat
  /-- The tables by identity. -/
  tables : ExtTreeMap TableId TableEntry := ∅
  /-- The identity of the table with a name. -/
  names : ExtTreeMap String TableId := ∅
deriving DecidableEq

namespace Catalog

/-! ## Reading -/

/-- What is known about a table. -/
def entry (c : Catalog) (t : TableId) : Except StoreError TableEntry :=
  match c.tables[t]? with
  | some e => .ok e
  | none => .error (.tableNotFound t)

/-- The file of a table. -/
def file (c : Catalog) (t : TableId) : Except StoreError TableFile :=
  (c.entry t).map TableEntry.file

/-- The columns of a table. -/
def schema (c : Catalog) (t : TableId) : Except StoreError Schema :=
  (c.file t).map TableFile.schema

/-- The name of a table. -/
def nameOf (c : Catalog) (t : TableId) : Except StoreError String :=
  (c.entry t).map TableEntry.name

/-- The primary key of a table. -/
def keyOf (c : Catalog) (t : TableId) : Except StoreError (Option String) :=
  (c.entry t).map TableEntry.key

/-- The identity of the table with a name. -/
def idOf (c : Catalog) (name : String) : Except StoreError TableId :=
  match c.names[name]? with
  | some t => .ok t
  | none => .error (.tableNameNotFound name)

/-- The identities of the tables, in ascending order. -/
def ids (c : Catalog) : List TableId := c.tables.keys

/-- The number of tables. -/
def size (c : Catalog) : Nat := c.tables.size

/-- There are no tables. -/
def isEmpty (c : Catalog) : Bool := c.tables.isEmpty

/-! ## Changing -/

/-- The name of a table that is added without one. -/
def generatedName (t : TableId) : String := s!"table_{t.word.toNat}"

/-- The catalog without the table that has a name. -/
def forgetName (c : Catalog) (name : String) : Catalog :=
  match c.names[name]? with
  | none => c
  | some t => { c with names := c.names.erase name, tables := c.tables.erase t }

/-- The catalog without the table that has an identity. -/
def forgetTable (c : Catalog) (t : TableId) : Catalog :=
  match c.tables[t]? with
  | none => c
  | some e => { c with names := c.names.erase e.name, tables := c.tables.erase t }

/-- Adds a table. -/
def add (c : Catalog) (file : TableFile) (name : String) (key : Option String) :
    Except StoreError Catalog :=
  if file.pageSize ≠ c.pageSize then
    .error (.settings (.pageSizeMismatch name file.pageSize c.pageSize))
  else
    let name := if name = "" then generatedName file.table else name
    let c := (c.forgetName name).forgetTable file.table
    .ok { c with
      names := c.names.insert name file.table
      tables := c.tables.insert file.table { name, key, file } }

/-- The catalog without tables. -/
def clear (c : Catalog) : Catalog := { pageSize := c.pageSize }

end Catalog

end PagedStore

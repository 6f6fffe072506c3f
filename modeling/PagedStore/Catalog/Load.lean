import PagedStore.Catalog.Basic
import PagedStore.Catalog.Definition

/-!
# Schema files

A schema file has one table definition on each line.  Blank lines, and lines
that begin with `#` after blanks, are skipped.

The lines are taken in order.  Each opens the file of its table, which is made
if there is none, and adds the table to the catalog.  The first line that fails
ends the loading, and the tables before it stay.

The path of a table's file is the name of the table with `.dat` after it, and it is
followed from the directory of the schema file.  A name is any text without an
opening bracket, so it may have slashes and dots in it, or start at the root.
-/

namespace PagedStore.Catalog

/-- Opens the file of a table, which is made if there is none, and adds the table.
A new file stays also if the table is not added. -/
def openTable (c : Catalog) (disk : Disk) (path name : String) (schema : Schema)
    (key : Option String) : Except StoreError TableId × Disk × Catalog :=
  match TableFile.openOrCreate disk path schema c.pageSize with
  | .error e => (.error e, disk, c)
  | .ok (file, disk) =>
      match c.add file name key with
      | .error e => (.error e, disk, c)
      | .ok c => (.ok file.table, disk, c)

/-- The line says nothing. -/
def isSkipped (line : List Char) : Bool :=
  let text := Text.trim line
  text.isEmpty || text.head? = some '#'

/-- Takes one line that says something, for a schema file in a directory. -/
def loadLine (c : Catalog) (disk : Disk) (directory : String) (number : Nat) (line : List Char) :
    Except StoreError TableId × Disk × Catalog :=
  match TableDefinition.parse (Text.trim line) with
  | .error fault => (.error (.schemaLine number fault), disk, c)
  | .ok d => c.openTable disk (Path.join directory (d.name ++ ".dat")) d.name d.schema d.key

/-- Takes the lines from a line number on: the identities of their tables. -/
def loadLines (c : Catalog) (disk : Disk) (directory : String) (number : Nat) :
    List (List Char) → Except StoreError (List TableId) × Disk × Catalog
  | [] => (.ok [], disk, c)
  | line :: lines =>
      if isSkipped line then loadLines c disk directory (number + 1) lines
      else
        match c.loadLine disk directory number line with
        | (.error e, disk, c) => (.error e, disk, c)
        | (.ok t, disk, c) =>
            match loadLines c disk directory (number + 1) lines with
            | (.error e, disk, c) => (.error e, disk, c)
            | (.ok ts, disk, c) => (.ok (t :: ts), disk, c)

/-- Loads a schema file: the identities of its tables in the order of the
lines. -/
def load (c : Catalog) (disk : Disk) (path : String) :
    Except StoreError (List TableId) × Disk × Catalog :=
  match disk.readText path with
  | .error fault => (.error (.file fault), disk, c)
  | .ok text => c.loadLines disk (Path.parent path) 1 (Text.lines text.toList)

end PagedStore.Catalog

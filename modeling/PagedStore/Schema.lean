/-!
# Column types and schemas

A schema is a list of typed columns, each with a name or without.  Every type
has a fixed width in bytes, so all rows of a schema take the same space
(`Schema.width`).

Two schemas can hold the same rows when their types agree in order
(`Schema.SameTypes`).  Names play no part in that, but they do in equality.
-/

namespace PagedStore

/-! ## Column types -/

/-- The type of a column. -/
inductive ColumnType where
  /-- A signed number of 32 bits. -/
  | int
  /-- A text of at most `textLimit` bytes. -/
  | text
deriving DecidableEq, Repr, Inhabited

/-- The most bytes a stored text may have. -/
def textLimit : Nat := 128

namespace ColumnType

/-- The bytes that a value of the type takes.  A text is stored with a length
of four bytes in front. -/
def width : ColumnType → Nat
  | int => 4
  | text => 4 + textLimit

/-- The bytes that values of these types take together. -/
def totalWidth : List ColumnType → Nat
  | [] => 0
  | type :: types => type.width + totalWidth types

instance : ToString ColumnType where
  toString
    | int => "int"
    | text => "string"

end ColumnType

/-! ## Schemas -/

/-- One column of a schema. -/
structure Column where
  /-- The type of its values. -/
  type : ColumnType
  /-- Its name, if it has one. -/
  name : Option String := none
deriving DecidableEq, Repr, Inhabited

instance : ToString Column where
  toString c :=
    let name := c.name.getD ""
    s!"{c.type}({name})"

/-- The columns of a table, in order. -/
structure Schema where
  /-- The columns. -/
  columns : List Column
deriving DecidableEq, Repr, Inhabited

namespace Schema

/-- Columns without names. -/
def ofTypes (types : List ColumnType) : Schema :=
  ⟨types.map fun t => { type := t }⟩

/-- Columns with names.  If there are fewer names than types the last columns
have none, and names left over are not used. -/
def named : List ColumnType → List String → Schema
  | types, names => ⟨types.zipIdx.map fun (t, i) => { type := t, name := names[i]? }⟩

/-- The number of columns. -/
def size (s : Schema) : Nat := s.columns.length

/-- The types of the columns, in order. -/
def types (s : Schema) : List ColumnType := s.columns.map Column.type

/-- The type of the column at a position. -/
def typeAt? (s : Schema) (i : Nat) : Option ColumnType := s.columns[i]?.map Column.type

/-- The name of the column at a position. -/
def nameAt? (s : Schema) (i : Nat) : Option String := s.columns[i]?.bind Column.name

/-- The position of the first column with a name. -/
def idxOf? (s : Schema) (name : String) : Option Nat :=
  s.columns.findIdx? fun c => c.name = some name

/-- The bytes that one row takes. -/
def width (s : Schema) : Nat := ColumnType.totalWidth s.types

/-- The types agree in order.  Names may differ. -/
def SameTypes (s t : Schema) : Prop := s.types = t.types

instance (s t : Schema) : Decidable (s.SameTypes t) := inferInstanceAs (Decidable (_ = _))

theorem SameTypes.width_eq {s t : Schema} (h : s.SameTypes t) : s.width = t.width := by
  rw [width, width, h]

@[simp] theorem types_ofTypes (types : List ColumnType) : (ofTypes types).types = types := by
  simp [ofTypes, Schema.types, Function.comp_def]

instance : ToString Schema := ⟨fun s => ", ".intercalate (s.columns.map toString)⟩

example : toString (named [.int, .text, .int] ["id", "name"]) = "int(id), string(name), int()" := by
  decide

end Schema

end PagedStore

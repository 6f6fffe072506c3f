import PagedStore.StoreError
import PagedStore.Text.Blank

/-!
# Table definitions

A definition is a line such as

    users (id int pk, name string)

with the name of a table and, in parentheses, its columns with commas between
them.  A column is two or three words: its name, its type, and `pk` if it is the
primary key.  The type may be in capitals.  If several columns are marked, the
last of them is the key.

The list of columns goes from the first opening parenthesis to the last closing
one, and what follows is not looked at.  So a column may have parentheses in its
name.
-/

namespace PagedStore

/-- What a line says about a table. -/
structure TableDefinition where
  /-- The name of the table. -/
  name : String
  /-- The name and the type of each column. -/
  columns : List (String × ColumnType)
  /-- The name of the primary key, if there is one. -/
  key : Option String
deriving DecidableEq

namespace TableDefinition

/-- The schema of the table. -/
def schema (d : TableDefinition) : Schema :=
  ⟨d.columns.map fun (name, type) => { type, name := some name }⟩

/-! ## Columns -/

/-- The type that a word names. -/
def typeNamed (word : List Char) : Except DefinitionFault ColumnType :=
  let lower := String.ofList (word.map Char.toLower)
  if lower = "int" then .ok .int
  else if lower = "string" then .ok .text
  else .error (.unknownType lower)

/-- Whether the words after the type mark a primary key. -/
def isKey : Option (List Char) → Except DefinitionFault Bool
  | none => .ok false
  | some word =>
      if word = "pk".toList then .ok true else .error (.unknownKeyword (String.ofList word))

/-- The column that a name, a type and perhaps a mark describe, and whether it is
the primary key. -/
def describe (name type : List Char) (mark : Option (List Char)) :
    Except DefinitionFault ((String × ColumnType) × Bool) :=
  match typeNamed type with
  | .error fault => .error fault
  | .ok type =>
      match isKey mark with
      | .error fault => .error fault
      | .ok key => .ok ((String.ofList name, type), key)

/-- Reads one column, and whether it is the primary key. -/
def parseColumn (text : List Char) : Except DefinitionFault ((String × ColumnType) × Bool) :=
  match Text.words text with
  | [name, type] => describe name type none
  | [name, type, mark] => describe name type (some mark)
  | _ => .error (.badColumn (String.ofList (Text.trim text)))

/-- Reads columns one after another. -/
def parseColumns :
    List (List Char) → Except DefinitionFault (List ((String × ColumnType) × Bool))
  | [] => .ok []
  | text :: texts =>
      match parseColumn text with
      | .error fault => .error fault
      | .ok column =>
          match parseColumns texts with
          | .error fault => .error fault
          | .ok columns => .ok (column :: columns)

/-! ## Lines -/

/-- The text before the last closing parenthesis. -/
def beforeLastClose (text : List Char) : List Char :=
  ((text.reverse.dropWhile fun c => c ≠ ')').drop 1).reverse

/-- Reads a definition. -/
def parse (line : List Char) : Except DefinitionFault TableDefinition :=
  let front := line.takeWhile fun c => c ≠ '('
  match line.dropWhile fun c => c ≠ '(' with
  | [] => .error .noOpen
  | _ :: rest =>
      if ¬ line.contains ')' then .error .noClose
      else if ¬ rest.contains ')' then .error .closeBeforeOpen
      else
        let name := Text.trim front
        if name.isEmpty then .error .noName
        else
          match parseColumns (Text.pieces (fun c => c = ',') (beforeLastClose rest)) with
          | .error fault => .error fault
          | .ok columns =>
              .ok {
                name := String.ofList name
                columns := columns.map Prod.fst
                key := ((columns.filter Prod.snd).getLast?).map fun column => column.1.1 }

example : parse "t ( a INT , b string pk )".toList =
    .ok { name := "t", columns := [("a", .int), ("b", .text)], key := some "b" } := by rfl

end TableDefinition

end PagedStore

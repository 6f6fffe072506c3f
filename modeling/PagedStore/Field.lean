import PagedStore.Bytes
import PagedStore.Schema
import PagedStore.Text.Utf8

/-!
# Field values and their stored form

A number is stored as four bytes, the most significant first.  A text is
stored as a four-byte length, its bytes, and zeros up to the full width.  The
stored form has the width of the type whatever the value (`length_encode`).

A text longer than `textLimit` bytes is cut there, which can fall inside a
character.  Rows never hold such a text, so the cut shows only when a field is
written on its own.

Reading looks at the front of a byte string.  It fails if the bytes are too
few, if the length is over the limit, or if the bytes of a text are not UTF-8,
in that order.
-/

namespace PagedStore

/-- The value of one column. -/
inductive Field where
  /-- A number. -/
  | int (value : Int32)
  /-- A text. -/
  | text (value : String)
deriving DecidableEq

/-- Why bytes do not hold a value of a type. -/
inductive FieldFault where
  /-- There are fewer bytes than the type takes. -/
  | short (needed given : Nat)
  /-- The length of a text is over the limit. -/
  | textLength (length : Nat)
  /-- The bytes of a text are not UTF-8. -/
  | notUtf8 (fault : Utf8.Fault)
deriving DecidableEq, Repr

/-- The wording of a fault. -/
def FieldFault.message : FieldFault → String
  | .short needed given => s!"need {needed} bytes, have {given}"
  | .textLength length => s!"string length {length} exceeds {textLimit}"
  | .notUtf8 fault => s!"string is not UTF-8: {fault.message}"

namespace Field

/-- The type of a value. -/
def type : Field → ColumnType
  | int _ => .int
  | text _ => .text

/-- A number in decimal, a text as it is. -/
instance : ToString Field where
  toString
    | int value => toString value.toInt
    | text value => value

/-! ## The stored form -/

/-- The stored form of a value. -/
def encode : Field → Bytes
  | int value => Bytes.bigEndian value.toUInt32.toNat
  | text value =>
      let body := (Utf8.encode value).take textLimit
      Bytes.bigEndian body.length ++ body ++ Bytes.zeros (textLimit - body.length)

@[simp] theorem length_encode (f : Field) : f.encode.length = f.type.width := by
  cases f with
  | int value => rfl
  | text value =>
      simp only [encode, type, ColumnType.width, List.length_append, Bytes.length_bigEndian,
        Bytes.length_zeros, List.length_take]
      omega

/-- Writes the value into the front of a buffer, which keeps its other bytes.
The buffer has to be as wide as the type. -/
def writeTo? (f : Field) (buffer : Bytes) : Option Bytes :=
  if buffer.length < f.type.width then none
  else some (Bytes.overwrite buffer 0 f.encode)

end Field

/-! ## Reading -/

/-- Reads a value of the type from the front of a byte string. -/
def ColumnType.decode (type : ColumnType) (data : Bytes) : Except FieldFault Field :=
  if data.length < type.width then .error (.short type.width data.length)
  else
    let word := Bytes.ofBigEndian (data.take 4)
    match type with
    | .int => .ok (.int (UInt32.ofNat word).toInt32)
    | .text =>
        if textLimit < word then .error (.textLength word)
        else
          match Utf8.decode ((data.drop 4).take word) with
          | .ok value => .ok (.text value)
          | .error fault => .error (.notUtf8 fault)

/-- A value that is read has the type it was read at. -/
theorem ColumnType.type_of_decode {type : ColumnType} {data : Bytes} {f : Field}
    (h : type.decode data = .ok f) : f.type = type := by
  unfold decode at h
  split at h
  · cases h
  · cases type with
    | int => cases h; rfl
    | text =>
        simp only at h
        split at h
        · cases h
        · split at h <;> cases h
          rfl

end PagedStore

import PagedStore.Proofs.Images

/-!
# Values and rows through slices

Here values and rows are read and written through slices, each of which has to lie inside its
bytes (`Bytes.slice?`, `Bytes.updateSlice?`).  The offsets of the values of a row are counted up as
the row is gone through, by the types of the columns when it is read and by the values when it is
written.

No slice is ever past the end.  A value is read through slices from any bytes whatsoever
(`ColumnType.read?_eq`), and a row is read and written through slices whenever there are as many
bytes as it takes (`Row.read?_eq`, `Row.writeTo?_eq`).  What is read and written is the same as
without slices.
-/

namespace PagedStore

/-! ## Slices -/

namespace Bytes

variable {data part patch more : Bytes} {offset start stop : Nat}

/-- The bytes from `start` to before `stop`, which have to be there. -/
def slice? (data : Bytes) (start stop : Nat) : Option Bytes :=
  if start ≤ stop ∧ stop ≤ data.length then some ((data.drop start).take (stop - start)) else none

/-- The bytes from `start` to before `stop`, which have to be there, replaced by what is made of
them. -/
def updateSlice? (data : Bytes) (start stop : Nat) (write : Bytes → Option Bytes) : Option Bytes :=
  (data.slice? start stop).bind fun part => (write part).map (data.overwrite start)

theorem slice?_eq {width : Nat} (h : offset + width ≤ data.length) :
    data.slice? offset (offset + width) = some ((data.drop offset).take width) := by
  rw [slice?, if_pos ⟨Nat.le_add_right _ _, h⟩, Nat.add_sub_cancel_left]

/-- Overwriting one stretch and then the next is overwriting both at once. -/
theorem overwrite_overwrite (h : offset ≤ data.length) :
    (data.overwrite offset patch).overwrite (offset + patch.length) more =
      data.overwrite offset (patch ++ more) := by
  have hfront : (data.take offset ++ patch).length = offset + patch.length := by
    rw [List.length_append, List.length_take, Nat.min_eq_left h]
  rw [overwrite, overwrite, overwrite, List.take_left' hfront, List.drop_append, hfront,
    List.drop_of_length_le (by omega), List.nil_append, List.drop_drop, List.length_append]
  simp only [List.append_assoc]
  congr 4
  omega

/-- Overwriting all bytes leaves nothing of them. -/
theorem overwrite_zero_of_length_eq (h : patch.length = data.length) :
    data.overwrite 0 patch = patch := by
  rw [overwrite, List.drop_of_length_le (by omega), List.append_nil]
  rfl

end Bytes

/-! ## Values -/

/-- Reads a value of the type through slices. -/
def ColumnType.read? (type : ColumnType) (data : Bytes) : Option (Except FieldFault Field) :=
  if data.length < type.width then some (.error (.short type.width data.length))
  else
    (data.slice? 0 4).bind fun head =>
      let word := Bytes.ofBigEndian head
      match type with
      | .int => some (.ok (.int (UInt32.ofNat word).toInt32))
      | .text =>
          if textLimit < word then some (.error (.textLength word))
          else
            (data.slice? 4 (4 + word)).map fun body =>
              match Utf8.decode body with
              | .ok value => .ok (.text value)
              | .error fault => .error (.notUtf8 fault)

/-- Whatever the bytes are, no slice of them is past their end. -/
theorem ColumnType.read?_eq (type : ColumnType) (data : Bytes) :
    type.read? data = some (type.decode data) := by
  rw [read?, decode]
  split
  · rfl
  · rename_i hlong
    have hwidth : 4 ≤ type.width := by cases type <;> decide
    have hhead : data.slice? 0 4 = some (data.take 4) := if_pos (by omega)
    rw [hhead, Option.bind_some]
    cases type with
    | int => rfl
    | text =>
        dsimp only
        split
        · rfl
        · rename_i hle
          rw [width] at hlong
          exact congrArg (Option.map _) (Bytes.slice?_eq (by omega))

/-- A value is written over a slice that is as wide as its type. -/
theorem Field.updateSlice?_writeTo? (f : Field) {slot : Bytes} {offset : Nat}
    (h : offset + f.type.width ≤ slot.length) :
    slot.updateSlice? offset (offset + f.type.width) f.writeTo? =
      some (slot.overwrite offset f.encode) := by
  have hpart : ((slot.drop offset).take f.type.width).length = f.type.width := by
    rw [List.length_take, List.length_drop]
    omega
  rw [Bytes.updateSlice?, Bytes.slice?_eq h, Option.bind_some, writeTo?, if_neg (by omega),
    Option.map_some, Bytes.overwrite_zero_of_length_eq (by rw [length_encode, hpart])]

/-! ## Rows -/

namespace Row

variable {schema : Schema} {types : List ColumnType} {fields : List Field} {data slot : Bytes}
  {offset : Nat} {r : Row}

/-- Reads values of these types through slices, the first of them from the offset on. -/
def readFields? (data : Bytes) : List ColumnType → Nat → Option (Except FieldFault (List Field))
  | [], _ => some (.ok [])
  | t :: ts, offset =>
      (data.slice? offset (offset + t.width)).bind fun part =>
        (t.read? part).bind fun
          | .error fault => some (.error fault)
          | .ok f => (readFields? data ts (offset + t.width)).map (Except.map (f :: ·))

/-- Reads a row through slices. -/
def read? (schema : Schema) (recordId : RecordId) (data : Bytes) :
    Option (Except FieldFault Row) :=
  (readFields? data schema.types 0).map
    (Except.map fun fields => { schema, fields, recordId := some recordId })

/-- Writes values through slices, the first of them to the offset. -/
def writeFields? : List Field → Nat → Bytes → Option Bytes
  | [], _, slot => some slot
  | f :: fs, offset, slot =>
      (slot.updateSlice? offset (offset + f.type.width) f.writeTo?).bind
        (writeFields? fs (offset + f.type.width))

/-- Writes a row through slices over the bytes of a slot. -/
def writeTo? (r : Row) (slot : Bytes) : Option Bytes := writeFields? r.fields 0 slot

theorem readFields?_eq (h : offset + ColumnType.totalWidth types ≤ data.length) :
    readFields? data types offset = some (decodeFields types (data.drop offset)) := by
  induction types generalizing offset with
  | nil => rfl
  | cons t ts ih =>
      rw [ColumnType.totalWidth] at h
      rw [readFields?, Bytes.slice?_eq (by omega), Option.bind_some, ColumnType.read?_eq,
        Option.bind_some, decodeFields, ih (by omega), List.drop_drop]
      cases t.decode ((data.drop offset).take t.width) with
      | error fault => rfl
      | ok f =>
          cases decodeFields ts (data.drop (offset + t.width)) <;> rfl

/-- A row is read through slices if there are as many bytes as it takes. -/
theorem read?_eq (h : schema.width ≤ data.length) (record : RecordId) :
    read? schema record data = some (decode schema record data) := by
  rw [Schema.width] at h
  rw [read?, readFields?_eq (by omega), List.drop_zero, decode, Option.map_some]
  cases decodeFields schema.types data <;> rfl

theorem writeFields?_eq
    (h : offset + ColumnType.totalWidth (fields.map Field.type) ≤ slot.length) :
    writeFields? fields offset slot =
      some (slot.overwrite offset (fields.flatMap Field.encode)) := by
  induction fields generalizing offset slot with
  | nil =>
      show some slot = some (slot.take offset ++ [] ++ slot.drop (offset + 0))
      simp
  | cons f fs ih =>
      rw [List.map_cons, ColumnType.totalWidth] at h
      have hlength : (slot.overwrite offset f.encode).length = slot.length := by
        rw [Bytes.length_overwrite (by omega), Field.length_encode]
        omega
      rw [writeFields?, f.updateSlice?_writeTo? (by omega), Option.bind_some, ih (by omega),
        ← f.length_encode, Bytes.overwrite_overwrite (by omega)]
      rfl

/-- A valid row is written through slices over all the bytes of its slot. -/
theorem writeTo?_eq (hr : r.Valid) (h : slot.length = r.schema.width) :
    r.writeTo? slot = some r.encode := by
  have hwidth : ColumnType.totalWidth (r.fields.map Field.type) = r.schema.width := by
    rw [hr.1, Schema.width]
  rw [writeTo?, writeFields?_eq (by omega)]
  exact congrArg some (Bytes.overwrite_zero_of_length_eq ((length_encode hr).trans h.symm))

end Row
end PagedStore

import PagedStore.StoreError

/-!
# Rows

A row has a schema, one value for each column, and the address where it is
stored if it is stored.  A row is *valid* when the values have the types of
their columns and no text is over the limit (`Row.Valid`).  `Row.ofFields`
accepts exactly the values that make a valid row (`ofFields_eq_ok_iff`), and
names the first rule that is broken: the number of values, then column by
column the type and the length of a text.

The stored form of a row is the stored forms of its values, one after another.
It has the width of the schema (`length_encode`).
-/

namespace PagedStore

/-- A row of values. -/
structure Row where
  /-- The columns. -/
  schema : Schema
  /-- The value of each column. -/
  fields : List Field
  /-- Where the row is stored, if it is. -/
  recordId : Option RecordId := none
deriving DecidableEq

/-- The value is a text over the limit. -/
def Field.TooLong : Field → Prop
  | .int _ => False
  | .text value => textLimit < value.utf8ByteSize

instance (f : Field) : Decidable f.TooLong := by
  cases f <;> unfold Field.TooLong <;> infer_instance

namespace Row

/-! ## Checking values against a schema -/

/-- The values have the types of the columns, and no text is over the limit. -/
def Valid (r : Row) : Prop :=
  r.fields.map Field.type = r.schema.types ∧ ∀ f ∈ r.fields, ¬ f.TooLong

instance (r : Row) : Decidable r.Valid := by
  unfold Valid
  infer_instance

/-- Checks one value for a column. -/
def checkField (column : Nat) (type : ColumnType) (f : Field) : Except RowFault Unit :=
  if f.type ≠ type then .error (.columnType column type f.type)
  else
    match f with
    | .int _ => .ok ()
    | .text value =>
        if textLimit < value.utf8ByteSize then .error (.textTooLong value.utf8ByteSize)
        else .ok ()

/-- Checks the values column by column, the first of them for column `i`.
Lists of different lengths are checked as far as both go. -/
def checkFields (i : Nat) : List ColumnType → List Field → Except RowFault Unit
  | t :: ts, f :: fs =>
      match checkField i t f with
      | .ok _ => checkFields (i + 1) ts fs
      | .error fault => .error fault
  | _, _ => .ok ()

/-- The row with these values, stored nowhere. -/
def ofFields (schema : Schema) (fields : List Field) : Except RowFault Row :=
  if fields.length ≠ schema.size then .error (.arity schema.size fields.length)
  else
    match checkFields 0 schema.types fields with
    | .ok _ => .ok { schema, fields }
    | .error fault => .error fault

/-- The row with one value replaced.  The new value is checked like a value of
a new row. -/
def setField (r : Row) (i : Nat) (f : Field) : Except RowFault Row :=
  if r.fields.length ≤ i then .error (.noColumn i)
  else
    match r.schema.typeAt? i with
    | none => .error (.noColumn i)
    | some type =>
        match checkField i type f with
        | .ok _ => .ok { r with fields := r.fields.set i f }
        | .error fault => .error fault

/-- The row at another address. -/
def placedAt (r : Row) (recordId : Option RecordId) : Row := { r with recordId }

theorem checkField_eq_ok_iff {i : Nat} {t : ColumnType} {f : Field} :
    checkField i t f = .ok () ↔ f.type = t ∧ ¬ f.TooLong := by
  unfold checkField
  by_cases h : f.type = t
  · cases f with
    | int value => simp [h, Field.TooLong]
    | text value =>
        simp only [h, ne_eq, not_true_eq_false, if_false, Field.TooLong, true_and]
        split <;> simp_all
  · simp [h]

theorem checkFields_eq_ok_iff {i : Nat} {ts : List ColumnType} {fs : List Field}
    (h : fs.length = ts.length) :
    checkFields i ts fs = .ok () ↔ fs.map Field.type = ts ∧ ∀ f ∈ fs, ¬ f.TooLong := by
  induction ts generalizing i fs with
  | nil =>
      cases fs with
      | nil => simp [checkFields]
      | cons f fs => simp at h
  | cons t ts ih =>
      cases fs with
      | nil => simp at h
      | cons f fs =>
          have ih' := @ih (i + 1) fs (by simpa using h)
          rw [checkFields]
          cases hc : checkField i t f with
          | ok u =>
              have := checkField_eq_ok_iff.1 hc
              simp only [ih', List.map_cons, List.cons.injEq, List.mem_cons, forall_eq_or_imp]
              grind
          | error fault =>
              have : ¬ (f.type = t ∧ ¬ f.TooLong) := fun hf => by
                rw [checkField_eq_ok_iff.2 hf] at hc
                cases hc
              simp only [reduceCtorEq, List.map_cons, List.cons.injEq, List.mem_cons,
                forall_eq_or_imp, false_iff]
              grind

/-- A row is made of exactly the values that are valid for the schema. -/
theorem ofFields_eq_ok_iff {schema : Schema} {fields : List Field} {r : Row} :
    ofFields schema fields = .ok r ↔ r = { schema, fields } ∧ r.Valid := by
  have hs : schema.size = schema.types.length := by simp [Schema.size, Schema.types]
  unfold ofFields
  by_cases hl : fields.length = schema.size
  · simp only [hl, ne_eq, not_true_eq_false, if_false]
    have hc := checkFields_eq_ok_iff (i := 0) (hl.trans hs)
    cases h : checkFields 0 schema.types fields with
    | ok u =>
        have hv := hc.1 h
        simp only [Except.ok.injEq]
        exact ⟨fun e => ⟨e.symm, e ▸ hv⟩, fun e => e.1.symm⟩
    | error fault =>
        simp only [reduceCtorEq, false_iff]
        rintro ⟨rfl, hv⟩
        rw [hc.2 hv] at h
        cases h
  · simp only [hl, ne_eq, not_false_eq_true, if_true, reduceCtorEq, false_iff]
    rintro ⟨rfl, hv⟩
    exact hl (by rw [hs, ← hv.1, List.length_map])

/-! ## The stored form -/

/-- The stored forms of the values, one after another. -/
def encode (r : Row) : Bytes := r.fields.flatMap Field.encode

theorem length_encode_eq_totalWidth (r : Row) :
    r.encode.length = ColumnType.totalWidth (r.fields.map Field.type) := by
  unfold encode
  induction r.fields with
  | nil => rfl
  | cons f fs ih => simp [ColumnType.totalWidth, ih]

/-- The stored form of a valid row has the width of the schema. -/
theorem length_encode {r : Row} (h : r.Valid) : r.encode.length = r.schema.width := by
  rw [length_encode_eq_totalWidth, h.1, Schema.width]

/-- The values that a byte string holds, one of each type in order. -/
def decodeFields : List ColumnType → Bytes → Except FieldFault (List Field)
  | [], _ => .ok []
  | t :: ts, data =>
      match t.decode (data.take t.width) with
      | .error fault => .error fault
      | .ok f =>
          match decodeFields ts (data.drop t.width) with
          | .error fault => .error fault
          | .ok fs => .ok (f :: fs)

/-- The row that a byte string holds, at an address. -/
def decode (schema : Schema) (recordId : RecordId) (data : Bytes) : Except FieldFault Row :=
  match decodeFields schema.types data with
  | .ok fields => .ok { schema, fields, recordId := some recordId }
  | .error fault => .error fault

/-! ## Text -/

/-- The values, with a tab between them. -/
instance : ToString Row := ⟨fun r => "\t".intercalate (r.fields.map toString)⟩

end Row

end PagedStore

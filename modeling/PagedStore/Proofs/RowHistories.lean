import PagedStore.Proofs.PageHistories
import PagedStore.Proofs.Slices
import PagedStore.Proofs.StoredRows

/-!
# What is done to a row, and its slot

A row is made of values or parsed from a slot.  Then values of it are replaced, and it gets one
address or another (`Row.Obtained`).  A value is replaced in place, but only when it has passed all
checks (`Row.assign`), so an attempt that fails leaves the row as it is (`Row.Valid.replaces`).

Whatever is done, the row has one value for each column, of the type of that column, and no text
over the limit (`Schema.Admits`, `Row.Obtained.valid`).  So no text is cut when the row is written.

Writing goes through slices down to the parts of a text (`Field.fill?`), at offsets that the values
count up.  Parsing counts them up by the columns.  Both come to the offsets that the widths of the
columns give, and of what a slot held before no byte is left (`Row.StoredAs`).

`Row.valid_and_stored` has all of this.
-/

namespace PagedStore

/-! ## Values that make a row -/

/-- The values make a row of the schema. -/
structure Schema.Admits (schema : Schema) (fields : List Field) : Prop where
  /-- There are as many as columns. -/
  length : fields.length = schema.size
  /-- Each is of the type of its column. -/
  type : ∀ i f, fields[i]? = some f → schema.typeAt? i = some f.type
  /-- No text has too many bytes. -/
  limit : ∀ s, .text s ∈ fields → (Utf8.encode s).length ≤ textLimit

theorem Schema.typeAt?_eq (schema : Schema) (i : Nat) : schema.typeAt? i = schema.types[i]? := by
  simp [typeAt?, types]

/-- A text is too long if it has too many bytes.  A number never is. -/
theorem Field.not_tooLong_iff {f : Field} :
    ¬ f.TooLong ↔ ∀ s, f = .text s → (Utf8.encode s).length ≤ textLimit := by
  cases f with
  | int value => simp [TooLong]
  | text value => simp [TooLong, Utf8.length_encode]

/-- The types agree as lists if they do so column by column. -/
theorem Schema.map_type_eq_types_iff {schema : Schema} {fields : List Field} :
    fields.map Field.type = schema.types ↔
      fields.length = schema.size ∧
        ∀ i f, fields[i]? = some f → schema.typeAt? i = some f.type := by
  constructor
  · intro h
    refine ⟨by simpa [types, size] using congrArg List.length h, ?_⟩
    intro i f hf
    rw [typeAt?_eq, ← h, List.getElem?_map, hf, Option.map_some]
  · rintro ⟨hlength, htype⟩
    refine List.ext_getElem? fun i => ?_
    rw [List.getElem?_map, ← typeAt?_eq]
    cases hf : fields[i]? with
    | some f => rw [htype i f hf, Option.map_some]
    | none =>
        have hi : schema.size ≤ i := hlength ▸ List.getElem?_eq_none_iff.1 hf
        rw [typeAt?, List.getElem?_eq_none hi, Option.map_none, Option.map_none]

/-! ## Parts that are overwritten -/

namespace Bytes

variable {data source part front patch : Bytes} {start stop : Nat} {write : Bytes → Option Bytes}

/-- What a part is after these bytes were copied to it.  It has to be as long. -/
def copyTo? (source part : Bytes) : Option Bytes :=
  if source.length = part.length then some source else none

/-- What a part is after it was filled with zeros. -/
def clear? (part : Bytes) : Option Bytes := some (zeros part.length)

theorem copyTo?_eq (h : part.length = source.length) : source.copyTo? part = some source :=
  if_pos h.symm

/-- The next part after the front of a buffer, for which the same is written whatever it held. -/
theorem updateSlice?_next (hfront : front.length ≤ data.length) (hstart : start = front.length)
    (hstop : stop = start + patch.length)
    (hwrite : ∀ part : Bytes, part.length = patch.length → write part = some patch) :
    (data.overwrite 0 front).updateSlice? start stop write =
      if stop ≤ data.length then some (data.overwrite 0 (front ++ patch)) else none := by
  have hlength : (data.overwrite 0 front).length = data.length := by
    rw [length_overwrite (Nat.zero_le _)]
    omega
  have hboth : (data.overwrite 0 front).overwrite start patch =
      data.overwrite 0 (front ++ patch) := by
    rw [← overwrite_overwrite (Nat.zero_le _), Nat.zero_add, hstart]
  subst hstop
  split
  · rename_i hle
    rw [updateSlice?, slice?_eq (hlength ▸ hle), Option.bind_some, hwrite, Option.map_some, hboth]
    rw [List.length_take, List.length_drop]
    omega
  · rename_i hlt
    rw [updateSlice?, slice?, if_neg (by omega), Option.bind_none]

/-- The first part of a buffer. -/
theorem updateSlice?_first (data : Bytes) (hstop : stop = patch.length)
    (hwrite : ∀ part : Bytes, part.length = patch.length → write part = some patch) :
    data.updateSlice? 0 stop write =
      if stop ≤ data.length then some (data.overwrite 0 patch) else none := by
  have hnone : data.overwrite 0 [] = data := by simp [overwrite]
  have hnext : (data.overwrite 0 []).updateSlice? 0 stop write =
      if stop ≤ data.length then some (data.overwrite 0 ([] ++ patch)) else none :=
    updateSlice?_next (Nat.zero_le _) rfl (by omega) hwrite
  rwa [hnone, List.nil_append] at hnext

end Bytes

/-! ## Values that are written part by part -/

namespace Field

/-- Writes a value through slices into the front of a buffer.  Of a text, the length, the bytes
and the zeros are written one after another. -/
def fill? : Field → Bytes → Option Bytes
  | .int value, buffer =>
      buffer.updateSlice? 0 4 (Bytes.bigEndian value.toUInt32.toNat).copyTo?
  | .text value, buffer =>
      let length := min (Utf8.encode value).length textLimit
      ((Utf8.encode value).slice? 0 length).bind fun body =>
        (buffer.updateSlice? 0 4 (Bytes.bigEndian length).copyTo?).bind fun buffer =>
          (buffer.updateSlice? 4 (4 + length) body.copyTo?).bind fun buffer =>
            buffer.updateSlice? (4 + length) (4 + textLimit) Bytes.clear?

theorem writeTo?_eq_ite (f : Field) (buffer : Bytes) :
    f.writeTo? buffer =
      if f.type.width ≤ buffer.length then some (buffer.overwrite 0 f.encode) else none := by
  rw [writeTo?]
  split
  · rw [if_neg (by omega)]
  · rw [if_pos (by omega)]

/-- Whatever the buffer, the parts of a text come to its stored form. -/
theorem fill?_text (value : String) (buffer : Bytes) :
    (text value).fill? buffer = (text value).writeTo? buffer := by
  have hlength : ((Utf8.encode value).take textLimit).length =
      min (Utf8.encode value).length textLimit := by
    rw [List.length_take, Nat.min_comm]
  have hbody : (Utf8.encode value).slice? 0 (min (Utf8.encode value).length textLimit) =
      some ((Utf8.encode value).take textLimit) := by
    rw [Bytes.slice?, if_pos ⟨Nat.zero_le _, Nat.min_le_left _ _⟩, List.drop_zero, Nat.sub_zero,
      Nat.min_comm, ← List.take_eq_take_min]
  have hle : min (Utf8.encode value).length textLimit ≤ textLimit := Nat.min_le_right _ _
  rw [writeTo?_eq_ite, fill?, encode, type, ColumnType.width, hbody, hlength, Option.bind_some]
  generalize min (Utf8.encode value).length textLimit = n at *
  generalize (Utf8.encode value).take textLimit = body at *
  -- Each part is written if the buffer goes so far, and the last one goes as far as the width.
  have hword : buffer.updateSlice? 0 4 (Bytes.bigEndian n).copyTo? =
      if 4 ≤ buffer.length then some (buffer.overwrite 0 (Bytes.bigEndian n)) else none :=
    Bytes.updateSlice?_first buffer rfl fun _ => Bytes.copyTo?_eq
  rw [hword]
  split
  · rename_i hfour
    have htext : (buffer.overwrite 0 (Bytes.bigEndian n)).updateSlice? 4 (4 + n)
        (Bytes.copyTo? body) =
          if 4 + n ≤ buffer.length then some (buffer.overwrite 0 (Bytes.bigEndian n ++ body))
          else none :=
      Bytes.updateSlice?_next hfour rfl (by omega) fun _ => Bytes.copyTo?_eq
    rw [Option.bind_some, htext]
    split
    · rename_i hmore
      have hfront : 4 + n = (Bytes.bigEndian n ++ body).length := by
        rw [List.length_append, hlength, Bytes.length_bigEndian]
      rw [Option.bind_some]
      refine Bytes.updateSlice?_next (hfront ▸ hmore) hfront ?_ ?_
      · rw [Bytes.length_zeros]
        omega
      · intro part hpart
        rw [Bytes.clear?, hpart, Bytes.length_zeros]
    · rw [Option.bind_none, if_neg (by omega)]
  · rw [Option.bind_none, if_neg (by omega)]

/-- Whatever the buffer, the parts of a value come to its stored form. -/
theorem fill?_eq_writeTo? (f : Field) (buffer : Bytes) : f.fill? buffer = f.writeTo? buffer := by
  cases f with
  | int value =>
      rw [writeTo?_eq_ite]
      exact Bytes.updateSlice?_first buffer rfl fun _ => Bytes.copyTo?_eq
  | text value => exact fill?_text value buffer

end Field

/-! ## The check of a value -/

/-- Checks a value for the column at a position. -/
def Schema.check (schema : Schema) (i : Nat) (f : Field) : Except RowFault Unit :=
  match schema.typeAt? i with
  | none => .error (.noColumn i)
  | some type => Row.checkField i type f

theorem Schema.check_eq_ok_iff {schema : Schema} {i : Nat} {f : Field} :
    schema.check i f = .ok () ↔ schema.typeAt? i = some f.type ∧ ¬ f.TooLong := by
  rw [check]
  cases schema.typeAt? i with
  | none => simp
  | some type =>
      dsimp only
      rw [Row.checkField_eq_ok_iff, Option.some.injEq, eq_comm]

namespace Row

variable {schema : Schema} {fields : List Field} {slot : Bytes} {r r' : Row} {i : Nat} {f : Field}

/-- A row is valid if its values make a row of its schema. -/
theorem valid_iff_admits : r.Valid ↔ r.schema.Admits r.fields := by
  have hlimit : (∀ f ∈ r.fields, ¬ f.TooLong) ↔
      ∀ s, .text s ∈ r.fields → (Utf8.encode s).length ≤ textLimit := by
    simp only [Field.not_tooLong_iff]
    exact ⟨fun h s hs => h _ hs s rfl, fun h f hf s hs => h s (hs ▸ hf)⟩
  rw [Valid, Schema.map_type_eq_types_iff, hlimit, and_assoc]
  exact ⟨fun ⟨h, h', h''⟩ => ⟨h, h', h''⟩, fun h => ⟨h.length, h.type, h.limit⟩⟩

/-! ## Values replaced in place -/

/-- What is tried on a row that is at hand.  If it fails, the row stays as it is by then. -/
abbrev Attempt := ExceptT RowFault (StateM Row)

/-- What comes of an attempt, and the row after it. -/
def Attempt.on (attempt : Attempt Unit) (r : Row) : Except RowFault Unit × Row :=
  Id.run (attempt.run.run r)

/-- Replaces a value, once it is checked. -/
def assign (i : Nat) (f : Field) : Attempt Unit := do
  let row ← get
  if row.fields.length ≤ i then
    throw (.noColumn i)
  row.schema.check i f
  modify fun row => { row with fields := row.fields.set i f }

/-- What comes of replacing value `i` of a row by `f`. -/
structure Replaces (r : Row) (i : Nat) (f : Field) (outcome : Except RowFault Unit × Row) :
    Prop where
  /-- It succeeds if and only if the value is fit for the column. -/
  succeeds : outcome.1 = .ok () ↔ r.schema.typeAt? i = some f.type ∧ ¬ f.TooLong
  /-- If it fails the row is as it was. -/
  failed : outcome.1 ≠ .ok () → outcome.2 = r
  /-- If it succeeds the new value is there. -/
  here : outcome.1 = .ok () → outcome.2.fields[i]? = some f
  /-- The other values stay in any case. -/
  others : ∀ j, j ≠ i → outcome.2.fields[j]? = r.fields[j]?
  /-- The schema stays. -/
  schema : outcome.2.schema = r.schema
  /-- The address stays. -/
  recordId : outcome.2.recordId = r.recordId

theorem Attempt.on_get_bind (next : Row → Attempt Unit) (r : Row) :
    Attempt.on (get >>= next) r = (next r).on r := rfl

theorem Attempt.on_check_bind (check : Except RowFault Unit) (next : Unit → Attempt Unit)
    (r : Row) :
    Attempt.on (liftM check >>= next) r =
      match check with
      | .ok u => (next u).on r
      | .error fault => (.error fault, r) := by
  cases check <;> rfl

theorem setField_eq (r : Row) (i : Nat) (f : Field) :
    r.setField i f =
      if r.fields.length ≤ i then .error (.noColumn i)
      else (r.schema.check i f).map fun _ => { r with fields := r.fields.set i f } := by
  rw [setField, Schema.check]
  cases r.schema.typeAt? i with
  | none => rfl
  | some type =>
      dsimp only
      cases checkField i type f <;> rfl

theorem setField_eq_ok_iff :
    r.setField i f = .ok r' ↔
      i < r.fields.length ∧ (r.schema.typeAt? i = some f.type ∧ ¬ f.TooLong) ∧
        r' = { r with fields := r.fields.set i f } := by
  rw [setField_eq, ← Schema.check_eq_ok_iff]
  split
  · simp only [reduceCtorEq, false_iff]
    omega
  · cases r.schema.check i f with
    | ok u => simp_all [Except.map, eq_comm]
    | error fault => simp [Except.map]

/-- In place, the row gets the new value if that is possible at all, and else stays. -/
theorem on_assign (r : Row) (i : Nat) (f : Field) :
    (assign i f).on r =
      match r.setField i f with
      | .ok r' => (.ok (), r')
      | .error fault => (.error fault, r) := by
  rw [assign, Attempt.on_get_bind, setField_eq]
  split
  · rfl
  · rw [Attempt.on_check_bind]
    cases r.schema.check i f <;> rfl

theorem Valid.replaces (h : r.Valid) (i : Nat) (f : Field) :
    Replaces r i f ((assign i f).on r) := by
  rw [on_assign]
  cases hs : r.setField i f with
  | ok r' =>
      obtain ⟨hi, hfit, rfl⟩ := setField_eq_ok_iff.1 hs
      exact {
        succeeds := ⟨fun _ => hfit, fun _ => rfl⟩
        failed := fun hne => absurd rfl hne
        here := fun _ => List.getElem?_set_self hi
        others := fun j hj => List.getElem?_set_ne hj.symm
        schema := rfl
        recordId := rfl }
  | error fault =>
      have hunfit : ¬ (r.schema.typeAt? i = some f.type ∧ ¬ f.TooLong) := by
        intro hfit
        have htype := hfit.1
        rw [Schema.typeAt?_eq, ← h.1, List.getElem?_map] at htype
        obtain ⟨g, hg, -⟩ := Option.map_eq_some_iff.1 htype
        have hi : i < r.fields.length := (List.getElem?_eq_some_iff.1 hg).1
        cases hs.symm.trans (setField_eq_ok_iff.2 ⟨hi, hfit, rfl⟩)
      exact {
        succeeds := ⟨nofun, fun hfit => absurd hfit hunfit⟩
        failed := fun _ => rfl
        here := nofun
        others := fun _ _ => rfl
        schema := rfl
        recordId := rfl }

/-! ## Parsing and filling a slot -/

/-- Parses a row through slices.  It has no address yet. -/
def parse? (schema : Schema) (slot : Bytes) : Option (Except FieldFault Row) :=
  (readFields? slot schema.types 0).map (Except.map fun fields => { schema, fields })

/-- Writes values part by part through slices, the first of them to the offset. -/
def fillFields? : List Field → Nat → Bytes → Option Bytes
  | [], _, slot => some slot
  | f :: fs, offset, slot =>
      (slot.updateSlice? offset (offset + f.type.width) f.fill?).bind
        (fillFields? fs (offset + f.type.width))

/-- Writes a row part by part through slices over the bytes of a slot. -/
def fill? (r : Row) (slot : Bytes) : Option Bytes := fillFields? r.fields 0 slot

/-- A row that is read at an address is parsed first and gets the address then. -/
theorem read?_eq_parse? (schema : Schema) (record : RecordId) (slot : Bytes) :
    read? schema record slot =
      (parse? schema slot).map (Except.map (placedAt · (some record))) := by
  rw [read?, parse?, Option.map_map]
  refine congrArg (Option.map · _) (funext fun result => ?_)
  cases result <;> rfl

/-- A value was made of another one, which is there as well. -/
theorem exists_of_map_eq_ok {α β : Type} {g : α → β} {result : Option (Except FieldFault α)}
    {b : β} (h : result.map (Except.map g) = some (.ok b)) :
    ∃ a, result = some (.ok a) ∧ g a = b := by
  obtain ⟨inner, rfl, hinner⟩ := Option.map_eq_some_iff.1 h
  cases inner with
  | error fault => cases hinner
  | ok a => exact ⟨a, rfl, Except.ok.inj hinner⟩

theorem valid_of_readFields? {types : List ColumnType} {offset : Nat}
    (h : readFields? slot types offset = some (.ok fields)) :
    fields.map Field.type = types ∧ ∀ f ∈ fields, ¬ f.TooLong := by
  induction types generalizing offset fields with
  | nil =>
      cases h
      simp
  | cons t types ih =>
      rw [readFields?] at h
      obtain ⟨part, -, h⟩ := Option.bind_eq_some_iff.1 h
      rw [ColumnType.read?_eq, Option.bind_some] at h
      cases hf : t.decode part with
      | error fault =>
          rw [hf] at h
          cases h
      | ok f =>
          rw [hf] at h
          obtain ⟨rest, hrest, rfl⟩ := exists_of_map_eq_ok h
          obtain ⟨htypes, hlong⟩ := ih hrest
          refine ⟨by rw [List.map_cons, htypes, ColumnType.type_of_decode hf], ?_⟩
          intro g hg
          cases hg with
          | head => exact Field.not_tooLong_of_decode hf
          | tail _ hg => exact hlong g hg

/-- Whatever the slot, a row that is parsed from it is valid. -/
theorem valid_of_parse? (h : parse? schema slot = some (.ok r)) : r.schema = schema ∧ r.Valid := by
  obtain ⟨fields, hread, rfl⟩ := exists_of_map_eq_ok h
  exact ⟨rfl, valid_of_readFields? hread⟩

theorem fillFields?_eq_writeFields? (fields : List Field) (offset : Nat) (slot : Bytes) :
    fillFields? fields offset slot = writeFields? fields offset slot := by
  induction fields generalizing offset slot with
  | nil => rfl
  | cons f fs ih =>
      have hf : f.fill? = f.writeTo? := funext f.fill?_eq_writeTo?
      have hrest : fillFields? fs (offset + f.type.width) =
          writeFields? fs (offset + f.type.width) := funext fun slot => ih _ slot
      rw [fillFields?, writeFields?, hf, hrest]

/-- The bytes are what any slot of the row holds after the row is written to it. -/
structure StoredAs (r : Row) (image : Bytes) : Prop where
  /-- They take the width of the schema. -/
  length : image.length = r.schema.width
  /-- A slot holds them once it is filled, whatever it held. -/
  filled : ∀ slot, slot.length = r.schema.width → r.fill? slot = some image
  /-- A value stands where the widths of the columns before it end. -/
  column : ∀ j f, r.fields[j]? = some f → ∀ k < f.type.width,
    image[columnStart r.schema.types j + k]? = f.encode[k]?
  /-- Under any schema with the same column types the same values are parsed. -/
  parsed : ∀ schema, r.schema.SameTypes schema →
    parse? schema image = some (.ok { schema, fields := r.fields })

theorem Valid.storedAs (h : r.Valid) : r.StoredAs r.encode where
  length := length_encode h
  filled slot hslot := by
    rw [fill?, fillFields?_eq_writeFields?]
    exact writeTo?_eq h hslot
  column j f hj k hk := getElem?_flatMap_encode h.1 hj hk
  parsed schema hs := by
    have htypes : schema.types = r.fields.map Field.type := by
      rw [h.1]
      exact hs.symm
    have hdecode := decodeFields_encode r.fields [] h.2
    rw [List.append_nil, ← htypes] at hdecode
    have hwidth : r.encode.length = 0 + ColumnType.totalWidth schema.types := by
      rw [length_encode h, hs.width_eq, Schema.width, Nat.zero_add]
    rw [parse?, readFields?_eq (Nat.le_of_eq hwidth.symm), List.drop_zero, encode, hdecode]
    rfl

/-! ## Rows that are obtained -/

/-- A row that was made of values or parsed from a slot, and then had values replaced and got
addresses.  An attempt to replace a value may have failed. -/
inductive Obtained (schema : Schema) : Row → Prop
  | made {fields : List Field} {r : Row} (h : ofFields schema fields = .ok r) : Obtained schema r
  | parsed {slot : Bytes} {r : Row} (h : parse? schema slot = some (.ok r)) : Obtained schema r
  | assigned {r : Row} (i : Nat) (f : Field) (h : Obtained schema r) :
      Obtained schema ((assign i f).on r).2
  | placed {r : Row} (recordId : Option RecordId) (h : Obtained schema r) :
      Obtained schema (r.placedAt recordId)

/-- A row that is read at an address is obtained. -/
theorem Obtained.of_read? {record : RecordId} (h : read? schema record slot = some (.ok r)) :
    Obtained schema r := by
  rw [read?_eq_parse?] at h
  obtain ⟨row, hparse, rfl⟩ := exists_of_map_eq_ok h
  exact .placed (some record) (.parsed hparse)

/-- A row stays valid when a value is replaced in place, whether that succeeds or not. -/
theorem Valid.assign (h : r.Valid) (i : Nat) (f : Field) : ((assign i f).on r).2.Valid := by
  rw [on_assign]
  cases hs : r.setField i f with
  | ok r' => exact h.setField hs
  | error fault => exact h

theorem Obtained.valid (h : Obtained schema r) : r.schema = schema ∧ r.Valid := by
  induction h with
  | made h =>
      obtain ⟨rfl, hvalid⟩ := ofFields_eq_ok_iff.1 h
      exact ⟨rfl, hvalid⟩
  | parsed h => exact valid_of_parse? h
  | assigned i f _ ih => exact ⟨(ih.2.replaces i f).schema.trans ih.1, ih.2.assign i f⟩
  | placed recordId _ ih => exact ih

/-- Values make a row exactly if there is one for each column, of its type, and no text is over the
limit.  Whatever is done to the row later, it stays so: replacing a value fails and leaves the row
as it was, or replaces that value alone.  A slot of the width of the schema is filled by the row to
the last byte, whatever it held, and under any schema with the same column types the same values
are parsed from it. -/
theorem valid_and_stored (schema : Schema) :
    (∀ fields r, ofFields schema fields = .ok r ↔ schema.Admits fields ∧ r = { schema, fields }) ∧
      ∀ r, Obtained schema r →
        r.schema = schema ∧ schema.Admits r.fields ∧
          (∀ i f, Replaces r i f ((assign i f).on r)) ∧ ∃ image, r.StoredAs image := by
  constructor
  · intro fields r
    rw [ofFields_eq_ok_iff]
    constructor
    · rintro ⟨rfl, hvalid⟩
      exact ⟨valid_iff_admits.1 hvalid, rfl⟩
    · rintro ⟨hadmits, rfl⟩
      exact ⟨rfl, valid_iff_admits.2 hadmits⟩
  · intro r h
    obtain ⟨rfl, hvalid⟩ := h.valid
    exact ⟨rfl, valid_iff_admits.1 hvalid, hvalid.replaces, r.encode, hvalid.storedAs⟩

namespace Small

open Page.Small (columns)

/-- The address of a row. -/
def address : RecordId := { page := { table := ⟨1⟩, number := 0 }, slot := 2 }

/-- The row at the address. -/
def first : Row where
  schema := columns
  fields := [.int (-7), .text "bob"]
  recordId := some address

/-- Its text is replaced, a text in place of its number is refused, and it loses its address. -/
def edited : Row :=
  ((assign 0 (.text "no")).on ((assign 1 (.text "é")).on first).2).2.placedAt none

/-- The same columns with names. -/
def namedColumns : Schema := Schema.named [.int, .text] ["id", "name"]

theorem fields_edited : edited.fields = [.int (-7), .text "é"] := by decide

theorem obtained_edited : Obtained columns edited := by
  have hvalid : first.Valid := by decide
  have hwidth : columns.width ≤ first.encode.length := Nat.le_of_eq (length_encode hvalid).symm
  have hread : read? columns address first.encode = some (.ok first) := by
    rw [read?_eq hwidth]
    exact congrArg some (decode_encode hvalid rfl address)
  exact .placed none (.assigned 0 _ (.assigned 1 _ (.of_read? hread)))

end Small

theorem valid_and_stored_small :
    Obtained Page.Small.columns Small.edited ∧
      Page.Small.columns.Admits [.int (-7), .text "é"] ∧
      ¬ Page.Small.columns.Admits [.text "no", .text "é"] ∧
      ∃ image, (∀ slot, slot.length = 136 → Small.edited.fill? slot = some image) ∧
        parse? Small.namedColumns image =
          some (.ok { schema := Small.namedColumns, fields := [.int (-7), .text "é"] }) := by
  obtain ⟨hmade, hkept⟩ := valid_and_stored Page.Small.columns
  obtain ⟨hschema, hadmits, -, image, himage⟩ := hkept Small.edited Small.obtained_edited
  rw [Small.fields_edited] at hadmits
  refine ⟨Small.obtained_edited, hadmits, fun h => ?_, image, ?_, ?_⟩
  · cases (hmade _ _).2 ⟨h, rfl⟩
  · intro slot hslot
    exact himage.filled slot (by rw [hschema, hslot]; rfl)
  · rw [himage.parsed Small.namedColumns (by rw [hschema]; rfl), Small.fields_edited]

end Row

end PagedStore

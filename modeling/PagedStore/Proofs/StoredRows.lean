import PagedStore.Proofs.Images

/-!
# Rows and marks inside an image

Column `j` of a row begins `columnStart types j` bytes after the row does.  A text column has
the length of the text in its first four bytes and then the text (`TextAt`).  The bytes of the
column that come after that are its padding (`Padding`).

A row is read from a place in an image if and only if each text column has a text there
(`Row.rowAt_of_decode`, `Row.not_rowAt_of_decode`).  When it is written again its padding is zero
and its other bytes are as they were (`Row.getElem?_encode_of_decode`).

The header of an image marks slot `i` with bit `i` (`Marked`).  If it has no stray mark, the
flags of the slots say all that it holds, and it is written as it was
(`SlotMarks.ofFlags_flags`, `SlotMarks.toBytes_ofBytes`).
-/

namespace PagedStore

/-! ## Bytes and numbers -/

/-- Four bytes are the bytes of the number that they spell. -/
theorem Bytes.bigEndian_ofBigEndian {data : Bytes} (h : data.length = 4) :
    bigEndian (ofBigEndian data) = data := by
  obtain ⟨a, b, c, d, rfl⟩ : ∃ a b c d, data = [a, b, c, d] := by
    match data, h with
    | [a, b, c, d], _ => exact ⟨a, b, c, d, rfl⟩
  have ha := a.toNat_lt
  have hb := b.toNat_lt
  have hc := c.toNat_lt
  have hd := d.toNat_lt
  simp only [ofBigEndian, bigEndian, List.foldl_cons, List.foldl_nil, List.cons.injEq, and_true,
    ← UInt8.toNat_inj, UInt8.toNat_ofNat']
  omega

/-- In a sequence of pieces, the bytes of each piece come after those of the pieces before. -/
theorem getElem?_flatMap_of_getElem? {α : Type} (g : α → Bytes) {l : List α} {j : Nat} {e : α}
    (h : l[j]? = some e) {k : Nat} (hk : k < (g e).length) :
    (l.flatMap g)[((l.take j).flatMap g).length + k]? = (g e)[k]? := by
  obtain ⟨hj, rfl⟩ := List.getElem?_eq_some_iff.1 h
  have hl : l = l.take j ++ l[j] :: l.drop (j + 1) := by
    rw [← List.drop_eq_getElem_cons hj, List.take_append_drop]
  conv =>
    lhs
    rw [hl]
  rw [List.flatMap_append, List.flatMap_cons, ← hl, List.getElem?_append_right (by omega),
    Nat.add_sub_cancel_left, List.getElem?_append_left hk]

/-! ## Texts and rows inside an image -/

/-- The number that is stored at the offset, which for a text is its length. -/
def wordAt (data : Bytes) (offset : Nat) : Nat := Bytes.ofBigEndian ((data.drop offset).take 4)

/-- A text that is not too long is stored at the offset. -/
structure TextAt (data : Bytes) (offset : Nat) : Prop where
  length_le : wordAt data offset ≤ textLimit
  utf8 : ∃ s : String,
    (data.drop (offset + 4)).take (wordAt data offset) = Utf8.encode s

/-- Where a column begins in a row. -/
def columnStart (types : List ColumnType) (j : Nat) : Nat :=
  ColumnType.totalWidth (types.take j)

/-- Each text column of a row at the offset has a text. -/
def RowAt (types : List ColumnType) (data : Bytes) (offset : Nat) : Prop :=
  ∀ ⦃j : Nat⦄, types[j]? = some .text → TextAt data (offset + columnStart types j)

/-- The byte comes after the text in a column of a row at the offset. -/
def Padding (types : List ColumnType) (data : Bytes) (offset k : Nat) : Prop :=
  ∃ j, types[j]? = some .text ∧
    offset + columnStart types j + 4 + wordAt data (offset + columnStart types j) ≤ k ∧
    k < offset + columnStart types j + ColumnType.width .text

theorem columnStart_succ {t : ColumnType} {types : List ColumnType} (j : Nat) :
    columnStart (t :: types) (j + 1) = t.width + columnStart types j := rfl

/-- A column ends before the row does. -/
theorem columnStart_add_width_le {types : List ColumnType} {j : Nat} {t : ColumnType}
    (h : types[j]? = some t) :
    columnStart types j + t.width ≤ ColumnType.totalWidth types := by
  induction types generalizing j with
  | nil => cases h
  | cons u types ih =>
      cases j with
      | zero =>
          cases h
          simp [columnStart, ColumnType.totalWidth]
      | succ j =>
          have := ih (by simpa using h)
          rw [columnStart_succ, ColumnType.totalWidth]
          omega

/-- A column ends before a later one begins. -/
theorem columnStart_add_width_le_of_lt {types : List ColumnType} {i j : Nat} {t : ColumnType}
    (h : types[i]? = some t) (hij : i < j) :
    columnStart types i + t.width ≤ columnStart types j := by
  have hi : (types.take j)[i]? = some t := by rwa [List.getElem?_take_of_lt hij]
  have := columnStart_add_width_le hi
  rwa [columnStart, List.take_take, Nat.min_eq_left (by omega)] at this

/-- Each byte of a row is in one of its columns. -/
theorem exists_column {types : List ColumnType} {k : Nat} (h : k < ColumnType.totalWidth types) :
    ∃ j t, types[j]? = some t ∧ columnStart types j ≤ k ∧ k < columnStart types j + t.width := by
  induction types generalizing k with
  | nil => cases h
  | cons t types ih =>
      rw [ColumnType.totalWidth] at h
      by_cases hk : k < t.width
      · exact ⟨0, t, rfl, Nat.zero_le k, by simpa [columnStart, ColumnType.totalWidth] using hk⟩
      · obtain ⟨j, u, hj, hle, hlt⟩ := ih (k := k - t.width) (by omega)
        refine ⟨j + 1, u, by simpa using hj, ?_, ?_⟩ <;> rw [columnStart_succ] <;> omega

/-! ## Values -/

namespace ColumnType

variable {type : ColumnType} {data : Bytes} {f : Field} {fault : FieldFault} {offset : Nat}

theorem length_window (h : offset + type.width ≤ data.length) :
    ((data.drop offset).take type.width).length = type.width := by
  rw [List.length_take, List.length_drop]
  omega

/-- How a number is read that stands inside an image. -/
theorem decode_int_window (h : offset + width .int ≤ data.length) :
    decode .int ((data.drop offset).take (width .int)) =
      .ok (.int (UInt32.ofNat (wordAt data offset)).toInt32) := by
  rw [decode, if_neg (by rw [length_window h]; omega), List.take_take]
  rfl

/-- How a text is read that stands inside an image. -/
theorem decode_text_window (h : offset + width .text ≤ data.length) :
    decode .text ((data.drop offset).take (width .text)) =
      if textLimit < wordAt data offset then .error (.textLength (wordAt data offset))
      else
        match Utf8.decode ((data.drop (offset + 4)).take (wordAt data offset)) with
        | .ok value => .ok (.text value)
        | .error fault => .error (.notUtf8 fault) := by
  have hword : Bytes.ofBigEndian (((data.drop offset).take (width .text)).take 4) =
      wordAt data offset := by
    rw [List.take_take]
    rfl
  rw [decode, if_neg (by rw [length_window h]; omega)]
  simp only [hword]
  split
  · rfl
  · rename_i hle
    have hwidth : width .text = 4 + textLimit := rfl
    have hbody : (((data.drop offset).take (width .text)).drop 4).take (wordAt data offset) =
        (data.drop (offset + 4)).take (wordAt data offset) := by
      rw [List.drop_take, List.drop_drop, List.take_take, Nat.min_eq_left (by omega)]
    exact hbody ▸ rfl

/-- A text is read exactly where one is stored. -/
theorem textAt_of_decode (hl : offset + width .text ≤ data.length)
    (h : decode .text ((data.drop offset).take (width .text)) = .ok f) : TextAt data offset := by
  rw [decode_text_window hl] at h
  split at h
  · cases h
  · rename_i hle
    split at h
    · rename_i s hs
      exact ⟨Nat.le_of_not_lt hle, s, Utf8.decode_eq_ok_iff.1 hs⟩
    · cases h

/-- A column that cannot be read is one of texts, and no text is stored there. -/
theorem not_textAt_of_decode (hl : offset + type.width ≤ data.length)
    (h : type.decode ((data.drop offset).take type.width) = .error fault) :
    type = .text ∧ ¬ TextAt data offset := by
  cases type with
  | int =>
      rw [decode_int_window hl] at h
      cases h
  | text =>
      refine ⟨rfl, fun ht => ?_⟩
      obtain ⟨s, hs⟩ := ht.utf8
      rw [decode_text_window hl, if_neg (Nat.not_lt.2 ht.length_le), hs, Utf8.decode_encode] at h
      cases h

theorem bigEndian_wordAt (h : offset + 4 ≤ data.length) :
    Bytes.bigEndian (wordAt data offset) = (data.drop offset).take 4 :=
  Bytes.bigEndian_ofBigEndian (by rw [List.length_take, List.length_drop]; omega)

/-- A value is written back as it was, and what is after a text becomes zero. -/
theorem getElem?_encode_of_decode (hl : offset + type.width ≤ data.length)
    (h : type.decode ((data.drop offset).take type.width) = .ok f) {k : Nat}
    (hk : k < type.width) :
    f.encode[k]? =
      if type = .text ∧ 4 + wordAt data offset ≤ k then some 0 else data[offset + k]? := by
  cases type with
  | int =>
      have hword := bigEndian_wordAt hl
      have hlt : wordAt data offset < 4294967296 := by
        have hmod : wordAt data offset % 4294967296 = wordAt data offset := by
          rw [← Bytes.ofBigEndian_bigEndian, hword, wordAt]
        exact hmod ▸ Nat.mod_lt _ (by decide)
      rw [decode_int_window hl] at h
      cases h
      have hback : (UInt32.ofNat (wordAt data offset)).toInt32.toUInt32.toNat =
          wordAt data offset := by
        rw [UInt32.toUInt32_toInt32, UInt32.toNat_ofNat_of_lt' hlt]
      rw [if_neg (by simp), Field.encode, hback, hword,
        List.getElem?_take_of_lt (show k < 4 from hk), List.getElem?_drop]
  | text =>
      have ht := textAt_of_decode hl h
      obtain ⟨s, hs⟩ := ht.utf8
      rw [decode_text_window hl, if_neg (Nat.not_lt.2 ht.length_le), hs, Utf8.decode_encode] at h
      cases h
      have hlen : (Utf8.encode s).length = wordAt data offset := by
        rw [← hs, List.length_take, List.length_drop]
        have := ht.length_le
        rw [width] at hl
        omega
      have hbody : (Utf8.encode s).take textLimit = Utf8.encode s :=
        List.take_of_length_le (hlen ▸ ht.length_le)
      have hfront : Bytes.bigEndian (wordAt data offset) ++ Utf8.encode s =
          (data.drop offset).take (4 + wordAt data offset) := by
        rw [bigEndian_wordAt (by rw [width] at hl; omega), ← hs, ← List.drop_drop,
          List.take_add]
      simp only [Field.encode, hbody, hlen, hfront, true_and]
      have hwidth : ((data.drop offset).take (4 + wordAt data offset)).length =
          4 + wordAt data offset := by
        rw [← hfront, List.length_append, hlen, Bytes.length_bigEndian]
      split
      · rename_i hle
        rw [List.getElem?_append_right (by omega), hwidth, Bytes.zeros,
          List.getElem?_replicate_of_lt]
        rw [width] at hk
        omega
      · rename_i hlt
        rw [List.getElem?_append_left (by omega), List.getElem?_take_of_lt (by omega),
          List.getElem?_drop]

end ColumnType

/-! ## Rows -/

namespace Row

variable {schema : Schema} {types : List ColumnType} {data : Bytes} {fields : List Field}
  {fault : FieldFault} {record : RecordId} {row : Row} {offset : Nat}

theorem decodeFields_eq_ok (h : decodeFields types data = .ok fields) {j : Nat} {t : ColumnType}
    (hj : types[j]? = some t) :
    ∃ f, fields[j]? = some f ∧
      t.decode ((data.drop (columnStart types j)).take t.width) = .ok f := by
  induction types generalizing data fields j with
  | nil => cases hj
  | cons u types ih =>
      rw [decodeFields] at h
      split at h
      · cases h
      · rename_i f hf
        split at h
        · cases h
        · rename_i fs hfs
          cases h
          cases j with
          | zero =>
              cases hj
              exact ⟨f, rfl, hf⟩
          | succ j =>
              obtain ⟨g, hg, hd⟩ := ih hfs (by simpa using hj)
              refine ⟨g, by simpa using hg, ?_⟩
              rwa [columnStart_succ, ← List.drop_drop]

/-- Values that cannot be read have a first one that cannot. -/
theorem decodeFields_eq_error (h : decodeFields types data = .error fault) :
    ∃ (j : Nat) (t : ColumnType), types[j]? = some t ∧
      t.decode ((data.drop (columnStart types j)).take t.width) = .error fault := by
  induction types generalizing data with
  | nil => cases h
  | cons u types ih =>
      rw [decodeFields] at h
      split at h
      · rename_i hf
        cases h
        exact ⟨0, u, rfl, hf⟩
      · split at h
        · rename_i hfs
          cases h
          obtain ⟨j, t, hj, hd⟩ := ih hfs
          refine ⟨j + 1, t, by simpa using hj, ?_⟩
          rwa [columnStart_succ, ← List.drop_drop]
        · cases h

/-- The bytes of a column among those of a slot. -/
theorem column_window (data : Bytes) (offset : Nat) {j : Nat} {t : ColumnType}
    (hj : types[j]? = some t) :
    (((data.drop offset).take (ColumnType.totalWidth types)).drop (columnStart types j)).take
        t.width = (data.drop (offset + columnStart types j)).take t.width := by
  have := columnStart_add_width_le hj
  rw [List.drop_take, List.drop_drop, List.take_take, Nat.min_eq_left (by omega)]

theorem rowAt_of_decode (hl : offset + schema.width ≤ data.length)
    (h : decode schema record ((data.drop offset).take schema.width) = .ok row) :
    RowAt schema.types data offset := by
  rw [decode] at h
  split at h
  · rename_i fields hfs
    intro j hj
    obtain ⟨f, -, hd⟩ := decodeFields_eq_ok hfs hj
    have := columnStart_add_width_le hj
    rw [Schema.width] at hd hl
    rw [column_window data offset hj] at hd
    exact ColumnType.textAt_of_decode (by omega) hd
  · cases h

theorem not_rowAt_of_decode (hl : offset + schema.width ≤ data.length)
    (h : decode schema record ((data.drop offset).take schema.width) = .error fault) :
    ¬ RowAt schema.types data offset := by
  rw [decode] at h
  split at h
  · cases h
  · rename_i hfs
    cases h
    obtain ⟨j, t, hj, hd⟩ := decodeFields_eq_error hfs
    have := columnStart_add_width_le hj
    rw [Schema.width] at hd hl
    rw [column_window data offset hj] at hd
    obtain ⟨rfl, hno⟩ := ColumnType.not_textAt_of_decode (by omega) hd
    exact fun hrow => hno (hrow hj)

/-- The bytes of a column in the stored form of values of these types. -/
theorem getElem?_flatMap_encode (ht : fields.map Field.type = types) {j : Nat} {f : Field}
    (hj : fields[j]? = some f) {k : Nat} (hk : k < f.type.width) :
    (fields.flatMap Field.encode)[columnStart types j + k]? = f.encode[k]? := by
  have hstart : ((fields.take j).flatMap Field.encode).length = columnStart types j := by
    have := length_encode_eq_totalWidth { schema := ⟨[]⟩, fields := fields.take j }
    rw [encode] at this
    rw [this, columnStart, ← ht, List.map_take]
  rw [← hstart]
  exact getElem?_flatMap_of_getElem? Field.encode hj (by rwa [Field.length_encode])

/-- A row is written back as it was, and what is after its texts becomes zero. -/
theorem getElem?_encode_of_decode (hl : offset + schema.width ≤ data.length)
    (h : decode schema record ((data.drop offset).take schema.width) = .ok row) {k : Nat}
    (hk : k < schema.width) :
    (Padding schema.types data offset (offset + k) → row.encode[k]? = some 0) ∧
      (¬ Padding schema.types data offset (offset + k) → row.encode[k]? = data[offset + k]?) := by
  rw [decode] at h
  split at h
  · rename_i fields hfs
    cases h
    obtain ⟨j, t, hj, hle, hlt⟩ := exists_column hk
    obtain ⟨f, hf, hd⟩ := decodeFields_eq_ok hfs hj
    have hcolumn := columnStart_add_width_le hj
    rw [Schema.width] at hd hl
    rw [column_window data offset hj] at hd
    have hbytes := ColumnType.getElem?_encode_of_decode (by omega) hd
      (k := k - columnStart schema.types j) (by omega)
    have htype := ColumnType.type_of_decode hd
    have hrow := getElem?_flatMap_encode (valid_decodeFields hfs).1 hf
      (k := k - columnStart schema.types j) (by rw [htype]; omega)
    rw [show columnStart schema.types j + (k - columnStart schema.types j) = k by omega] at hrow
    rw [show offset + columnStart schema.types j + (k - columnStart schema.types j) = offset + k by
      omega] at hbytes
    rw [encode, hrow, hbytes]
    constructor
    · rintro ⟨i, hi, hge, hlt'⟩
      -- only one column has the byte
      obtain hij | rfl | hij := Nat.lt_trichotomy i j
      · have := columnStart_add_width_le_of_lt hi hij
        omega
      · rw [hj] at hi
        cases hi
        rw [if_pos ⟨rfl, by omega⟩]
      · have := columnStart_add_width_le_of_lt hj hij
        omega
    · intro hno
      rw [if_neg]
      rintro ⟨rfl, hge⟩
      exact hno ⟨j, hj, by omega, by omega⟩
  · cases h

end Row

/-! ## Marks -/

/-- The header marks the slot as used. -/
def Marked (data : Bytes) (slot : Nat) : Prop :=
  (data[slot / 8]?.getD 0).toNat.testBit (slot % 8) = true

instance (data : Bytes) (slot : Nat) : Decidable (Marked data slot) := by
  unfold Marked
  infer_instance

theorem Bits.getElem?_unpack (data : Bytes) (i : Nat) :
    (unpack data)[i]? = data[i / 8]?.map fun b => b.toNat.testBit (i % 8) := by
  induction data generalizing i with
  | nil => rfl
  | cons b data ih =>
      have hb : unpack (b :: data) = ofByte b ++ unpack data := List.flatMap_cons
      rw [hb]
      by_cases hi : i < 8
      · rw [List.getElem?_append_left (by simpa using hi), Nat.div_eq_of_lt hi,
          Nat.mod_eq_of_lt hi, ofByte, List.getElem?_map, List.getElem?_range hi]
        rfl
      · rw [List.getElem?_append_right (by simpa using hi), length_ofByte, ih]
        rw [show i / 8 = (i - 8) / 8 + 1 by omega, List.getElem?_cons_succ,
          show (i - 8) % 8 = i % 8 by omega]

namespace SlotMarks

variable {slots i : Nat} {data : Bytes} {h : bytesFor slots ≤ data.length}

theorem getElem?_bits_ofBytes (hi : i < 8 * bytesFor slots) :
    (ofBytes slots data h).bits[i]? = some (decide (Marked data i)) := by
  have hlt : i / 8 < data.length := by omega
  show (Bits.unpack (data.take (bytesFor slots)))[i]? = _
  rw [Bits.getElem?_unpack, List.getElem?_take_of_lt (by omega), List.getElem?_eq_getElem hlt]
  simp [Marked, List.getElem?_eq_getElem hlt]

theorem getElem?_flags_ofBytes (hi : i < slots) :
    (ofBytes slots data h).flags[i]? = some (decide (Marked data i)) := by
  have hlt : i < 8 * bytesFor slots := by
    rw [bytesFor]
    omega
  show ((ofBytes slots data h).bits.take slots)[i]? = _
  rw [List.getElem?_take_of_lt hi, getElem?_bits_ofBytes hlt]

/-- A mark is stray if the header has it and there is no such slot. -/
theorem hasStray_ofBytes :
    (ofBytes slots data h).hasStray = true ↔
      ∃ i, slots ≤ i ∧ i < 8 * bytesFor slots ∧ Marked data i := by
  have hlength : (ofBytes slots data h).bits.length = 8 * bytesFor slots :=
    (ofBytes slots data h).length_bits
  show ((ofBytes slots data h).bits.drop slots).any id = true ↔ _
  rw [List.any_eq_true]
  constructor
  · rintro ⟨b, hb, rfl⟩
    obtain ⟨i, hi⟩ := List.mem_iff_getElem?.1 hb
    rw [List.getElem?_drop] at hi
    have hlt := (List.getElem?_eq_some_iff.1 hi).1
    rw [hlength] at hlt
    rw [getElem?_bits_ofBytes hlt] at hi
    exact ⟨slots + i, by omega, hlt, by simpa using hi⟩
  · rintro ⟨i, hle, hlt, hm⟩
    refine ⟨true, List.mem_iff_getElem?.2 ⟨i - slots, ?_⟩, rfl⟩
    rw [List.getElem?_drop, Nat.add_sub_cancel' hle, getElem?_bits_ofBytes hlt, decide_eq_true hm]

/-- Without stray marks the flags say all. -/
theorem ofFlags_flags {m : SlotMarks} (hm : m.hasStray = false) : ofFlags m.flags = m := by
  refine SlotMarks.ext m.length_flags ?_
  have hrest : m.bits.drop m.slots =
      List.replicate (8 * bytesFor m.flags.length - m.flags.length) false := by
    refine List.eq_replicate_iff.2 ⟨?_, fun b hb => ?_⟩
    · rw [List.length_drop, m.length_bits, m.length_flags, bytesFor]
    · rw [hasStray, List.any_eq_false] at hm
      exact Bool.eq_false_iff.2 (hm b hb)
  show m.flags ++ _ = m.bits
  rw [← hrest, flags, List.take_append_drop]

/-- Marks are written back as they were. -/
theorem toBytes_ofBytes : (ofBytes slots data h).toBytes = data.take (bytesFor slots) :=
  Bits.pack_unpack _

end SlotMarks

end PagedStore

import PagedStore.Page.Image

/-!
# Images read back

A page is *valid* if it has all the slots that its size allows, and the row in
each used slot is valid, has the column types of the page, and has the address
of its slot (`Page.Valid`).  An empty page is valid, a page that is read is
valid, and inserting and deleting keep a page valid.

The image of a valid page has the size of the page and reads back as the same
page (`Page.decode_encode`).  Only what an image does not hold is different: the
page read has no owner, its before image is the image, and its rows have the
column names of the page.
-/

namespace PagedStore

/-! ## Values -/

theorem Utf8.length_encode (s : String) : (Utf8.encode s).length = s.utf8ByteSize := by
  rw [Utf8.encode, Array.length_toList]
  exact String.size_toByteArray

theorem Field.decode_encode {f : Field} (h : ¬ f.TooLong) : f.type.decode f.encode = .ok f := by
  have hl := f.length_encode
  cases f with
  | int value =>
      have hn : value.toUInt32.toNat < 4294967296 := value.toUInt32.toNat_lt
      have hw : Bytes.ofBigEndian (Bytes.bigEndian value.toUInt32.toNat) =
          value.toUInt32.toNat := by
        rw [Bytes.ofBigEndian_bigEndian, Nat.mod_eq_of_lt hn]
      have ht : (Bytes.bigEndian value.toUInt32.toNat).take 4 =
          Bytes.bigEndian value.toUInt32.toNat :=
        List.take_of_length_le (by simp)
      rw [ColumnType.decode, if_neg (by omega)]
      simp [Field.type, Field.encode, ht, hw]
  | text value =>
      have hv : (Utf8.encode value).length ≤ textLimit := by
        rw [Utf8.length_encode]
        simpa [Field.TooLong] using h
      have hb : (Utf8.encode value).take textLimit = Utf8.encode value :=
        List.take_of_length_le hv
      have hn : (Utf8.encode value).length < 4294967296 := Nat.lt_of_le_of_lt hv (by decide)
      rw [ColumnType.decode, if_neg (by omega)]
      simp only [Field.type, Field.encode, hb, List.append_assoc]
      rw [List.take_append_of_le_length (by simp), List.take_of_length_le (by simp),
        Bytes.ofBigEndian_bigEndian, Nat.mod_eq_of_lt hn, if_neg (Nat.not_lt.2 hv),
        List.drop_append_of_le_length (by simp), List.drop_of_length_le (by simp),
        List.nil_append, List.take_append_of_le_length (Nat.le_refl _),
        List.take_of_length_le (Nat.le_refl _), Utf8.decode_encode]

theorem Field.not_tooLong_of_decode {type : ColumnType} {data : Bytes} {f : Field}
    (h : type.decode data = .ok f) : ¬ f.TooLong := by
  rw [ColumnType.decode] at h
  split at h
  · cases h
  · cases type with
    | int =>
        cases h
        exact id
    | text =>
        simp only at h
        split at h
        · cases h
        · rename_i hlim
          split at h
          · rename_i value hv
            cases h
            have he := congrArg List.length (Utf8.decode_eq_ok_iff.1 hv)
            rw [Utf8.length_encode, List.length_take] at he
            simp only [Field.TooLong]
            omega
          · cases h

/-! ## Rows -/

theorem Row.decodeFields_encode (fs : List Field) (rest : Bytes) (h : ∀ f ∈ fs, ¬ f.TooLong) :
    Row.decodeFields (fs.map Field.type) (fs.flatMap Field.encode ++ rest) = .ok fs := by
  induction fs with
  | nil => rfl
  | cons f fs ih =>
      have hl := f.length_encode
      rw [List.map_cons, List.flatMap_cons, List.append_assoc, Row.decodeFields,
        List.take_left' hl, List.drop_left' hl, Field.decode_encode (h f (by simp)),
        ih fun g hg => h g (by simp [hg])]

/-- A valid row reads back under any schema with its column types. -/
theorem Row.decode_encode {r : Row} {schema : Schema} (hr : r.Valid)
    (hs : r.schema.SameTypes schema) (record : RecordId) :
    Row.decode schema record r.encode =
      .ok { schema, fields := r.fields, recordId := some record } := by
  have ht : schema.types = r.fields.map Field.type := by rw [hr.1]; exact hs.symm
  have h := Row.decodeFields_encode r.fields [] hr.2
  rw [List.append_nil] at h
  rw [Row.decode, ht, Row.encode, h]

theorem Row.valid_decodeFields {types : List ColumnType} {data : Bytes} {fs : List Field}
    (h : Row.decodeFields types data = .ok fs) :
    fs.map Field.type = types ∧ ∀ f ∈ fs, ¬ f.TooLong := by
  induction types generalizing data fs with
  | nil =>
      cases h
      simp
  | cons t types ih =>
      rw [Row.decodeFields] at h
      split at h
      · cases h
      · rename_i f hf
        split at h
        · cases h
        · rename_i fs' hfs
          cases h
          obtain ⟨h1, h2⟩ := ih hfs
          refine ⟨by rw [List.map_cons, h1, ColumnType.type_of_decode hf], ?_⟩
          intro g hg
          rcases List.mem_cons.1 hg with rfl | hg
          · exact Field.not_tooLong_of_decode hf
          · exact h2 g hg

/-- A row that is read is valid. -/
theorem Row.valid_of_decode {schema : Schema} {record : RecordId} {data : Bytes} {r : Row}
    (h : Row.decode schema record data = .ok r) :
    r.Valid ∧ r.schema = schema ∧ r.recordId = some record := by
  rw [Row.decode] at h
  split at h
  · rename_i fs hfs
    cases h
    exact ⟨Row.valid_decodeFields hfs, rfl, rfl⟩
  · cases h

/-! ## Valid pages -/

namespace Page

/-- The row fits a slot of the page. -/
structure FitsSlot (p : Page) (slot : Nat) (row : Row) : Prop where
  valid : row.Valid
  sameTypes : row.schema.SameTypes p.schema
  recordId : row.recordId = some { page := p.id, slot }

/-- The page has all its slots, and what is in them fits. -/
structure Valid (p : Page) : Prop where
  length_slots : p.slots.length = slotsPerPage p.pageSize p.schema
  fits : ∀ {slot : Nat} {row : Row}, p.slots[slot]? = some (some row) → p.FitsSlot slot row

theorem valid_empty (id : PageId) (schema : Schema) (pageSize : Nat) :
    (empty id schema pageSize).Valid where
  length_slots := length_slots_empty id schema pageSize
  fits h := by
    have := List.mem_of_getElem? h
    simp [empty] at this

theorem Valid.withOwner {p : Page} (h : p.Valid) (owner : Option TransactionId) :
    (p.withOwner owner).Valid :=
  ⟨h.length_slots, fun hs => ⟨(h.fits hs).1, (h.fits hs).2, (h.fits hs).3⟩⟩

theorem Valid.keepImage {p : Page} (h : p.Valid) : p.keepImage.Valid :=
  ⟨h.length_slots, fun hs => ⟨(h.fits hs).1, (h.fits hs).2, (h.fits hs).3⟩⟩

/-- The contents of one slot are replaced. -/
theorem Valid.set {p : Page} (h : p.Valid) {slot : Nat} {entry : Option Row}
    (he : ∀ row, entry = some row → p.FitsSlot slot row) :
    { p with slots := p.slots.set slot entry }.Valid where
  length_slots := by rw [List.length_set]; exact h.length_slots
  fits := by
    intro i row hi
    have hf : p.FitsSlot i row := by
      rw [List.getElem?_set] at hi
      split at hi
      · rename_i hs
        subst hs
        split at hi
        · exact he row (Option.some.inj hi)
        · cases hi
      · exact h.fits hi
    exact ⟨hf.1, hf.2, hf.3⟩

theorem insert_eq_ok {p p' : Page} {row : Row} {record : RecordId}
    (h : p.insert row = .ok (record, p')) :
    row.schema.SameTypes p.schema ∧ record.page = p.id ∧
      p' = { p with slots := p.slots.set record.slot (some (row.placedAt (some record))) } := by
  rw [insert] at h
  split at h
  · cases h
  · rename_i hs
    split at h
    · cases h
    · cases h
      exact ⟨Decidable.not_not.1 hs, rfl, rfl⟩

theorem delete_eq_ok {p p' : Page} {record : RecordId} (h : p.delete (some record) = .ok p') :
    record.page = p.id ∧ p' = { p with slots := p.slots.set record.slot none } := by
  rw [delete] at h
  split at h
  · rename_i hc
    cases h
    exact ⟨hc.1, rfl⟩
  · cases h

theorem Valid.insert {p p' : Page} {row : Row} {record : RecordId} (h : p.Valid) (hr : row.Valid)
    (hi : p.insert row = .ok (record, p')) : p'.Valid := by
  obtain ⟨hs, hp, rfl⟩ := insert_eq_ok hi
  refine h.set ?_
  rintro _ ⟨rfl⟩
  exact ⟨hr, hs, by rw [← hp]; rfl⟩

theorem Valid.delete {p p' : Page} {record : RecordId} (h : p.Valid)
    (hd : p.delete (some record) = .ok p') : p'.Valid := by
  obtain ⟨-, rfl⟩ := delete_eq_ok hd
  exact h.set (fun _ he => by cases he)

/-! ## Slots -/

theorem length_slotBytes_of {schema : Schema} {entry : Option Row}
    (h : ∀ row, entry = some row → row.Valid ∧ row.schema.SameTypes schema) :
    (slotBytes schema entry).length = schema.width := by
  cases entry with
  | none => exact Bytes.length_zeros _
  | some row =>
      obtain ⟨hr, hs⟩ := h row rfl
      rw [slotBytes, Row.length_encode hr, hs.width_eq]

theorem length_slotBytes {p : Page} (h : p.Valid) {slot : Nat} {entry : Option Row}
    (he : p.slots[slot]? = some entry) : (slotBytes p.schema entry).length = p.schema.width := by
  refine length_slotBytes_of fun row hrow => ?_
  have hf := h.fits (hrow ▸ he)
  exact ⟨hf.valid, hf.sameTypes⟩

theorem length_flatMap_slotBytes {schema : Schema} {slots : List (Option Row)}
    (h : ∀ entry ∈ slots, (slotBytes schema entry).length = schema.width) :
    (slots.flatMap (slotBytes schema)).length = slots.length * schema.width := by
  induction slots with
  | nil => simp
  | cons entry slots ih =>
      rw [List.flatMap_cons, List.length_append, h entry (by simp),
        ih fun e he => h e (by simp [he]), List.length_cons, Nat.succ_mul, Nat.add_comm]

/-- The row as it is read back under a schema. -/
def underSchema (schema : Schema) (row : Row) : Row := { row with schema }

theorem decodeSlots_flatMap {id : PageId} {schema : Schema} (rest : Bytes) :
    ∀ (slots : List (Option Row)) (i : Nat),
      (∀ {slot : Nat} {row : Row}, slots[slot]? = some (some row) →
        row.Valid ∧ row.schema.SameTypes schema ∧
          row.recordId = some { page := id, slot := i + slot }) →
      decodeSlots id schema i (slots.map Option.isSome) (slots.flatMap (slotBytes schema) ++ rest) =
        .ok (slots.map (Option.map (underSchema schema)))
  | [], _, _ => rfl
  | none :: slots, i, h => by
      have hl : (slotBytes schema none).length = schema.width := Bytes.length_zeros _
      have ih := decodeSlots_flatMap rest slots (i + 1) fun {slot row} hs => by
        have := @h (slot + 1) row (by simpa using hs)
        rwa [show i + 1 + slot = i + (slot + 1) by omega]
      simp only [List.map_cons, List.flatMap_cons, List.append_assoc, Option.isSome_none,
        Option.map_none, decodeSlots, Bool.false_eq_true, if_false, List.drop_left' hl, ih]
  | some row :: slots, i, h => by
      obtain ⟨hv, hs, hr⟩ := @h 0 row rfl
      have hl : (slotBytes schema (some row)).length = schema.width := by
        rw [slotBytes, Row.length_encode hv, hs.width_eq]
      have ih := decodeSlots_flatMap rest slots (i + 1) fun {slot row} hs => by
        have := @h (slot + 1) row (by simpa using hs)
        rwa [show i + 1 + slot = i + (slot + 1) by omega]
      have hd : Row.decode schema { page := id, slot := i } (slotBytes schema (some row)) =
          .ok (underSchema schema row) := by
        rw [slotBytes, Row.decode_encode hv hs, underSchema, hr]
        rfl
      simp only [List.map_cons, List.flatMap_cons, List.append_assoc, Option.isSome_some,
        Option.map_some, decodeSlots, if_true, List.drop_left' hl, List.take_left' hl, hd, ih]

theorem fits_of_decodeSlots {id : PageId} {schema : Schema} {i : Nat} {flags : List Bool}
    {data : Bytes} {slots : List (Option Row)}
    (h : decodeSlots id schema i flags data = .ok slots) {slot : Nat} {row : Row}
    (hs : slots[slot]? = some (some row)) :
    row.Valid ∧ row.schema = schema ∧ row.recordId = some { page := id, slot := i + slot } := by
  induction flags generalizing i data slots slot with
  | nil =>
      cases h
      simp at hs
  | cons used flags ih =>
      simp only [decodeSlots] at h
      split at h
      · split at h
        · cases h
        · rename_i first hf
          split at h
          · cases h
          · rename_i others ho
            cases h
            cases slot with
            | zero =>
                cases hs
                exact Row.valid_of_decode hf
            | succ slot =>
                have := ih ho (by simpa using hs)
                rwa [show i + 1 + slot = i + (slot + 1) by omega] at this
      · split at h
        · cases h
        · rename_i others ho
          cases h
          cases slot with
          | zero => cases hs
          | succ slot =>
              have := ih ho (by simpa using hs)
              rwa [show i + 1 + slot = i + (slot + 1) by omega] at this

/-! ## Whole pages -/

theorem length_body {p : Page} (h : p.Valid) :
    p.body.length = SlotMarks.bytesFor p.slots.length + p.slots.length * p.schema.width := by
  have hs : ∀ entry ∈ p.slots, (slotBytes p.schema entry).length = p.schema.width := by
    intro entry he
    obtain ⟨slot, hslot⟩ := List.mem_iff_getElem?.1 he
    exact length_slotBytes h hslot
  rw [body, List.length_append, length_flatMap_slotBytes hs, SlotMarks.length_pack_bits]
  simp [marks, SlotMarks.ofFlags]

/-- The image of a valid page has the size of the page. -/
theorem length_encode {p : Page} (h : p.Valid) : p.encode.length = p.pageSize := by
  have hb := length_body h
  have hg := header_add_slots_le p.pageSize p.schema
  rw [← h.length_slots] at hg
  rw [encode, List.length_append, Bytes.length_zeros]
  omega

theorem hasStray_ofFlags (flags : List Bool) : (SlotMarks.ofFlags flags).hasStray = false := by
  simp [SlotMarks.hasStray, SlotMarks.ofFlags]

/-- The marks at the front of an image are those of the page. -/
theorem ofBytes_toBytes (m : SlotMarks) (rest : Bytes)
    (h : SlotMarks.bytesFor m.slots ≤ (m.toBytes ++ rest).length) :
    SlotMarks.ofBytes m.slots (m.toBytes ++ rest) h = m := by
  have hm : Bits.unpack m.toBytes = m.bits := by
    rw [SlotMarks.toBytes, Bits.unpack_pack]
    rw [m.length_bits]
    omega
  refine SlotMarks.ext rfl ?_
  show Bits.unpack ((m.toBytes ++ rest).take (SlotMarks.bytesFor m.slots)) = m.bits
  rw [List.take_left' (SlotMarks.length_pack_bits m), hm]

/-- The page as it is read back from its image. -/
def reread (p : Page) : Page :=
  { p with
    slots := p.slots.map (Option.map (underSchema p.schema))
    owner := none
    beforeImage := p.encode }

/-- The image of a valid page reads back. -/
theorem decode_encode {p : Page} (h : p.Valid) :
    decode p.id p.schema p.pageSize p.encode = .ok p.reread := by
  have hm : slotsPerPage p.pageSize p.schema = p.marks.slots := by
    rw [← h.length_slots]
    simp [marks, SlotMarks.ofFlags]
  have he : p.encode = p.marks.toBytes ++
      (p.slots.flatMap (slotBytes p.schema) ++ Bytes.zeros (p.pageSize - p.body.length)) := by
    rw [encode, body, List.append_assoc]
  have hd := @decodeSlots_flatMap p.id p.schema
    (Bytes.zeros (p.pageSize - p.body.length)) p.slots 0 fun {slot row} hs => by
      have hf := h.fits hs
      exact ⟨hf.1, hf.2, by rw [Nat.zero_add]; exact hf.3⟩
  rw [decode, dif_pos (length_encode h)]
  simp only [hm, he, ofBytes_toBytes]
  rw [marks, hasStray_ofFlags, SlotMarks.flags_ofFlags, ← marks,
    List.drop_left' (SlotMarks.length_pack_bits p.marks)]
  simp only [Bool.false_eq_true, if_false, hd]
  rw [reread, he]

/-- A page that is read is valid, and is what was asked for. -/
theorem decode_eq_ok {id : PageId} {schema : Schema} {pageSize : Nat} {data : Bytes} {p : Page}
    (h : decode id schema pageSize data = .ok p) :
    p.Valid ∧ p.id = id ∧ p.schema = schema ∧ p.pageSize = pageSize ∧ p.owner = none ∧
      p.beforeImage = data := by
  have hlen := length_slots_of_decode h
  rw [decode] at h
  split at h
  · simp only at h
    split at h
    · cases h
    · split at h
      · cases h
      · rename_i slots hs
        cases h
        refine ⟨⟨hlen, ?_⟩, rfl, rfl, rfl, rfl, rfl⟩
        intro slot row hr
        obtain ⟨h1, h2, h3⟩ := fits_of_decodeSlots hs hr
        exact ⟨h1, by rw [h2]; rfl, by rw [h3, Nat.zero_add]⟩
  · cases h

/-! ## The empty page -/

theorem pack_replicate_false : ∀ n : Nat, Bits.pack (List.replicate (8 * n) false) = Bytes.zeros n
  | 0 => rfl
  | n + 1 => by
      have h : List.replicate (8 * (n + 1)) false =
          false :: false :: false :: false :: false :: false :: false :: false ::
            List.replicate (8 * n) false := by
        rw [show 8 * (n + 1) = 8 * n + 8 by omega]
        rfl
      rw [h, Bits.pack, pack_replicate_false n]
      rfl

/-- The image of an empty page is all zeros. -/
theorem encode_empty (id : PageId) (schema : Schema) (pageSize : Nat) :
    (empty id schema pageSize).encode = Bytes.zeros pageSize := by
  have hl := length_encode (valid_empty id schema pageSize)
  have hz : ∀ b ∈ (empty id schema pageSize).encode, b = 0 := by
    intro b hb
    have hm : (empty id schema pageSize).marks.toBytes =
        Bytes.zeros (SlotMarks.bytesFor (slotsPerPage pageSize schema)) := by
      have hle : slotsPerPage pageSize schema ≤
          8 * SlotMarks.bytesFor (slotsPerPage pageSize schema) := by
        rw [SlotMarks.bytesFor]
        omega
      simp only [marks, SlotMarks.toBytes, SlotMarks.ofFlags, empty, List.map_replicate,
        Option.isSome_none, List.length_replicate, List.replicate_append_replicate]
      rw [Nat.add_sub_cancel' hle, pack_replicate_false]
    rw [encode, body, hm] at hb
    simp only [List.mem_append, Bytes.zeros, List.mem_replicate, List.mem_flatMap] at hb
    rcases hb with (⟨-, hb⟩ | ⟨entry, he, hb⟩) | ⟨-, hb⟩
    · exact hb
    · have : entry = none := by
        simp only [empty, List.mem_replicate] at he
        exact he.2
      subst this
      exact (List.mem_replicate.1 hb).2
    · exact hb
  rw [List.eq_replicate_iff.2 ⟨hl, hz⟩]
  rfl

end Page

end PagedStore

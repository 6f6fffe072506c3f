import PagedStore.Proofs.Slices
import PagedStore.Proofs.SlotSets
import PagedStore.TableFile

/-!
# The geometry of a page

Slots *fit* a page if they and the header for them take no more than the bytes of the page
(`SlotsFit`).  The number of slots of a page comes from a division of bits, while a header takes
whole bytes.  All the same no slot is lost and none is past the end: the numbers of slots that fit
are exactly those up to it (`slotsFit_iff`).

So each slot lies after the header, inside the page and apart from the other slots.  Headed pages
are read and written through slices here (`HeadedPage.read?`, `HeadedPage.write?`), and no slice is
ever past the end.  What is read and written is the same as without slices (`HeadedPage.read?_eq`,
`HeadedPage.InStep.write?_eq`).

The bits of a row and of a page are counted in words of 64 bits, which is enough for sizes below
`2 ^ 60`.  For those `page_geometry` has all of this, and says that a schema is refused if and only
if not even one row fits.
-/

namespace PagedStore

/-! ## How many slots fit -/

section Counts

variable {pageSize : Nat} {schema : Schema}

/-- So many slots and the header for them fit a page. -/
def SlotsFit (pageSize width slots : Nat) : Prop :=
  SlotMarks.bytesFor slots + slots * width ≤ pageSize

instance (pageSize width slots : Nat) : Decidable (SlotsFit pageSize width slots) :=
  inferInstanceAs (Decidable (_ ≤ _))

/-- The number of slots, if the bits of a row and of a page can be counted in 64 bits. -/
def slotCount? (pageSize : Nat) (schema : Schema) : Option Nat :=
  if schema.width * 8 + 1 < UInt64.size ∧ pageSize * 8 < UInt64.size then
    some (slotsPerPage pageSize schema)
  else none

/-- As many slots fit as a page has, and no more.  The header is rounded up to whole bytes, but
what the slots leave of a page is whole bytes as well. -/
theorem slotsFit_iff (pageSize : Nat) (schema : Schema) (slots : Nat) :
    SlotsFit pageSize schema.width slots ↔ slots ≤ slotsPerPage pageSize schema := by
  have hbits : slots * (schema.width * 8 + 1) = 8 * (slots * schema.width) + slots := by
    rw [Nat.mul_succ, ← Nat.mul_assoc, Nat.mul_comm 8]
  rw [slotsPerPage, Nat.le_div_iff_mul_le (Nat.succ_pos _), hbits, SlotsFit, SlotMarks.bytesFor]
  omega

-- Rows without columns take nothing but their bits.
example : SlotsFit 3 0 24 ∧ ¬ SlotsFit 3 0 25 := by decide

/-- A schema is refused if not even one row fits a page. -/
theorem geometryError?_eq (h : BitsCountable pageSize) (schema : Schema) :
    TableFile.geometryError? schema pageSize =
      if SlotsFit pageSize schema.width 1 then none
      else if pageSize = 0 then some (.settings .zeroPageSize)
      else some (.settings (.rowTooWide pageSize schema.width)) := by
  rw [TableFile.geometryError?, countSlots, if_pos h]
  simp only [slotsFit_iff, Nat.succ_le_iff, Nat.pos_iff_ne_zero]
  by_cases hzero : pageSize = 0
  · simp [hzero, slotsPerPage]
  · by_cases hnone : slotsPerPage pageSize schema = 0
    · simp [hzero, hnone]
    · simp [hzero, hnone]

end Counts

/-! ## Reading through slices -/

namespace HeadedPage

variable {id : PageId} {schema : Schema} {pageSize : Nat} {data front : Bytes}
  {header : PackedMarks} {slots : List (Option Row)} {h : HeadedPage}

/-- Reads the used ones of these slots through slices. -/
def readSlots? (id : PageId) (schema : Schema) (header : PackedMarks) (data : Bytes) :
    List Nat → Option (Except PageFault (List (Option Row)))
  | [] => some (.ok [])
  | slot :: slots =>
      if header.isUsed slot then
        let start := header.bytes.length + slot * schema.width
        (data.slice? start (start + schema.width)).bind fun part =>
          (Row.read? schema { page := id, slot } part).bind fun
            | .error fault => some (.error (.slot slot fault))
            | .ok row => (readSlots? id schema header data slots).map (Except.map (some row :: ·))
      else (readSlots? id schema header data slots).map (Except.map (none :: ·))

/-- Reads a page and its header from an image through slices. -/
def read? (id : PageId) (schema : Schema) (pageSize : Nat) (data : Bytes) :
    Option (Except PageFault HeadedPage) :=
  if data.length ≠ pageSize then some (.error (.readLength pageSize data.length))
  else
    (slotCount? pageSize schema).bind fun count =>
      (PackedMarks.ofBytes? count data).bind fun header =>
        if header.hasStray then some (.error .strayMark)
        else
          (readSlots? id schema header data (List.range header.slots)).map
            (Except.map fun slots =>
              { page := { id, schema, pageSize, slots, beforeImage := data }, header })

/-- Slots that end inside the bytes are read through slices. -/
theorem readSlots?_eq {i n : Nat}
    (hend : header.bytes.length + (i + n) * schema.width ≤ data.length) :
    readSlots? id schema header data (List.range' i n) =
      some (Page.decodeSlots id schema i ((List.range' i n).map header.isUsed)
        (data.drop (header.bytes.length + i * schema.width))) := by
  -- The bytes that are left are those from slot `i` on.  The header stays as it is.
  induction n generalizing i with
  | zero => rfl
  | succ n ih =>
      have hnext : (i + 1) * schema.width = i * schema.width + schema.width := Nat.succ_mul _ _
      have hlast : i * schema.width + schema.width ≤ (i + (n + 1)) * schema.width := by
        rw [← hnext]
        exact Nat.mul_le_mul_right _ (by omega)
      have hrest : readSlots? id schema header data (List.range' (i + 1) n) =
          some (Page.decodeSlots id schema (i + 1) ((List.range' (i + 1) n).map header.isUsed)
            ((data.drop (header.bytes.length + i * schema.width)).drop schema.width)) := by
        rw [ih (by rwa [Nat.add_assoc, Nat.add_comm 1]), List.drop_drop, hnext, Nat.add_assoc]
      have hpart : ((data.drop (header.bytes.length + i * schema.width)).take
          schema.width).length = schema.width := by
        rw [List.length_take, List.length_drop]
        omega
      rw [List.range'_succ, List.map_cons, readSlots?, Page.decodeSlots, hrest]
      dsimp only
      cases header.isUsed i with
      | true =>
          rw [if_pos rfl, if_pos rfl, Bytes.slice?_eq (by omega), Option.bind_some,
            Row.read?_eq (Nat.le_of_eq hpart.symm), Option.bind_some]
          cases Row.decode schema { page := id, slot := i }
              ((data.drop (header.bytes.length + i * schema.width)).take schema.width) with
          | error fault => rfl
          | ok row => cases Page.decodeSlots id schema (i + 1) _ _ <;> rfl
      | false =>
          rw [if_neg Bool.false_ne_true, if_neg Bool.false_ne_true]
          cases Page.decodeSlots id schema (i + 1) _ _ <;> rfl

/-- If the slots of the header end inside the bytes, all of them are read. -/
theorem readSlots?_range (hend : header.bytes.length + header.slots * schema.width ≤ data.length) :
    readSlots? id schema header data (List.range header.slots) =
      some (Page.decodeSlots id schema 0 header.marks.flags (data.drop header.bytes.length)) := by
  rw [List.range_eq_range', readSlots?_eq (by rwa [Nat.zero_add]), ← List.range_eq_range',
    PackedMarks.flags_marks, Nat.zero_mul, Nat.add_zero]

/-- The marks at the front of an image, bit by bit. -/
theorem marks_of_ofBytes? {count : Nat} (hh : PackedMarks.ofBytes? count data = some header)
    (hle : SlotMarks.bytesFor count ≤ data.length) :
    header.marks = SlotMarks.ofBytes count data hle := by
  obtain ⟨rfl, hbytes⟩ := PackedMarks.ofBytes?_eq_some hh
  refine SlotMarks.ext rfl ?_
  show Bits.unpack (header.bytes.take _) = Bits.unpack (data.take _)
  rw [hbytes, List.take_take, Nat.min_self]

/-- Whatever the bytes are, a page is read through slices as it is read without them.  The header
that is read with it is in the same bytes. -/
theorem read?_eq (hcount : slotCount? pageSize schema = some (slotsPerPage pageSize schema))
    (id : PageId) (data : Bytes) :
    ∃ result, read? id schema pageSize data = some result ∧
      result.map HeadedPage.page = Page.decode id schema pageSize data ∧
      ∀ h, result = .ok h → Origin id schema pageSize h := by
  rw [read?, Page.decode]
  split
  · rename_i hlength
    exact ⟨_, rfl, rfl, fun h hr => by cases hr⟩
  · rename_i hlength
    have hlength : data.length = pageSize := not_not.1 hlength
    have hle : SlotMarks.bytesFor (slotsPerPage pageSize schema) ≤ data.length :=
      hlength ▸ header_le pageSize schema
    obtain ⟨header, hheader⟩ : ∃ header,
        PackedMarks.ofBytes? (slotsPerPage pageSize schema) data = some header := ⟨_, dif_pos hle⟩
    obtain ⟨hslots, -⟩ := PackedMarks.ofBytes?_eq_some hheader
    have hbytes : header.bytes.length = SlotMarks.bytesFor (slotsPerPage pageSize schema) := by
      rw [header.length_bytes, hslots]
    have hmarks := marks_of_ofBytes? hheader hle
    have hend : header.bytes.length + header.slots * schema.width ≤ data.length := by
      rw [hbytes, hslots, hlength]
      exact header_add_slots_le pageSize schema
    rw [hcount, Option.bind_some, hheader, Option.bind_some, readSlots?_range hend,
      ← PackedMarks.hasStray_marks, hmarks, hbytes]
    dsimp only
    split
    · exact ⟨_, rfl, rfl, fun h hr => by cases hr⟩
    · rename_i hstray
      cases hread : Page.decodeSlots id schema 0 _ _ with
      | error fault => exact ⟨_, rfl, rfl, fun h hr => by cases hr⟩
      | ok slots =>
          refine ⟨_, rfl, rfl, fun h hr => ?_⟩
          cases hr
          refine .read data ?_ hheader
          rw [Page.decode, dif_pos hlength]
          dsimp only
          rw [if_neg hstray, hread]

/-! ## Writing through slices -/

/-- Writes the rows of slots through slices into an image, the first of them to `slot`. -/
def writeSlots? (schema : Schema) (base : Nat) : List (Option Row) → Nat → Bytes → Option Bytes
  | [], _, data => some data
  | none :: slots, slot, data => writeSlots? schema base slots (slot + 1) data
  | some row :: slots, slot, data =>
      let start := base + slot * schema.width
      (data.updateSlice? start (start + schema.width) row.writeTo?).bind
        (writeSlots? schema base slots (slot + 1))

/-- Writes the header and the rows of a page through slices over zeros. -/
def write? (h : HeadedPage) : Option Bytes :=
  (h.header.writeTo? (Bytes.zeros h.page.pageSize)).bind
    (writeSlots? h.page.schema h.header.bytes.length h.page.slots 0)

/-- A row is written over the zeros of its slot. -/
theorem updateSlice?_zeros {row : Row} {n : Nat} (hr : row.Valid)
    (hs : row.schema.SameTypes schema) (hn : schema.width ≤ n) :
    (front ++ Bytes.zeros n).updateSlice? front.length (front.length + schema.width)
        row.writeTo? =
      some (front ++ row.encode ++ Bytes.zeros (n - schema.width)) := by
  have hslot : ((front ++ Bytes.zeros n).drop front.length).take schema.width =
      Bytes.zeros schema.width := by
    rw [List.drop_left, Bytes.zeros, List.take_replicate, Nat.min_eq_left hn, Bytes.zeros]
  have hwidth : row.encode.length = schema.width := by rw [Row.length_encode hr, hs.width_eq]
  rw [Bytes.updateSlice?, Bytes.slice?_eq (by rw [List.length_append, Bytes.length_zeros]; omega),
    hslot, Option.bind_some, Row.writeTo?_eq hr (by rw [Bytes.length_zeros, hs.width_eq]),
    Option.map_some, Bytes.overwrite, List.take_left, hwidth, List.drop_append,
    List.drop_of_length_le (Nat.le_add_right _ _), Nat.add_sub_cancel_left, List.nil_append,
    Bytes.zeros, List.drop_replicate, Bytes.zeros]

/-- One slot is written, or stays zero if it is free. -/
theorem writeSlots?_cons {entry : Option Row} {base slot n : Nat}
    (hrow : ∀ row, entry = some row → row.Valid ∧ row.schema.SameTypes schema)
    (hfront : front.length = base + slot * schema.width) (hn : schema.width ≤ n) :
    writeSlots? schema base (entry :: slots) slot (front ++ Bytes.zeros n) =
      writeSlots? schema base slots (slot + 1)
        (front ++ Page.slotBytes schema entry ++ Bytes.zeros (n - schema.width)) := by
  cases entry with
  | none =>
      have hzeros : Bytes.zeros schema.width ++ Bytes.zeros (n - schema.width) =
          Bytes.zeros n := by
        rw [Bytes.zeros, Bytes.zeros, List.replicate_append_replicate, Nat.add_sub_cancel' hn,
          Bytes.zeros]
      rw [writeSlots?, Page.slotBytes, List.append_assoc, hzeros]
  | some row =>
      obtain ⟨hr, hs⟩ := hrow row rfl
      rw [writeSlots?, ← hfront, updateSlice?_zeros hr hs hn, Option.bind_some]
      rfl

/-- If there is room for all slots, they are written one after another. -/
theorem writeSlots?_eq {base slot n : Nat}
    (hrows : ∀ row, some row ∈ slots → row.Valid ∧ row.schema.SameTypes schema)
    (hfront : front.length = base + slot * schema.width) (hn : slots.length * schema.width ≤ n) :
    writeSlots? schema base slots slot (front ++ Bytes.zeros n) =
      some (front ++ slots.flatMap (Page.slotBytes schema) ++
        Bytes.zeros (n - slots.length * schema.width)) := by
  -- What is written so far grows by one slot, and the zeros after it get fewer.
  induction slots generalizing front slot n with
  | nil =>
      rw [writeSlots?, List.flatMap_nil, List.append_nil, List.length_nil, Nat.zero_mul,
        Nat.sub_zero]
  | cons entry slots ih =>
      rw [List.length_cons, Nat.succ_mul] at hn
      have hrow : ∀ row, entry = some row → row.Valid ∧ row.schema.SameTypes schema := by
        rintro row rfl
        exact hrows row List.mem_cons_self
      have hnext : (front ++ Page.slotBytes schema entry).length =
          base + (slot + 1) * schema.width := by
        rw [List.length_append, hfront, Page.length_slotBytes_of hrow, Nat.succ_mul, Nat.add_assoc]
      rw [writeSlots?_cons hrow hfront (by omega),
        ih (fun row hr => hrows row (List.mem_cons_of_mem _ hr)) hnext (by omega),
        List.append_assoc front, ← List.flatMap_cons, List.length_cons, Nat.succ_mul, Nat.sub_sub,
        Nat.add_comm schema.width]

/-- The header is written to the front of zeros. -/
theorem InStep.writeTo?_zeros (hs : h.InStep) {n : Nat} (hn : h.header.bytes.length ≤ n) :
    h.header.writeTo? (Bytes.zeros n) =
      some (h.page.marks.toBytes ++ Bytes.zeros (n - h.header.bytes.length)) := by
  have hslots : h.page.marks.slots = h.header.slots := (congrArg SlotMarks.slots hs).symm
  have hbytes : h.page.marks.toBytes.length = h.header.bytes.length := by
    rw [SlotMarks.length_pack_bits, hslots, h.header.length_bytes]
  rw [← PackedMarks.writeTo?_marks, hs, SlotMarks.writeTo?, if_pos]
  · rw [Bytes.overwrite, hbytes, Nat.zero_add, List.take_zero, List.nil_append, Bytes.zeros,
      List.drop_replicate, Bytes.zeros]
  · rwa [hslots, ← h.header.length_bytes, Bytes.length_zeros]

/-- The image of a page is written through slices as it is written without them. -/
theorem InStep.write?_eq (hs : h.InStep) (hv : h.page.Valid) : h.write? = some h.page.encode := by
  have hbytes : h.header.bytes.length = SlotMarks.bytesFor h.page.slots.length := by
    rw [h.header.length_bytes, hs.slots]
  have hmarks : h.page.marks.toBytes.length = h.header.bytes.length := by
    rw [SlotMarks.length_pack_bits, hbytes]
    exact congrArg SlotMarks.bytesFor (List.length_map _)
  have hfits : SlotMarks.bytesFor h.page.slots.length +
      h.page.slots.length * h.page.schema.width ≤ h.page.pageSize := by
    rw [hv.length_slots]
    exact header_add_slots_le h.page.pageSize h.page.schema
  have hrows : ∀ row, some row ∈ h.page.slots →
      row.Valid ∧ row.schema.SameTypes h.page.schema := by
    intro row hrow
    obtain ⟨slot, hslot⟩ := List.mem_iff_getElem?.1 hrow
    exact ⟨(hv.fits hslot).valid, (hv.fits hslot).sameTypes⟩
  rw [write?, hs.writeTo?_zeros (by omega), Option.bind_some,
    writeSlots?_eq hrows (by rw [hmarks, Nat.zero_mul, Nat.add_zero]) (by omega), Page.encode,
    Page.length_body hv, Page.body, hbytes, Nat.sub_sub]

end HeadedPage

/-! ## The geometry of a page -/

section Geometry

variable {pageSize : Nat} {schema : Schema}

/-- The slots of a page fit, and there is no room for one more. -/
structure FitsTightly (pageSize : Nat) (schema : Schema) (slots : Nat) : Prop where
  /-- They are counted in words of 64 bits. -/
  counted : slotCount? pageSize schema = some slots
  /-- They fit. -/
  fits : SlotsFit pageSize schema.width slots
  /-- One more does not. -/
  tight : ¬ SlotsFit pageSize schema.width (slots + 1)
  /-- Each of them is after the header and inside the page. -/
  inside : ∀ i < slots, SlotMarks.bytesFor slots ≤ slotStart schema pageSize i ∧
    slotStart schema pageSize i + schema.width ≤ pageSize
  /-- No two of them have a byte in common. -/
  apart : ∀ i < slots, ∀ j < slots, i ≠ j →
    slotStart schema pageSize i + schema.width ≤ slotStart schema pageSize j ∨
      slotStart schema pageSize j + schema.width ≤ slotStart schema pageSize i

theorem slotCount?_eq (hP : pageSize < 1 <<< 60) (hT : schema.width < 1 <<< 60) :
    slotCount? pageSize schema = some (slotsPerPage pageSize schema) := by
  rw [slotCount?, if_pos]
  rw [show UInt64.size = 1 <<< 64 from rfl]
  omega

theorem fitsTightly (hP : pageSize < 1 <<< 60) (hT : schema.width < 1 <<< 60) :
    FitsTightly pageSize schema (slotsPerPage pageSize schema) where
  counted := slotCount?_eq hP hT
  fits := (slotsFit_iff pageSize schema _).2 (Nat.le_refl _)
  tight h := Nat.not_succ_le_self _ ((slotsFit_iff pageSize schema _).1 h)
  inside i hi := ⟨Nat.le_add_right _ _, slotStart_add_width_le hi⟩
  apart i _ j _ hij := by
    rw [← slotStart_succ, ← slotStart_succ]
    exact (Nat.lt_or_gt_of_ne hij).imp slotStart_le slotStart_le

/-- The geometry of a page fits and is tight.  As many slots as a page has fit it, each after the
header, inside the page and apart from the others, and one more does not fit.  So whatever bytes
are read as a page and whatever page is written after rows were put in and taken out, no slice is
past the end.  A schema is refused if and only if not even one row fits. -/
theorem page_geometry (hP : pageSize < 1 <<< 60) (hT : schema.width < 1 <<< 60) :
    FitsTightly pageSize schema (slotsPerPage pageSize schema) ∧
      (∀ id data, ∃ result, HeadedPage.read? id schema pageSize data = some result ∧
        result.map HeadedPage.page = Page.decode id schema pageSize data ∧
        ∀ h, result = .ok h → HeadedPage.Origin id schema pageSize h) ∧
      (∀ id h₀ edits, HeadedPage.Origin id schema pageSize h₀ →
        ∃ h : HeadedPage, h₀.editAll edits = some h ∧ h.write? = some h.page.encode ∧
          h.page.encode.length = pageSize) ∧
      TableFile.geometryError? schema pageSize =
        if SlotsFit pageSize schema.width 1 then none
        else if pageSize = 0 then some (.settings .zeroPageSize)
        else some (.settings (.rowTooWide pageSize schema.width)) := by
  refine ⟨fitsTightly hP hT, fun id data => HeadedPage.read?_eq (slotCount?_eq hP hT) id data,
    fun id h₀ edits ho => ?_, geometryError?_eq (Nat.lt_trans hP (by decide)) schema⟩
  obtain ⟨h, hedits, hs, hpage⟩ := ho.inStep.editAll edits
  have hk : Page.Kin id schema pageSize h.page := hpage ▸ ho.plain.kin.actAll _
  exact ⟨h, hedits, hs.write?_eq hk.valid, (Page.length_encode hk.valid).trans hk.pageSize_eq⟩

theorem page_geometry_small :
    (411 < 1 <<< 60 ∧ Page.Small.columns.width < 1 <<< 60) ∧
      FitsTightly 411 Page.Small.columns 3 ∧
      (∃ h : HeadedPage,
        HeadedPage.read? ⟨⟨1⟩, 0⟩ Page.Small.columns 411 (Bytes.zeros 411) = some (.ok h)) ∧
      (∃ h : HeadedPage, HeadedPage.Small.blank.editAll HeadedPage.Small.edits = some h ∧
        h.write? = some h.page.encode ∧ h.page.encode.length = 411) ∧
      TableFile.geometryError? Page.Small.columns 411 = none := by
  have hP : 411 < 1 <<< 60 := by decide
  have hT : Page.Small.columns.width < 1 <<< 60 := by decide
  obtain ⟨hfits, hread, hwrite, hopen⟩ := page_geometry hP hT
  refine ⟨⟨hP, hT⟩, hfits, ?_, hwrite ⟨⟨1⟩, 0⟩ _ HeadedPage.Small.edits (.fresh rfl), ?_⟩
  · obtain ⟨result, hr, hpage, -⟩ := hread ⟨⟨1⟩, 0⟩ (Bytes.zeros 411)
    have hzeros := Page.decode_encode (Page.valid_empty ⟨⟨1⟩, 0⟩ Page.Small.columns 411)
    rw [Page.encode_empty] at hzeros
    cases result with
    | ok h => exact ⟨h, hr⟩
    | error fault => cases hpage.trans hzeros
  · rw [hopen]
    exact if_pos (by decide)

end Geometry

end PagedStore

import PagedStore.Proofs.CanonicalImages
import PagedStore.Proofs.PageHistories

/-!
# A page maps slots to rows

Which slots of a page are used can be told in two ways: a used slot holds a row, and its bit is set
in the header.  The pages of this development hold the rows only, and work the header out.  Here a
page has its header beside it (`HeadedPage`), in packed bytes (`PackedMarks`).  Rows are put in and
taken out by what the header says, and then both are brought up to date.

The two never disagree.  The header is at all times the one that can be worked out
(`HeadedPage.InStep`), so what is done to a headed page is what is done to the page
(`HeadedPage.InStep.insert`, `HeadedPage.InStep.delete`).  Nothing is ever looked up or changed
past the end of either.  So whatever is done, the page is a finite map from slots to rows, which
each insertion and each deletion changes in one place at most (`HeadedPage.maps_slots`).
-/

namespace PagedStore

/-! ## Packed marks -/

/-- The header of a page in packed bytes. -/
@[ext] structure PackedMarks where
  /-- The number of slots. -/
  slots : Nat
  /-- The bytes of the header. -/
  bytes : Bytes
  /-- They are as many as the slots need. -/
  length_bytes : bytes.length = SlotMarks.bytesFor slots

namespace PackedMarks

/-- The bit of a slot in its byte. -/
def mask (slot : Nat) : UInt8 := 1 <<< UInt8.ofNat (slot % 8)

variable {m m' : PackedMarks} {slot i j : Nat} {used : Bool} {b : UInt8}

theorem byte_lt_length (m : PackedMarks) (h : slot < m.slots) : slot / 8 < m.bytes.length := by
  rw [m.length_bytes, SlotMarks.bytesFor]
  omega

/-- No slot is used. -/
def empty (slots : Nat) : PackedMarks where
  slots := slots
  bytes := Bytes.zeros (SlotMarks.bytesFor slots)
  length_bytes := List.length_replicate

/-- The marks at the front of a byte string, if it is long enough. -/
def ofBytes? (slots : Nat) (data : Bytes) : Option PackedMarks :=
  if h : SlotMarks.bytesFor slots ≤ data.length then
    some
      { slots := slots
        bytes := data.take (SlotMarks.bytesFor slots)
        length_bytes := by rw [List.length_take, Nat.min_eq_left h] }
  else none

/-- The bit of the slot is set.  A slot that does not exist is not used. -/
def isUsed (m : PackedMarks) (slot : Nat) : Bool :=
  if h : slot < m.slots then getElem m.bytes (slot / 8) (m.byte_lt_length h) &&& mask slot != 0
  else false

/-- Sets or clears the bit of a slot. -/
def set (m : PackedMarks) (slot : Nat) (used : Bool) (h : slot < m.slots) : PackedMarks :=
  let b := getElem m.bytes (slot / 8) (m.byte_lt_length h)
  { m with
    bytes := m.bytes.set (slot / 8) (if used then b ||| mask slot else b &&& ~~~mask slot)
    length_bytes := by rw [List.length_set, m.length_bytes] }

/-- Sets or clears the bit of a slot, which has to exist. -/
def set? (m : PackedMarks) (slot : Nat) (used : Bool) : Option PackedMarks :=
  if h : slot < m.slots then some (m.set slot used h) else none

/-- The first slot that is free. -/
def firstFree? (m : PackedMarks) : Option Nat :=
  (List.range m.slots).find? fun slot => !m.isUsed slot

/-- The number of slots that are free. -/
def countFree (m : PackedMarks) : Nat := (List.range m.slots).countP fun slot => !m.isUsed slot

/-- The same marks, bit by bit. -/
def marks (m : PackedMarks) : SlotMarks :=
  SlotMarks.ofBytes m.slots m.bytes (Nat.le_of_eq m.length_bytes.symm)

/-! ### Single bits -/

theorem testBit_mask (slot : Nat) (hj : j < 8) :
    (mask slot).toNat.testBit j = decide (j = slot % 8) := by
  have h : ∀ k j : Fin 8, (mask k).toNat.testBit j = decide (j = k) := by decide
  have hslot := h ⟨slot % 8, Nat.mod_lt _ (by decide)⟩ ⟨j, hj⟩
  simpa [mask] using hslot

theorem testBit_not (b : UInt8) (hj : j < 8) :
    (~~~b).toNat.testBit j = !b.toNat.testBit j := by
  have hb := Nat.testBit_two_pow_sub_succ b.toNat_lt j
  rw [decide_eq_true hj, Bool.true_and] at hb
  have hsub : UInt8.size - 1 - b.toNat = 2 ^ 8 - (b.toNat + 1) := by
    rw [show UInt8.size = 2 ^ 8 from rfl]
    omega
  rw [UInt8.toNat_not, hsub, hb]

/-- Setting or clearing the bit of a slot changes this bit only. -/
theorem testBit_change (b : UInt8) (slot : Nat) (used : Bool) (hj : j < 8) :
    (if used then b ||| mask slot else b &&& ~~~mask slot).toNat.testBit j =
      if j = slot % 8 then used else b.toNat.testBit j := by
  cases used with
  | true =>
      rw [if_pos rfl, UInt8.toNat_or, Nat.testBit_or, testBit_mask slot hj]
      split <;> simp_all
  | false =>
      rw [if_neg Bool.false_ne_true, UInt8.toNat_and, Nat.testBit_and, testBit_not _ hj,
        testBit_mask slot hj]
      split <;> simp_all

theorem and_mask_ne_zero (b : UInt8) (slot : Nat) :
    (b &&& mask slot != 0) = b.toNat.testBit (slot % 8) := by
  have hlt : slot % 8 < 8 := Nat.mod_lt _ (by decide)
  have hbit : ∀ j < 8, (b &&& mask slot).toNat.testBit j =
      (b.toNat.testBit j && decide (j = slot % 8)) := by
    intro j hj
    rw [UInt8.toNat_and, Nat.testBit_and, testBit_mask slot hj]
  cases hset : b.toNat.testBit (slot % 8) with
  | true =>
      have hone := hbit _ hlt
      rw [bne_iff_ne]
      intro hzero
      rw [hzero, hset] at hone
      simp at hone
  | false =>
      have hzero : b &&& mask slot = 0 := by
        refine UInt8.toNat_inj.1 (Nat.eq_of_testBit_eq fun j => ?_)
        rw [show (0 : UInt8).toNat = 0 from rfl, Nat.zero_testBit]
        by_cases hj : j < 8
        · rw [hbit j hj]
          by_cases hslot : j = slot % 8
          · rw [hslot, hset, Bool.false_and]
          · simp [hslot]
        · refine Nat.testBit_lt_two_pow (Nat.lt_of_lt_of_le (UInt8.toNat_lt _) ?_)
          exact Nat.pow_le_pow_right (by decide) (Nat.not_lt.1 hj)
      rw [hzero]
      rfl

/-! ### Marks bit by bit -/

theorem isUsed_marks (m : PackedMarks) (slot : Nat) : m.marks.isUsed slot = m.isUsed slot := by
  rw [SlotMarks.isUsed, isUsed]
  split
  · rename_i h
    have hlt := m.byte_lt_length h
    rw [marks, SlotMarks.getElem?_flags_ofBytes h, Option.getD_some, and_mask_ne_zero]
    simp [Marked, List.getElem?_eq_getElem hlt]
  · rename_i h
    rw [List.getElem?_eq_none]
    · rfl
    · rw [SlotMarks.length_flags]
      exact Nat.not_lt.1 h

theorem marked_set (m : PackedMarks) (h : slot < m.slots) (used : Bool) (i : Nat) :
    Marked (m.set slot used h).bytes i ↔ if slot = i then used = true else Marked m.bytes i := by
  have hlt := m.byte_lt_length h
  rw [Marked, set, List.getElem?_set]
  by_cases hbyte : slot / 8 = i / 8
  · rw [if_pos hbyte, if_pos (hbyte ▸ hlt), Option.getD_some,
      testBit_change _ slot used (Nat.mod_lt _ (by decide)), Marked, ← hbyte,
      List.getElem?_eq_getElem hlt, Option.getD_some]
    by_cases hslot : slot = i
    · rw [if_pos hslot, if_pos (by rw [hslot])]
    · rw [if_neg hslot, if_neg (by omega)]
  · rw [if_neg hbyte, if_neg (by rintro rfl; exact hbyte rfl), Marked]

theorem bits_set (m : PackedMarks) (h : slot < m.slots) (used : Bool) :
    (m.set slot used h).marks.bits = m.marks.bits.set slot used := by
  have hlength : m.marks.bits.length = 8 * SlotMarks.bytesFor m.slots := m.marks.length_bits
  have hlength' : (m.set slot used h).marks.bits.length = 8 * SlotMarks.bytesFor m.slots :=
    (m.set slot used h).marks.length_bits
  have hslot : slot < m.marks.bits.length := by
    rw [hlength, SlotMarks.bytesFor]
    omega
  refine List.ext_getElem? fun i => ?_
  by_cases hi : i < 8 * SlotMarks.bytesFor m.slots
  · have hold : m.marks.bits[i]? = some (decide (Marked m.bytes i)) :=
      SlotMarks.getElem?_bits_ofBytes hi
    have hnew : (m.set slot used h).marks.bits[i]? =
        some (decide (Marked (m.set slot used h).bytes i)) := SlotMarks.getElem?_bits_ofBytes hi
    rw [hnew, List.getElem?_set, hold]
    simp only [m.marked_set h used i]
    by_cases hsi : slot = i
    · simp [hsi, hsi ▸ hslot]
    · simp [hsi]
  · rw [List.getElem?_eq_none (by omega), List.getElem?_eq_none]
    rw [List.length_set]
    omega

theorem set?_marks (m : PackedMarks) (slot : Nat) (used : Bool) :
    (m.set? slot used).map marks = m.marks.set? slot used := by
  by_cases h : slot < m.slots
  · have hmarks : slot < m.marks.slots := h
    rw [set?, dif_pos h, SlotMarks.set?, if_pos hmarks]
    exact congrArg some (SlotMarks.ext rfl (m.bits_set h used))
  · have hmarks : ¬ slot < m.marks.slots := h
    rw [set?, dif_neg h, SlotMarks.set?, if_neg hmarks]
    rfl

/-- The flags are those of the single slots. -/
theorem flags_marks (m : PackedMarks) : m.marks.flags = (List.range m.slots).map m.isUsed := by
  refine List.ext_getElem? fun i => ?_
  by_cases hi : i < m.slots
  · rw [List.getElem?_map, List.getElem?_range hi, Option.map_some, ← isUsed_marks,
      SlotMarks.isUsed]
    rw [List.getElem?_eq_getElem (by rw [SlotMarks.length_flags]; exact hi), Option.getD_some]
  · rw [List.getElem?_eq_none, List.getElem?_eq_none]
    · simpa using hi
    · rw [SlotMarks.length_flags]
      exact Nat.not_lt.1 hi

theorem find?_range_eq_findIdx? {n : Nat} {q : Nat → Bool} :
    (List.range n).find? q = (List.range n).findIdx? q := by
  refine Option.ext fun i => ?_
  rw [List.find?_range_eq_some, List.findIdx?_eq_some_iff_getElem]
  simp only [List.mem_range, List.length_range, List.getElem_range, Bool.not_eq_true',
    Bool.not_eq_true]
  constructor
  · rintro ⟨hq, hi, hbefore⟩
    exact ⟨hi, hq, hbefore⟩
  · rintro ⟨hi, hq, hbefore⟩
    exact ⟨hq, hi, hbefore⟩

theorem firstFree?_marks (m : PackedMarks) : m.marks.firstFree? = m.firstFree? := by
  rw [SlotMarks.firstFree?, firstFree?, flags_marks, List.findIdx?_map, find?_range_eq_findIdx?]
  rfl

theorem countFree_marks (m : PackedMarks) : m.marks.countFree = m.countFree := by
  rw [SlotMarks.countFree, countFree, flags_marks, List.countP_map]
  rfl

theorem marks_empty (slots : Nat) :
    (empty slots).marks = SlotMarks.ofFlags (List.replicate slots false) := by
  have hbits : (empty slots).marks.bits =
      List.replicate (8 * SlotMarks.bytesFor slots) false := by
    show Bits.unpack ((Bytes.zeros (SlotMarks.bytesFor slots)).take
      (SlotMarks.bytesFor slots)) = _
    rw [List.take_of_length_le (Nat.le_of_eq (Bytes.length_zeros _)),
      ← Page.pack_replicate_false, Bits.unpack_pack]
    rw [List.length_replicate]
    omega
  refine SlotMarks.ext List.length_replicate.symm ?_
  rw [hbits]
  show _ = List.replicate slots false ++ List.replicate _ false
  rw [List.replicate_append_replicate, List.length_replicate]
  congr 1
  rw [SlotMarks.bytesFor]
  omega

end PackedMarks

theorem SlotMarks.set?_ofFlags {flags : List Bool} {slot : Nat} (h : slot < flags.length)
    (used : Bool) : (ofFlags flags).set? slot used = some (ofFlags (flags.set slot used)) := by
  have hslots : slot < (ofFlags flags).slots := h
  rw [set?, if_pos hslots]
  refine congrArg some (SlotMarks.ext List.length_set.symm ?_)
  show (flags ++ List.replicate _ false).set slot used =
    flags.set slot used ++ List.replicate _ false
  rw [List.set_append_left slot used h, List.length_set]

theorem Page.isUsed_eq_true_iff {p : Page} {slot : Nat} :
    p.isUsed slot = true ↔ ∃ row, p.slots[slot]? = some (some row) := by
  rw [Page.isUsed, Page.rowAt?, Option.isSome_iff_exists]
  rcases p.slots[slot]? with - | (- | row) <;> simp

theorem Page.isUsed_eq_false_iff {p : Page} {slot : Nat} (h : slot < p.slots.length) :
    p.isUsed slot = false ↔ p.slots[slot]? = some none := by
  rw [Page.isUsed, Page.rowAt?, List.getElem?_eq_getElem h]
  cases p.slots[slot] <;> simp

/-- What is in a slot says if it is used. -/
theorem Page.isUsed_congr {p q : Page} {slot : Nat} (h : q.slots[slot]? = p.slots[slot]?) :
    q.isUsed slot = p.isUsed slot := by
  rw [Page.isUsed, Page.isUsed, Page.rowAt?, Page.rowAt?, h]

theorem Page.findIdx?_of_insert {p p' : Page} {row : Row} {record : RecordId}
    (h : p.insert row = .ok (record, p')) :
    p.slots.findIdx? Option.isNone = some record.slot := by
  rw [Page.insert] at h
  split at h
  · cases h
  · split at h
    · cases h
    · rename_i hfind
      cases h
      exact hfind

/-! ## Headed pages -/

/-- A page with its header beside it. -/
structure HeadedPage where
  /-- The page, with the row of each slot. -/
  page : Page
  /-- The header. -/
  header : PackedMarks

namespace HeadedPage

variable {id : PageId} {schema : Schema} {pageSize : Nat} {h h' : HeadedPage}

/-- Stores a copy of the row in the slot that the header says is the lowest free one.  There is no
result if that slot is past the end. -/
def insert (h : HeadedPage) (row : Row) : Option (Except StoreError RecordId × HeadedPage) :=
  if ¬ row.schema.SameTypes h.page.schema then
    some (.error (.invalidRow (.schemaMismatch row.schema h.page.schema)), h)
  else
    match h.header.firstFree? with
    | none => some (.error (.pageFull h.page.id), h)
    | some slot =>
        let record : RecordId := { page := h.page.id, slot }
        if slot < h.page.slots.length then
          (h.header.set? slot true).map fun header =>
            let slots := h.page.slots.set slot (some (row.placedAt (some record)))
            (.ok record, { page := { h.page with slots }, header })
        else none

/-- Frees the slot of a row that is known by its address, if the header says that it is used.  There
is no result if that slot is past the end. -/
def delete (h : HeadedPage) (recordId : Option RecordId) :
    Option (Except StoreError Unit × HeadedPage) :=
  match recordId with
  | none => some (.error (.invalidRow .noRecordId), h)
  | some record =>
      if record.page ≠ h.page.id then some (.error (.recordNotFound record), h)
      else if ¬ h.header.isUsed record.slot then some (.error (.recordNotFound record), h)
      else if record.slot < h.page.slots.length then
        (h.header.set? record.slot false).map fun header =>
          (.ok (), { page := { h.page with slots := h.page.slots.set record.slot none }, header })
      else none

/-- How a headed page comes to be: all its slots are free, or it is read from an image. -/
inductive Origin (id : PageId) (schema : Schema) (pageSize : Nat) : HeadedPage → Prop
  | fresh {page : Page} (h : Page.fresh id schema pageSize = .ok page) :
      Origin id schema pageSize
        { page, header := PackedMarks.empty (slotsPerPage pageSize schema) }
  | read {page : Page} {header : PackedMarks} (data : Bytes)
      (h : Page.decode id schema pageSize data = .ok page)
      (hh : PackedMarks.ofBytes? (slotsPerPage pageSize schema) data = some header) :
      Origin id schema pageSize { page, header }

/-- A row that is put in, or the address of one that is taken out. -/
inductive Edit where
  /-- A row is put in. -/
  | insert (row : Row) (valid : row.Valid)
  /-- The row at an address is taken out. -/
  | delete (record : Option RecordId)

/-- The page after an attempt, be it a failure or not. -/
def edit (h : HeadedPage) : Edit → Option HeadedPage
  | .insert row _ => (h.insert row).map Prod.snd
  | .delete record => (h.delete record).map Prod.snd

/-- The page after many attempts, one after another. -/
def editAll (h : HeadedPage) (edits : List Edit) : Option HeadedPage := edits.foldlM edit h

/-! ### The header is the one that can be worked out -/

/-- The header says which slots hold rows. -/
def InStep (h : HeadedPage) : Prop := h.header.marks = h.page.marks

theorem InStep.isUsed (hs : h.InStep) (slot : Nat) :
    h.header.isUsed slot = h.page.isUsed slot := by
  rw [← PackedMarks.isUsed_marks, hs, SlotMarks.isUsed, Page.marks, SlotMarks.flags_ofFlags,
    List.getElem?_map, Page.isUsed, Page.rowAt?]
  rcases h.page.slots[slot]? with - | (- | row) <;> rfl

theorem InStep.slots (hs : h.InStep) : h.header.slots = h.page.slots.length := by
  have hslots : h.header.marks.slots = h.page.marks.slots := congrArg SlotMarks.slots hs
  exact hslots.trans (List.length_map _)

theorem InStep.firstFree? (hs : h.InStep) :
    h.header.firstFree? = h.page.slots.findIdx? Option.isNone := by
  rw [← PackedMarks.firstFree?_marks, hs, SlotMarks.firstFree?, Page.marks,
    SlotMarks.flags_ofFlags, List.findIdx?_map]
  exact congrArg (List.findIdx? · h.page.slots) (funext fun entry => by cases entry <;> rfl)

theorem InStep.countFree (hs : h.InStep) : h.header.countFree = h.page.countFree := by
  rw [← PackedMarks.countFree_marks, hs, SlotMarks.countFree, Page.marks,
    SlotMarks.flags_ofFlags, List.countP_map, Page.countFree]
  exact congrArg (List.countP · h.page.slots) (funext fun entry => by cases entry <;> rfl)

/-- When a slot gets a row or loses it, its bit can be set or cleared, and the two are in step. -/
theorem InStep.set? (hs : h.InStep) {slot : Nat} (hlt : slot < h.page.slots.length)
    (entry : Option Row) :
    ∃ header, h.header.set? slot entry.isSome = some header ∧
      InStep { page := { h.page with slots := h.page.slots.set slot entry }, header } := by
  have hmarks : h.page.marks.set? slot entry.isSome =
      some (Page.marks { h.page with slots := h.page.slots.set slot entry }) := by
    rw [Page.marks, SlotMarks.set?_ofFlags (by rwa [List.length_map]), ← List.map_set]
    rfl
  have hset := h.header.set?_marks slot entry.isSome
  rw [hs, hmarks] at hset
  exact Option.map_eq_some_iff.1 hset

/-- A row is put into a headed page as it is put into the page. -/
theorem InStep.insert (hs : h.InStep) (row : Row) :
    ∃ result h', h.insert row = some (result, h') ∧ h'.InStep ∧
      h.page.insert row = result.map (fun record => (record, h'.page)) ∧
      ∀ e, result = .error e → h' = h := by
  rw [HeadedPage.insert, Page.insert, hs.firstFree?]
  split
  · exact ⟨_, _, rfl, hs, rfl, fun _ _ => rfl⟩
  · cases hfind : h.page.slots.findIdx? Option.isNone with
    | none => exact ⟨_, _, rfl, hs, rfl, fun _ _ => rfl⟩
    | some slot =>
        obtain ⟨hlt, -⟩ := List.findIdx?_eq_some_iff_getElem.1 hfind
        let record : RecordId := { page := h.page.id, slot }
        obtain ⟨header, hset, hstep⟩ := hs.set? hlt (some (row.placedAt (some record)))
        have hset : h.header.set? slot true = some header := hset
        simp only [hset, if_pos hlt]
        refine ⟨_, _, rfl, hstep, rfl, fun e he => ?_⟩
        cases he

/-- A row is taken out of a headed page as it is taken out of the page. -/
theorem InStep.delete (hs : h.InStep) (recordId : Option RecordId) :
    ∃ result h', h.delete recordId = some (result, h') ∧ h'.InStep ∧
      h.page.delete recordId = result.map (fun _ => h'.page) ∧
      ∀ e, result = .error e → h' = h := by
  cases recordId with
  | none => exact ⟨_, _, rfl, hs, rfl, fun _ _ => rfl⟩
  | some record =>
      rw [HeadedPage.delete, Page.delete]
      dsimp only
      by_cases hid : record.page = h.page.id
      · by_cases hused : h.page.isUsed record.slot
        · obtain ⟨row, hrow⟩ := Page.isUsed_eq_true_iff.1 hused
          have hlt : record.slot < h.page.slots.length := (List.getElem?_eq_some_iff.1 hrow).1
          obtain ⟨header, hset, hstep⟩ := hs.set? hlt none
          have hset : h.header.set? record.slot false = some header := hset
          rw [hs.isUsed, if_neg (not_not_intro hid), if_neg (not_not_intro hused), if_pos hlt,
            if_pos ⟨hid, hused⟩, hset]
          refine ⟨_, _, rfl, hstep, rfl, fun e he => ?_⟩
          cases he
        · rw [hs.isUsed, if_neg (not_not_intro hid), if_pos hused, if_neg fun hc => hused hc.2]
          exact ⟨_, _, rfl, hs, rfl, fun _ _ => rfl⟩
      · rw [if_pos hid, if_neg fun hc => hid hc.1]
        exact ⟨_, _, rfl, hs, rfl, fun _ _ => rfl⟩

theorem Origin.inStep (ho : Origin id schema pageSize h) : h.InStep := by
  cases ho with
  | @fresh page hp =>
      rw [Page.fresh] at hp
      split at hp
      · cases hp
        rw [InStep, PackedMarks.marks_empty, Page.marks]
        show _ = SlotMarks.ofFlags ((List.replicate _ none).map Option.isSome)
        rw [List.map_replicate]
        rfl
      · cases hp
  | @read page header data hp hh =>
      rw [PackedMarks.ofBytes?] at hh
      split at hh
      · cases hh
        rw [Page.decode] at hp
        split at hp
        · simp only at hp
          split at hp
          · cases hp
          · rename_i hstray
            split at hp
            · cases hp
            · rename_i hslots
              cases hp
              obtain ⟨hflags, -⟩ := Page.decodeSlots_eq_ok hslots
              rw [InStep, Page.marks, hflags,
                SlotMarks.ofFlags_flags (Bool.eq_false_iff.2 hstray)]
              refine SlotMarks.ext rfl ?_
              show Bits.unpack ((data.take _).take _) = Bits.unpack (data.take _)
              rw [List.take_take, Nat.min_self]
        · cases hp
      · cases hh

theorem Origin.plain (ho : Origin id schema pageSize h) :
    Page.Origin id schema pageSize h.page := by
  cases ho with
  | fresh hp => exact .fresh hp
  | read data hp hh => exact .read data hp

/-- What an edit does to the page itself. -/
def Edit.action : Edit → Page.Action
  | .insert row valid => .insert row valid
  | .delete record => .delete record

theorem InStep.edit (hs : h.InStep) (e : Edit) :
    ∃ h', h.edit e = some h' ∧ h'.InStep ∧ h'.page = h.page.act e.action := by
  cases e with
  | insert row valid =>
      obtain ⟨result, h', hi, hs', hp, hfail⟩ := hs.insert row
      refine ⟨h', by rw [HeadedPage.edit, hi]; rfl, hs', ?_⟩
      show _ = h.page.act (.insert row valid)
      rw [Page.act, hp]
      cases result with
      | ok record => rfl
      | error e => rw [hfail e rfl]; rfl
  | delete record =>
      obtain ⟨result, h', hd, hs', hp, hfail⟩ := hs.delete record
      refine ⟨h', by rw [HeadedPage.edit, hd]; rfl, hs', ?_⟩
      show _ = h.page.act (.delete record)
      rw [Page.act, hp]
      cases result with
      | ok _ => rfl
      | error e => rw [hfail e rfl]; rfl

theorem InStep.editAll (hs : h.InStep) (edits : List Edit) :
    ∃ h', h.editAll edits = some h' ∧ h'.InStep ∧
      h'.page = h.page.actAll (edits.map Edit.action) := by
  induction edits generalizing h with
  | nil => exact ⟨h, rfl, hs, rfl⟩
  | cons e edits ih =>
      obtain ⟨h₁, he, hs₁, hp₁⟩ := hs.edit e
      obtain ⟨h', hrest, hs', hp'⟩ := ih hs₁
      refine ⟨h', ?_, hs', ?_⟩
      · rw [HeadedPage.editAll, List.foldlM_cons, he]
        exact hrest
      · rw [hp', hp₁]
        rfl

/-! ### What the slots hold -/

/-- The page is a finite map from slots to rows, and the header has its domain. -/
structure MapsSlots (h : HeadedPage) (id : PageId) (schema : Schema) : Prop where
  /-- The header says which slots hold a row. -/
  used : ∀ i, h.header.isUsed i = true ↔ ∃ row, h.page.slots[i]? = some (some row)
  /-- Each row knows its address, and has the types of the page's columns. -/
  rows : ∀ i (row : Row), h.page.slots[i]? = some (some row) →
    row.recordId = some { page := id, slot := i } ∧ row.schema.SameTypes schema ∧ row.Valid
  /-- Free slots and rows make up all slots. -/
  counted : h.header.countFree + h.page.rows.length = h.header.slots

/-- What comes of an attempt to put a row in. -/
structure Inserts (h : HeadedPage) (row : Row) (result : Except StoreError RecordId)
    (h' : HeadedPage) : Prop where
  /-- The attempt is what is done to the page itself. -/
  plain : h.page.insert row = result.map fun record => (record, h'.page)
  /-- It succeeds if the types agree and some slot is free. -/
  succeeds : (∃ record, result = .ok record) ↔
    row.schema.SameTypes h.page.schema ∧ ∃ i < h.header.slots, h.header.isUsed i = false
  /-- A failure changes nothing. -/
  failed : ∀ e, result = .error e → h' = h
  /-- The lowest free slot is taken. -/
  lowest : ∀ record, result = .ok record → record.page = h.page.id ∧
    record.slot < h.header.slots ∧ h.header.isUsed record.slot = false ∧
      ∀ i < record.slot, h.header.isUsed i = true
  /-- It holds the row from then on. -/
  stored : ∀ record, result = .ok record → h'.header.isUsed record.slot = true ∧
    h'.page.slots[record.slot]? = some (some (row.placedAt (some record)))
  /-- The other slots stay as they are. -/
  others : ∀ record, result = .ok record → ∀ i, i ≠ record.slot →
    h'.header.isUsed i = h.header.isUsed i ∧ h'.page.slots[i]? = h.page.slots[i]?

/-- What comes of an attempt to take a row out. -/
structure Deletes (h : HeadedPage) (recordId : Option RecordId) (result : Except StoreError Unit)
    (h' : HeadedPage) : Prop where
  /-- The attempt is what is done to the page itself. -/
  plain : h.page.delete recordId = result.map fun _ => h'.page
  /-- It succeeds if the address is that of a used slot of this page. -/
  succeeds : result = .ok () ↔ ∃ record, recordId = some record ∧ record.page = h.page.id ∧
    h.header.isUsed record.slot = true
  /-- A failure changes nothing. -/
  failed : ∀ e, result = .error e → h' = h
  /-- The slot is free from then on. -/
  freed : result = .ok () → ∀ record, recordId = some record →
    h'.header.isUsed record.slot = false ∧ h'.page.slots[record.slot]? = some none
  /-- The other slots stay as they are. -/
  others : result = .ok () → ∀ record, recordId = some record → ∀ i, i ≠ record.slot →
    h'.header.isUsed i = h.header.isUsed i ∧ h'.page.slots[i]? = h.page.slots[i]?

theorem InStep.mapsSlots (hs : h.InStep) (hk : Page.Kin id schema pageSize h.page) :
    h.MapsSlots id schema where
  used i := by rw [hs.isUsed, Page.isUsed_eq_true_iff]
  rows i row hi := by
    obtain ⟨hvalid, htypes, hrecord⟩ := hk.valid.fits hi
    rw [hk.schema_eq] at htypes
    rw [hk.id_eq] at hrecord
    exact ⟨hrecord, htypes, hvalid⟩
  counted := by rw [hs.countFree, hs.slots, Page.countFree_add_length_rows]

/-- There is a free slot if and only if the search for one finds it. -/
theorem InStep.exists_free_iff (hs : h.InStep) :
    (∃ i < h.header.slots, h.header.isUsed i = false) ↔
      h.page.slots.findIdx? Option.isNone ≠ none := by
  rw [Ne, List.findIdx?_eq_none_iff, hs.slots]
  constructor
  · rintro ⟨i, hi, hfree⟩ hnone
    rw [hs.isUsed, Page.isUsed_eq_false_iff hi] at hfree
    exact absurd (hnone none (List.mem_of_getElem? hfree)) (by decide)
  · intro hnone
    obtain ⟨entry, hentry⟩ := Classical.not_forall.1 hnone
    obtain ⟨hmem, hfree⟩ := Classical.not_imp.1 hentry
    obtain ⟨i, hi⟩ := List.mem_iff_getElem?.1 hmem
    have hlt := (List.getElem?_eq_some_iff.1 hi).1
    refine ⟨i, hlt, ?_⟩
    rw [hs.isUsed, Page.isUsed_eq_false_iff hlt, hi]
    cases entry with
    | none => rfl
    | some row => exact absurd rfl hfree

theorem InStep.inserts (hs : h.InStep) (row : Row) :
    ∃ result h', h.insert row = some (result, h') ∧ h.Inserts row result h' := by
  obtain ⟨result, h', hi, hs', hplain, hfailed⟩ := hs.insert row
  refine ⟨result, h', hi, ?_⟩
  have hok : ∀ {record}, result = .ok record → h.page.insert row = .ok (record, h'.page) := by
    rintro record rfl
    exact hplain
  have hother : ∀ record, result = .ok record → ∀ i, i ≠ record.slot →
      h'.page.slots[i]? = h.page.slots[i]? := by
    intro record hr i hne
    obtain ⟨-, -, hpage⟩ := Page.insert_eq_ok (hok hr)
    rw [hpage]
    exact List.getElem?_set_ne hne.symm
  refine ⟨hplain, ⟨?_, ?_⟩, hfailed, fun record hr => ?_, fun record hr => ?_,
    fun record hr i hne => ⟨?_, hother record hr i hne⟩⟩
  · rintro ⟨record, hr⟩
    obtain ⟨htypes, -, -⟩ := Page.insert_eq_ok (hok hr)
    refine ⟨htypes, hs.exists_free_iff.2 ?_⟩
    rw [Page.findIdx?_of_insert (hok hr)]
    exact Option.some_ne_none _
  · rintro ⟨htypes, hfree⟩
    obtain ⟨slot, hfind⟩ := Option.ne_none_iff_exists'.1 (hs.exists_free_iff.1 hfree)
    cases result with
    | ok record => exact ⟨record, rfl⟩
    | error e =>
        rw [Page.insert, if_neg (not_not_intro htypes), hfind] at hplain
        cases hplain
  · obtain ⟨-, hid, -⟩ := Page.insert_eq_ok (hok hr)
    obtain ⟨hlt, hfree, hbefore⟩ :=
      List.findIdx?_eq_some_iff_getElem.1 (Page.findIdx?_of_insert (hok hr))
    refine ⟨hid, hs.slots ▸ hlt, ?_, fun i hi => ?_⟩
    · rw [hs.isUsed, Page.isUsed_eq_false_iff hlt, List.getElem?_eq_getElem hlt,
        Option.isNone_iff_eq_none.1 hfree]
    · have hilt := Nat.lt_trans hi hlt
      rw [hs.isUsed, ← Bool.not_eq_false, Page.isUsed_eq_false_iff hilt,
        List.getElem?_eq_getElem hilt, Option.some_inj]
      intro hnone
      exact hbefore i hi (by rw [hnone]; rfl)
  · obtain ⟨-, -, hpage⟩ := Page.insert_eq_ok (hok hr)
    obtain ⟨hlt, -⟩ := List.findIdx?_eq_some_iff_getElem.1 (Page.findIdx?_of_insert (hok hr))
    have hrow : h'.page.slots[record.slot]? = some (some (row.placedAt (some record))) := by
      rw [hpage]
      exact List.getElem?_set_self hlt
    exact ⟨by rw [hs'.isUsed, Page.isUsed_eq_true_iff]; exact ⟨_, hrow⟩, hrow⟩
  · rw [hs'.isUsed, hs.isUsed]
    exact Page.isUsed_congr (hother record hr i hne)

theorem InStep.deletes (hs : h.InStep) (recordId : Option RecordId) :
    ∃ result h', h.delete recordId = some (result, h') ∧ h.Deletes recordId result h' := by
  obtain ⟨result, h', hd, hs', hplain, hfailed⟩ := hs.delete recordId
  refine ⟨result, h', hd, ?_⟩
  have hok : ∀ {record}, result = .ok () → recordId = some record →
      record.page = h.page.id ∧
        h'.page = { h.page with slots := h.page.slots.set record.slot none } := by
    rintro record rfl rfl
    exact Page.delete_eq_ok hplain
  have hused : ∀ {record}, result = .ok () → recordId = some record →
      h.page.isUsed record.slot = true := by
    rintro record rfl rfl
    rw [Page.delete] at hplain
    split at hplain
    · rename_i hc
      exact hc.2
    · cases hplain
  refine ⟨hplain, ⟨fun hr => ?_, ?_⟩, hfailed, fun hr record hrec => ?_,
    fun hr record hrec i hne => ?_⟩
  · cases recordId with
    | none => rw [hr] at hplain; cases hplain
    | some record =>
        exact ⟨record, rfl, (hok hr rfl).1, by rw [hs.isUsed]; exact hused hr rfl⟩
  · rintro ⟨record, rfl, hid, hu⟩
    rw [hs.isUsed] at hu
    cases result with
    | ok _ => rfl
    | error e =>
        rw [Page.delete, if_pos ⟨hid, hu⟩] at hplain
        cases hplain
  · obtain ⟨row, hrow⟩ := Page.isUsed_eq_true_iff.1 (hused hr hrec)
    have hlt := (List.getElem?_eq_some_iff.1 hrow).1
    have hnone : h'.page.slots[record.slot]? = some none := by
      rw [(hok hr hrec).2]
      exact List.getElem?_set_self hlt
    have hlt' := (List.getElem?_eq_some_iff.1 hnone).1
    exact ⟨by rw [hs'.isUsed, Page.isUsed_eq_false_iff hlt', hnone], hnone⟩
  · have hsame : h'.page.slots[i]? = h.page.slots[i]? := by
      rw [(hok hr hrec).2]
      exact List.getElem?_set_ne hne.symm
    exact ⟨by rw [hs'.isUsed, hs.isUsed]; exact Page.isUsed_congr hsame, hsame⟩

/-- A page is a finite map from slots to rows.  Whatever is put in and taken out, and whether it
fails or not, nothing is looked up or changed past the end, and the page is the one that the same
edits make of a page without a header of its own.  The header says which slots hold rows, and each
row knows its address and has the types of the columns.  An insertion succeeds if and only if the
types agree and some slot is free; it takes the lowest one and changes no other.  A deletion
succeeds if and only if the address is that of a used slot of the page; it frees this slot and
changes no other.  A failure changes nothing. -/
theorem maps_slots (ho : Origin id schema pageSize h) (edits : List Edit) :
    ∃ h', h.editAll edits = some h' ∧ h'.page = h.page.actAll (edits.map Edit.action) ∧
      h'.page.id = id ∧ h'.page.schema = schema ∧
      h'.header.slots = slotsPerPage pageSize schema ∧ h'.MapsSlots id schema ∧
      (∀ row, ∃ result h'', h'.insert row = some (result, h'') ∧ h'.Inserts row result h'') ∧
      ∀ recordId, ∃ result h'', h'.delete recordId = some (result, h'') ∧
        h'.Deletes recordId result h'' := by
  obtain ⟨h', he, hs, hp⟩ := ho.inStep.editAll edits
  have hk : Page.Kin id schema pageSize h'.page := by
    rw [hp]
    exact ho.plain.kin.actAll _
  refine ⟨h', he, hp, hk.id_eq, hk.schema_eq, ?_, hs.mapsSlots hk, hs.inserts, hs.deletes⟩
  rw [hs.slots, hk.valid.length_slots, hk.pageSize_eq, hk.schema_eq]

namespace Small

/-- A page with three free slots. -/
def blank : HeadedPage :=
  { page := Page.empty ⟨⟨1⟩, 0⟩ Page.Small.columns 411, header := PackedMarks.empty 3 }

/-- Three rows are put in, and the second is taken out.  Then one is to be taken out of a slot far
past the end. -/
def edits : List Edit :=
  [.insert { schema := Page.Small.columns, fields := [.int 1, .text "é"] } (by decide),
   .insert { schema := Page.Small.columns, fields := [.int (-2), .text ""] } (by decide),
   .insert { schema := Page.Small.columns, fields := [.int 3, .text "z"] } (by decide),
   .delete (some { page := ⟨⟨1⟩, 0⟩, slot := 1 }),
   .delete (some { page := ⟨⟨1⟩, 0⟩, slot := 0xFFFFFFFFFFFFFFFF })]

end Small

theorem maps_slots_small :
    ∃ h', Small.blank.editAll Small.edits = some h' ∧ h'.header.bytes = [5] ∧
      h'.MapsSlots ⟨⟨1⟩, 0⟩ Page.Small.columns ∧
      ∀ recordId, ∃ result h'', h'.delete recordId = some (result, h'') ∧
        h'.Deletes recordId result h'' := by
  have ho : Origin ⟨⟨1⟩, 0⟩ Page.Small.columns 411 Small.blank := .fresh rfl
  obtain ⟨h', he, -, -, -, -, hmaps, -, hdeletes⟩ := maps_slots ho Small.edits
  have hbytes : (Small.blank.editAll Small.edits).map (fun h => h.header.bytes) = some [5] := by
    decide +kernel
  rw [he] at hbytes
  exact ⟨h', he, Option.some.inj hbytes, hmaps, hdeletes⟩

end HeadedPage
end PagedStore

import PagedStore.Proofs.StoredRows

/-!
# Which images are read, and what is written back

Where a slot begins in an image depends on the schema and the page size only (`slotStart`).  An
image is *readable* if it has the size of a page, no mark past the last slot, and a text in
each text column of each used slot (`Readable`).  These are exactly the images that are read, and
the fault that another image is refused with tells what is wrong with it (`Blames`).

Some bytes of a readable image are not looked at: those of free slots, those after a text that is
shorter than its column, and those after the last slot (`Unread`).  When the page is written
again they are zero, and all others are as they were.  So an image is written back as it was if
and only if it has nothing but zeros there (`Page.read_and_written_back`).
-/

namespace PagedStore

/-! ## Slots -/

namespace Page

variable {id : PageId} {schema : Schema} {pageSize : Nat} {data : Bytes} {p : Page}
  {slots : List (Option Row)} {flags : List Bool} {fault : PageFault} {i k : Nat}

/-- What the slots that are read hold. -/
theorem decodeSlots_eq_ok (h : decodeSlots id schema i flags data = .ok slots) :
    slots.map Option.isSome = flags ∧ ∀ {j : Nat} {row : Row}, slots[j]? = some (some row) →
      Row.decode schema { page := id, slot := i + j }
        ((data.drop (j * schema.width)).take schema.width) = .ok row := by
  induction flags generalizing i data slots with
  | nil =>
      cases h
      exact ⟨rfl, fun hj => by cases hj⟩
  | cons used flags ih =>
      have hlater : ∀ {slots' : List (Option Row)} {entry : Option Row} {j : Nat} {row : Row},
          decodeSlots id schema (i + 1) flags (data.drop schema.width) = .ok slots' →
          (entry :: slots')[j + 1]? = some (some row) →
            Row.decode schema { page := id, slot := i + (j + 1) }
              ((data.drop ((j + 1) * schema.width)).take schema.width) = .ok row := by
        intro slots' entry j row hs hj
        have hrow : slots'[j]? = some (some row) := by simpa using hj
        have := (ih hs).2 hrow
        rwa [List.drop_drop, Nat.add_assoc, Nat.add_comm 1 j, Nat.add_comm schema.width,
          ← Nat.succ_mul] at this
      simp only [decodeSlots] at h
      split at h
      · split at h
        · cases h
        · rename_i hused _ first hf
          split at h
          · cases h
          · rename_i hs
            cases h
            refine ⟨by rw [List.map_cons, (ih hs).1, hused]; rfl, fun {j row} hj => ?_⟩
            cases j with
            | zero =>
                cases hj
                simpa using hf
            | succ j => exact hlater hs hj
      · rename_i hused
        split at h
        · cases h
        · rename_i hs
          cases h
          refine ⟨by rw [List.map_cons, (ih hs).1, Bool.eq_false_iff.2 hused]; rfl,
            fun {j row} hj => ?_⟩
          cases j with
          | zero => cases hj
          | succ j => exact hlater hs hj

/-- The slots are refused because of the first used one that has no row. -/
theorem decodeSlots_eq_error (h : decodeSlots id schema i flags data = .error fault) :
    ∃ j f, fault = .slot (i + j) f ∧ flags[j]? = some true ∧
      Row.decode schema { page := id, slot := i + j }
        ((data.drop (j * schema.width)).take schema.width) = .error f ∧
      ∀ j' < j, flags[j']? = some true → ∃ row : Row,
        Row.decode schema { page := id, slot := i + j' }
          ((data.drop (j' * schema.width)).take schema.width) = .ok row := by
  induction flags generalizing i data with
  | nil => cases h
  | cons used flags ih =>
      have hlater : (used = true → ∃ row : Row,
            Row.decode schema { page := id, slot := i } (data.take schema.width) = .ok row) →
          decodeSlots id schema (i + 1) flags (data.drop schema.width) = .error fault →
          ∃ j f, fault = .slot (i + j) f ∧ (used :: flags)[j]? = some true ∧
            Row.decode schema { page := id, slot := i + j }
              ((data.drop (j * schema.width)).take schema.width) = .error f ∧
            ∀ j' < j, (used :: flags)[j']? = some true → ∃ row : Row,
              Row.decode schema { page := id, slot := i + j' }
                ((data.drop (j' * schema.width)).take schema.width) = .ok row := by
        intro hfirst hs
        have hshift : ∀ j, i + 1 + j = i + (j + 1) ∧
            (data.drop schema.width).drop (j * schema.width) =
              data.drop ((j + 1) * schema.width) := by
          intro j
          rw [List.drop_drop, Nat.add_comm schema.width, ← Nat.succ_mul]
          exact ⟨by omega, rfl⟩
        obtain ⟨j, f, hfault, hj, hd, hbefore⟩ := ih hs
        rw [(hshift j).1] at hfault hd
        rw [(hshift j).2] at hd
        refine ⟨j + 1, f, hfault, by simpa using hj, hd, fun j' hlt hj' => ?_⟩
        cases j' with
        | zero =>
            cases hj'
            simpa using hfirst rfl
        | succ j' =>
            have := hbefore j' (by omega) (by simpa using hj')
            rwa [(hshift j').1, (hshift j').2] at this
      simp only [decodeSlots] at h
      split at h
      · rename_i hused
        split at h
        · rename_i f hf
          cases h
          exact ⟨0, f, rfl, by rw [hused]; rfl, by simpa using hf, fun _ hlt => by cases hlt⟩
        · rename_i first hf
          split at h
          · rename_i hs
            cases h
            exact hlater (fun _ => ⟨first, hf⟩) hs
          · cases h
      · rename_i hused
        split at h
        · rename_i hs
          cases h
          exact hlater (fun hu => absurd hu hused) hs
        · cases h

end Page

/-! ## Images -/

/-- Where a slot begins in the image of a page. -/
def slotStart (schema : Schema) (pageSize slot : Nat) : Nat :=
  SlotMarks.bytesFor (slotsPerPage pageSize schema) + slot * schema.width

/-- A bit of the header is set that stands for no slot. -/
def HasStray (schema : Schema) (pageSize : Nat) (data : Bytes) : Prop :=
  ∃ i, slotsPerPage pageSize schema ≤ i ∧
    i < 8 * SlotMarks.bytesFor (slotsPerPage pageSize schema) ∧ Marked data i

/-- The slot is used. -/
def UsedSlot (schema : Schema) (pageSize : Nat) (data : Bytes) (i : Nat) : Prop :=
  i < slotsPerPage pageSize schema ∧ Marked data i

/-- The image has the size of a page, no stray marks, and a text in each text column of each
used slot. -/
structure Readable (schema : Schema) (pageSize : Nat) (data : Bytes) : Prop where
  length_eq : data.length = pageSize
  noStray : ¬ HasStray schema pageSize data
  rows : ∀ ⦃i⦄, UsedSlot schema pageSize data i →
    RowAt schema.types data (slotStart schema pageSize i)

/-- What a fault says of an image. -/
inductive Blames (schema : Schema) (pageSize : Nat) (data : Bytes) : PageFault → Prop
  /-- The image has another size than a page. -/
  | length (h : data.length ≠ pageSize) :
      Blames schema pageSize data (.readLength pageSize data.length)
  /-- It has stray marks. -/
  | stray (hl : data.length = pageSize) (h : HasStray schema pageSize data) :
      Blames schema pageSize data .strayMark
  /-- The slot is the first used one that does not hold a row. -/
  | slot (hl : data.length = pageSize) (hs : ¬ HasStray schema pageSize data) {i : Nat}
      {fault : FieldFault} (hu : UsedSlot schema pageSize data i)
      (hr : ¬ RowAt schema.types data (slotStart schema pageSize i))
      (hb : ∀ i' < i, UsedSlot schema pageSize data i' →
        RowAt schema.types data (slotStart schema pageSize i')) :
      Blames schema pageSize data (.slot i fault)

/-- Who reads the image of a page does not look at the byte. -/
inductive Unread (schema : Schema) (pageSize : Nat) (data : Bytes) (k : Nat) : Prop
  /-- It comes after the last slot. -/
  | tail (h : slotStart schema pageSize (slotsPerPage pageSize schema) ≤ k)
  /-- It belongs to a free slot. -/
  | free {i : Nat} (hi : i < slotsPerPage pageSize schema) (hm : ¬ Marked data i)
      (hle : slotStart schema pageSize i ≤ k) (hlt : k < slotStart schema pageSize (i + 1))
  /-- It comes after a text in a used slot. -/
  | padding {i : Nat} (hu : UsedSlot schema pageSize data i)
      (hp : Padding schema.types data (slotStart schema pageSize i) k)

theorem Blames.not_readable {schema : Schema} {pageSize : Nat} {data : Bytes} {fault : PageFault}
    (h : Blames schema pageSize data fault) : ¬ Readable schema pageSize data := by
  intro hr
  cases h with
  | length hl => exact hl hr.length_eq
  | stray _ hs => exact hr.noStray hs
  | slot _ _ hu hno => exact hno (hr.rows hu)

theorem slotStart_succ (schema : Schema) (pageSize i : Nat) :
    slotStart schema pageSize (i + 1) = slotStart schema pageSize i + schema.width := by
  rw [slotStart, slotStart, Nat.succ_mul, Nat.add_assoc]

theorem slotStart_le {schema : Schema} {pageSize i j : Nat} (h : i ≤ j) :
    slotStart schema pageSize i ≤ slotStart schema pageSize j :=
  Nat.add_le_add_left (Nat.mul_le_mul_right _ h) _

/-- The slots end before the page does. -/
theorem slotStart_le_pageSize {schema : Schema} {pageSize i : Nat}
    (h : i ≤ slotsPerPage pageSize schema) : slotStart schema pageSize i ≤ pageSize :=
  Nat.le_trans (slotStart_le h) (header_add_slots_le pageSize schema)

theorem slotStart_add_width_le {schema : Schema} {pageSize i : Nat}
    (h : i < slotsPerPage pageSize schema) :
    slotStart schema pageSize i + schema.width ≤ pageSize := by
  rw [← slotStart_succ]
  exact slotStart_le_pageSize h

namespace Page

variable {id : PageId} {schema : Schema} {pageSize : Nat} {data : Bytes} {p : Page}
  {fault : PageFault} {i k : Nat}

/-- The bytes of a slot among those after the header. -/
theorem slot_window (data : Bytes) (i : Nat) :
    ((data.drop (SlotMarks.bytesFor (slotsPerPage pageSize schema))).drop
      (i * schema.width)).take schema.width =
      (data.drop (slotStart schema pageSize i)).take schema.width := by
  rw [List.drop_drop, slotStart]

/-- What is known of an image that is read, and of the page. -/
structure ReadAs (id : PageId) (schema : Schema) (pageSize : Nat) (data : Bytes) (p : Page) :
    Prop where
  length_eq : data.length = pageSize
  noStray : ¬ HasStray schema pageSize data
  /-- The header of the page is that of the image. -/
  header : p.marks.toBytes =
    data.take (SlotMarks.bytesFor (slotsPerPage pageSize schema))
  used : ∀ {i}, i < slotsPerPage pageSize schema →
    (Marked data i ↔ ∃ row, p.slots[i]? = some (some row))
  row : ∀ {i row}, p.slots[i]? = some (some row) →
    Row.decode schema { page := id, slot := i }
      ((data.drop (slotStart schema pageSize i)).take schema.width) = .ok row

theorem readAs_of_decode (h : decode id schema pageSize data = .ok p) :
    ReadAs id schema pageSize data p := by
  rw [decode] at h
  split at h
  · rename_i hl
    simp only at h
    split at h
    · cases h
    · rename_i hstray
      split at h
      · cases h
      · rename_i slots hs
        cases h
        obtain ⟨hflags, hrow⟩ := decodeSlots_eq_ok hs
        refine ⟨hl, fun hno => hstray (SlotMarks.hasStray_ofBytes.2 hno), ?_, ?_, ?_⟩
        · rw [marks, hflags, SlotMarks.ofFlags_flags (Bool.eq_false_iff.2 hstray),
            SlotMarks.toBytes_ofBytes]
        · intro i hi
          have hflag : (SlotMarks.ofBytes (slotsPerPage pageSize schema) data
              (hl ▸ header_le pageSize schema)).flags[i]? = some (decide (Marked data i)) :=
            SlotMarks.getElem?_flags_ofBytes hi
          rw [← hflags, List.getElem?_map] at hflag
          obtain ⟨entry, he, hsome⟩ := Option.map_eq_some_iff.1 hflag
          rw [← decide_eq_true_iff (p := Marked data i), ← hsome, he]
          cases entry <;> simp
        · intro i row hi
          have := hrow hi
          rwa [slot_window, Nat.zero_add] at this
  · cases h

theorem ReadAs.readable (h : ReadAs id schema pageSize data p) :
    Readable schema pageSize data where
  length_eq := h.length_eq
  noStray := h.noStray
  rows := by
    intro i hu
    obtain ⟨row, hi⟩ := (h.used hu.1).1 hu.2
    have hend := slotStart_add_width_le hu.1
    exact Row.rowAt_of_decode (by rw [h.length_eq]; exact hend) (h.row hi)

/-- An image that is refused is refused for a reason. -/
theorem blames_of_decode (h : decode id schema pageSize data = .error fault) :
    Blames schema pageSize data fault := by
  rw [decode] at h
  split at h
  · rename_i hl
    simp only at h
    split at h
    · rename_i hstray
      cases h
      exact .stray hl (SlotMarks.hasStray_ofBytes.1 hstray)
    · rename_i hstray
      split at h
      · rename_i hs
        cases h
        obtain ⟨i, f, rfl, hflag, hd, hbefore⟩ := decodeSlots_eq_error hs
        have hused : ∀ {j}, j < slotsPerPage pageSize schema →
            ((SlotMarks.ofBytes (slotsPerPage pageSize schema) data
              (hl ▸ header_le pageSize schema)).flags[j]? = some true ↔ Marked data j) := by
          intro j hj
          rw [SlotMarks.getElem?_flags_ofBytes hj, Option.some.injEq, decide_eq_true_iff]
        have hi : i < slotsPerPage pageSize schema := by
          have := (List.getElem?_eq_some_iff.1 hflag).1
          rwa [SlotMarks.length_flags] at this
        have hfits : ∀ {j}, j < slotsPerPage pageSize schema →
            slotStart schema pageSize j + schema.width ≤ data.length := by
          intro j hj
          rw [hl]
          exact slotStart_add_width_le hj
        rw [slot_window] at hd
        rw [Nat.zero_add]
        refine .slot hl (fun hno => hstray (SlotMarks.hasStray_ofBytes.2 hno))
          ⟨hi, (hused hi).1 hflag⟩ (Row.not_rowAt_of_decode (hfits hi) hd) fun j hj hu => ?_
        obtain ⟨row, hrow⟩ := hbefore j hj ((hused hu.1).2 hu.2)
        rw [slot_window] at hrow
        exact Row.rowAt_of_decode (hfits hu.1) hrow
      · cases h
  · rename_i hl
    cases h
    exact .length hl

/-- Exactly the readable images are read. -/
theorem decode_eq_ok_iff_readable (id : PageId) (schema : Schema) (pageSize : Nat)
    (data : Bytes) :
    (∃ p, decode id schema pageSize data = .ok p) ↔ Readable schema pageSize data := by
  constructor
  · rintro ⟨p, h⟩
    exact (readAs_of_decode h).readable
  · intro hr
    cases h : decode id schema pageSize data with
    | ok p => exact ⟨p, rfl⟩
    | error fault => exact absurd hr (blames_of_decode h).not_readable

/-! ## Writing back -/

theorem getElem?_encode (hv : p.Valid) {entry : Option Row} (hi : p.slots[i]? = some entry)
    (hk : k < p.schema.width) :
    p.encode[slotStart p.schema p.pageSize i + k]? = (slotBytes p.schema entry)[k]? := by
  have hstart : ((p.slots.take i).flatMap (slotBytes p.schema)).length = i * p.schema.width := by
    rw [length_flatMap_slotBytes, List.length_take, Nat.min_eq_left]
    · have := (List.getElem?_eq_some_iff.1 hi).1
      omega
    · intro entry he
      obtain ⟨j, hj⟩ := List.mem_iff_getElem?.1 (List.mem_of_mem_take he)
      exact length_slotBytes hv hj
  have hheader : p.marks.toBytes.length =
      SlotMarks.bytesFor (slotsPerPage p.pageSize p.schema) := by
    rw [SlotMarks.length_pack_bits, ← hv.length_slots]
    simp [marks, SlotMarks.ofFlags]
  have hwidth := length_slotBytes hv hi
  have hslot := getElem?_flatMap_of_getElem? (slotBytes p.schema) hi (k := k) (by omega)
  rw [hstart] at hslot
  have hbody : p.body[slotStart p.schema p.pageSize i + k]? = (slotBytes p.schema entry)[k]? := by
    rw [body, slotStart, List.getElem?_append_right (by omega), hheader, ← hslot]
    congr 1
    omega
  have hin : slotStart p.schema p.pageSize (i + 1) ≤ p.body.length := by
    rw [length_body hv, hv.length_slots]
    exact slotStart_le (hv.length_slots ▸ (List.getElem?_eq_some_iff.1 hi).1)
  rw [slotStart_succ] at hin
  rw [encode, List.getElem?_append_left (by omega), hbody]

/-- A byte belongs to one slot only. -/
theorem slot_eq {i j : Nat} (hi : slotStart schema pageSize i ≤ k)
    (hi' : k < slotStart schema pageSize (i + 1)) (hj : slotStart schema pageSize j ≤ k)
    (hj' : k < slotStart schema pageSize (j + 1)) : i = j := by
  obtain hij | hij | hij := Nat.lt_trichotomy i j
  · have : slotStart schema pageSize (i + 1) ≤ slotStart schema pageSize j := slotStart_le hij
    omega
  · exact hij
  · have : slotStart schema pageSize (j + 1) ≤ slotStart schema pageSize i := slotStart_le hij
    omega

/-- Between the header and the last slot each byte belongs to a slot. -/
theorem exists_slot {n : Nat} (h : slotStart schema pageSize 0 ≤ k)
    (hk : k < slotStart schema pageSize n) :
    ∃ i < n, slotStart schema pageSize i ≤ k ∧ k < slotStart schema pageSize (i + 1) := by
  induction n with
  | zero => omega
  | succ n ih =>
      by_cases hn : slotStart schema pageSize n ≤ k
      · exact ⟨n, Nat.lt_succ_self n, hn, hk⟩
      · obtain ⟨i, hi, hslot⟩ := ih (Nat.lt_of_not_le hn)
        exact ⟨i, Nat.lt_succ_of_lt hi, hslot⟩

/-- Padding is inside its slot. -/
theorem slot_of_padding (h : Padding schema.types data (slotStart schema pageSize i) k) :
    slotStart schema pageSize i ≤ k ∧ k < slotStart schema pageSize (i + 1) := by
  obtain ⟨j, hj, hle, hlt⟩ := h
  have := columnStart_add_width_le hj
  rw [slotStart_succ, Schema.width]
  omega

/-- A byte is not looked at in the slot that it belongs to. -/
theorem unread_iff_of_slot (hi : i < slotsPerPage pageSize schema)
    (hle : slotStart schema pageSize i ≤ k) (hlt : k < slotStart schema pageSize (i + 1)) :
    Unread schema pageSize data k ↔
      (Marked data i → Padding schema.types data (slotStart schema pageSize i) k) := by
  constructor
  · intro hu hm
    cases hu with
    | tail h =>
        have : slotStart schema pageSize (i + 1) ≤ _ := slotStart_le hi
        omega
    | free _ hfree hle' hlt' =>
        rw [slot_eq hle hlt hle' hlt'] at hm
        exact absurd hm hfree
    | padding _ hp =>
        obtain ⟨hle', hlt'⟩ := slot_of_padding hp
        rwa [slot_eq hle hlt hle' hlt']
  · intro h
    by_cases hm : Marked data i
    · exact .padding ⟨hi, hm⟩ (h hm)
    · exact .free hi hm hle hlt

/-- The header is looked at. -/
theorem not_unread_of_header (hk : k < slotStart schema pageSize 0) :
    ¬ Unread schema pageSize data k := by
  have hle : ∀ {i}, ¬ slotStart schema pageSize i ≤ k := fun {i} hi => by
    have : slotStart schema pageSize 0 ≤ slotStart schema pageSize i := slotStart_le (Nat.zero_le i)
    omega
  intro hu
  cases hu with
  | tail h => exact hle h
  | free _ _ h => exact hle h
  | padding _ hp => exact hle (slot_of_padding hp).1

namespace ReadAs

theorem getElem?_encode_header (h : ReadAs id schema pageSize data p)
    (hk : k < slotStart schema pageSize 0) (hin : k < pageSize) : p.encode[k]? = data[k]? := by
  rw [slotStart, Nat.zero_mul, Nat.add_zero] at hk
  have hlen : k < p.marks.toBytes.length := by
    rw [h.header, List.length_take, h.length_eq]
    omega
  rw [encode, body, List.append_assoc, List.getElem?_append_left hlen, h.header,
    List.getElem?_take_of_lt hk]

theorem getElem?_encode_slot (h : ReadAs p.id p.schema p.pageSize data p) (hv : p.Valid)
    (hi : i < slotsPerPage p.pageSize p.schema) (hk : k < p.schema.width) :
    (Marked data i → ¬ Padding p.schema.types data (slotStart p.schema p.pageSize i)
        (slotStart p.schema p.pageSize i + k) →
      p.encode[slotStart p.schema p.pageSize i + k]? =
        data[slotStart p.schema p.pageSize i + k]?) ∧
      ((Marked data i → Padding p.schema.types data (slotStart p.schema p.pageSize i)
        (slotStart p.schema p.pageSize i + k)) →
      p.encode[slotStart p.schema p.pageSize i + k]? = some 0) := by
  obtain ⟨entry, he⟩ : ∃ entry, p.slots[i]? = some entry :=
    ⟨_, List.getElem?_eq_getElem (hv.length_slots ▸ hi)⟩
  rw [getElem?_encode hv he hk]
  cases entry with
  | none =>
      have hfree : ¬ Marked data i := fun hm => by
        obtain ⟨row, hrow⟩ := (h.used hi).1 hm
        rw [he] at hrow
        cases hrow
      refine ⟨fun hm => absurd hm hfree, fun _ => ?_⟩
      rw [slotBytes, Bytes.zeros, List.getElem?_replicate_of_lt hk]
  | some row =>
      have hm : Marked data i := (h.used hi).2 ⟨row, he⟩
      have hfits := slotStart_add_width_le hi
      obtain ⟨hzero, hsame⟩ := Row.getElem?_encode_of_decode (by rw [h.length_eq]; exact hfits)
        (h.row he) hk
      exact ⟨fun _ => hsame, fun hp => hzero (hp hm)⟩

end ReadAs

theorem getElem?_encode_tail (hv : p.Valid)
    (hk : slotStart p.schema p.pageSize (slotsPerPage p.pageSize p.schema) ≤ k)
    (hin : k < p.pageSize) : p.encode[k]? = some 0 := by
  have hbody : p.body.length =
      slotStart p.schema p.pageSize (slotsPerPage p.pageSize p.schema) := by
    rw [length_body hv, hv.length_slots, slotStart]
  rw [encode, List.getElem?_append_right (by omega), Bytes.zeros,
    List.getElem?_replicate_of_lt (by omega)]

/-- When a page is written back, all bytes that were not looked at become zero, and the others
stay. -/
theorem getElem?_encode_of_decode (h : decode id schema pageSize data = .ok p)
    (hk : k < pageSize) :
    (Unread schema pageSize data k → p.encode[k]? = some 0) ∧
      (¬ Unread schema pageSize data k → p.encode[k]? = data[k]?) := by
  obtain ⟨hv, rfl, rfl, rfl, -, -⟩ := decode_eq_ok h
  have hr := readAs_of_decode h
  by_cases hheader : k < slotStart p.schema p.pageSize 0
  · exact ⟨fun hu => absurd hu (not_unread_of_header hheader),
      fun _ => hr.getElem?_encode_header hheader hk⟩
  · by_cases htail : slotStart p.schema p.pageSize (slotsPerPage p.pageSize p.schema) ≤ k
    · exact ⟨fun _ => getElem?_encode_tail hv htail hk, fun hno => absurd (.tail htail) hno⟩
    · obtain ⟨i, hi, hle, hlt⟩ := exists_slot (Nat.le_of_not_lt hheader) (Nat.lt_of_not_le htail)
      rw [unread_iff_of_slot hi hle hlt]
      obtain ⟨j, rfl⟩ := Nat.exists_eq_add_of_le hle
      rw [slotStart_succ] at hlt
      obtain ⟨hsame, hzero⟩ := hr.getElem?_encode_slot hv hi (k := j) (by omega)
      exact ⟨hzero, fun hno => hsame (Classical.not_imp.1 hno).1 (Classical.not_imp.1 hno).2⟩

/-- A page that is read is read again from its own image, with this as before image. -/
theorem decode_encode_of_decode (h : decode id schema pageSize data = .ok p) :
    decode id schema pageSize p.encode = .ok p.keepImage := by
  obtain ⟨hv, rfl, rfl, rfl, howner, -⟩ := decode_eq_ok h
  have hrows : p.slots.map (Option.map (underSchema p.schema)) = p.slots := by
    refine (List.map_congr_left fun entry he => ?_).trans (List.map_id p.slots)
    cases entry with
    | none => rfl
    | some row =>
        obtain ⟨i, hi⟩ := List.mem_iff_getElem?.1 he
        obtain ⟨-, hschema, -⟩ := Row.valid_of_decode ((readAs_of_decode h).row hi)
        rw [Option.map_some, underSchema, ← hschema]
        rfl
  have hreread : p.reread = p.keepImage := by
    rw [reread, keepImage, hrows, ← howner]
  rw [decode_encode hv, hreread]

/-- An image is read if and only if it is readable, and refused for a reason otherwise.  When
the page is written again, all bytes that were not looked at are zero, and the others are as
they were.  So the image is as it was if and only if it had zeros there, and after that nothing
changes any more. -/
theorem read_and_written_back (id : PageId) (schema : Schema) (pageSize : Nat) (data : Bytes) :
    ((∃ p, decode id schema pageSize data = .ok p) ↔ Readable schema pageSize data) ∧
      (¬ Readable schema pageSize data →
        ∃ fault, decode id schema pageSize data = .error fault ∧
          Blames schema pageSize data fault) ∧
      ∀ p, decode id schema pageSize data = .ok p →
        p.encode.length = pageSize ∧
        (∀ k < pageSize, (Unread schema pageSize data k → p.encode[k]? = some 0) ∧
          (¬ Unread schema pageSize data k → p.encode[k]? = data[k]?)) ∧
        (p.encode = data ↔ ∀ k < pageSize, Unread schema pageSize data k → data[k]? = some 0) ∧
        decode id schema pageSize p.encode = .ok p.keepImage ∧
        p.keepImage.encode = p.encode := by
  refine ⟨decode_eq_ok_iff_readable id schema pageSize data, fun hno => ?_, fun p h => ?_⟩
  · cases hd : decode id schema pageSize data with
    | ok p => exact absurd ((decode_eq_ok_iff_readable id schema pageSize data).1 ⟨p, hd⟩) hno
    | error fault => exact ⟨fault, rfl, blames_of_decode hd⟩
  · obtain ⟨hv, -, -, hsize, -, -⟩ := decode_eq_ok h
    have hbytes := fun {k} => getElem?_encode_of_decode (k := k) h
    have hlength : p.encode.length = pageSize := hsize ▸ length_encode hv
    refine ⟨hlength, fun k hk => hbytes hk, ⟨fun he k hk hu => ?_, fun hzero => ?_⟩,
      decode_encode_of_decode h, rfl⟩
    · rw [← (hbytes hk).1 hu, he]
    · refine List.ext_getElem? fun k => ?_
      by_cases hk : k < pageSize
      · by_cases hu : Unread schema pageSize data k
        · rw [(hbytes hk).1 hu, hzero k hk hu]
        · exact (hbytes hk).2 hu
      · have hdata := (readAs_of_decode h).length_eq
        rw [List.getElem?_eq_none (by omega), List.getElem?_eq_none (by omega)]

end Page

end PagedStore

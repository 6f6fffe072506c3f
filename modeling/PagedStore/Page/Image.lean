import PagedStore.Page.Basic

/-!
# Page images

The image of a page is its header, its slots and zeros up to the page size.
The header marks the used slots.  A used slot holds the stored form of its
row, and a free slot holds zeros.

An image is read back if it has the size of a page, marks no slot past the
last one, and holds a row in every slot it marks.  Free slots and the end of
the page are not looked at.  The page read has no owner, and the bytes it was
read from are its before image.
-/

namespace PagedStore.Page

/-! ## Writing -/

/-- The bytes of one slot. -/
def slotBytes (schema : Schema) : Option Row → Bytes
  | none => Bytes.zeros schema.width
  | some row => row.encode

/-- The header: which slots are used. -/
def marks (p : Page) : SlotMarks := SlotMarks.ofFlags (p.slots.map Option.isSome)

/-- The header and the slots, without the zeros at the end. -/
def body (p : Page) : Bytes := p.marks.toBytes ++ p.slots.flatMap (slotBytes p.schema)

/-- The image of the page. -/
def encode (p : Page) : Bytes := p.body ++ Bytes.zeros (p.pageSize - p.body.length)

/-- The page with its present image as before image. -/
def keepImage (p : Page) : Page := { p with beforeImage := p.encode }

/-! ## Reading -/

/-- The rows of the slots from slot `i` on.  The flags say which of them are
used, and the bytes are those of the slots. -/
def decodeSlots (id : PageId) (schema : Schema) (i : Nat) :
    List Bool → Bytes → Except PageFault (List (Option Row))
  | [], _ => .ok []
  | used :: flags, data =>
      let rest := data.drop schema.width
      if used then
        match Row.decode schema { page := id, slot := i } (data.take schema.width) with
        | .error fault => .error (.slot i fault)
        | .ok row =>
            match decodeSlots id schema (i + 1) flags rest with
            | .error fault => .error fault
            | .ok slots => .ok (some row :: slots)
      else
        match decodeSlots id schema (i + 1) flags rest with
        | .error fault => .error fault
        | .ok slots => .ok (none :: slots)

/-- The page that an image shows. -/
def decode (id : PageId) (schema : Schema) (pageSize : Nat) (data : Bytes) :
    Except PageFault Page :=
  if h : data.length = pageSize then
    let count := slotsPerPage pageSize schema
    let marks := SlotMarks.ofBytes count data (h ▸ header_le pageSize schema)
    if marks.hasStray then .error .strayMark
    else
      match decodeSlots id schema 0 marks.flags (data.drop (SlotMarks.bytesFor count)) with
      | .error fault => .error fault
      | .ok slots => .ok { id, schema, pageSize, slots, beforeImage := data }
  else .error (.readLength pageSize data.length)

theorem length_decodeSlots {id : PageId} {schema : Schema} {i : Nat} {flags : List Bool}
    {data : Bytes} {slots : List (Option Row)}
    (h : decodeSlots id schema i flags data = .ok slots) : slots.length = flags.length := by
  induction flags generalizing i data slots with
  | nil => cases h; rfl
  | cons used flags ih =>
      simp only [decodeSlots] at h
      split at h
      · split at h
        · cases h
        · split at h
          · cases h
          · rename_i hs
            cases h
            simp [ih hs]
      · split at h
        · cases h
        · rename_i hs
          cases h
          simp [ih hs]

/-- A page that is read has all the slots its size allows. -/
theorem length_slots_of_decode {id : PageId} {schema : Schema} {pageSize : Nat} {data : Bytes}
    {p : Page} (h : decode id schema pageSize data = .ok p) :
    p.slots.length = slotsPerPage pageSize schema := by
  unfold decode at h
  split at h
  · simp only at h
    split at h
    · cases h
    · split at h
      · cases h
      · rename_i hs
        cases h
        rw [length_decodeSlots hs, SlotMarks.length_flags]
        rfl
  · cases h

end PagedStore.Page

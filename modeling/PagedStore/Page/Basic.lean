import PagedStore.Page.Marks
import PagedStore.Row

/-!
# Pages of rows

A page has a fixed number of slots, and each slot holds a row or is free.  A
slot costs the width of a row and one bit of the header, which fixes how many
slots a page of a given size has (`slotsPerPage`).  The header and the slots
fit the page (`header_add_slots_le`).

To find the number of slots the bits of a page are counted in a word of 64 bits.
A page that has more bits than that cannot be laid out (`BitsCountable`).

A page also knows its owner, which is the transaction that changed it and has
not finished, and its *before image*, which is its image when it was last read
or committed.

A row goes into the lowest free slot (`Page.insert`).  It keeps its own schema,
whose column names may differ from the page's, and gets the address of the
slot.  A row is taken out by its address (`Page.delete`).
-/

namespace PagedStore

/-! ## Geometry -/

/-- The number of slots of a page.  Each takes the bits of a row and one more. -/
def slotsPerPage (pageSize : Nat) (schema : Schema) : Nat :=
  pageSize * 8 / (schema.width * 8 + 1)

/-- The bits of a page of this size can be counted in 64 bits. -/
def BitsCountable (pageSize : Nat) : Prop := pageSize < 1 <<< 61

instance (pageSize : Nat) : Decidable (BitsCountable pageSize) := Nat.decLt ..

/-- The number of slots, if the bits of the page can be counted. -/
def countSlots (pageSize : Nat) (schema : Schema) : Except StoreError Nat :=
  if BitsCountable pageSize then .ok (slotsPerPage pageSize schema)
  else .error (.pageTooLarge pageSize)

/-- The header and the slots fit the page. -/
theorem header_add_slots_le (pageSize : Nat) (schema : Schema) :
    SlotMarks.bytesFor (slotsPerPage pageSize schema)
      + slotsPerPage pageSize schema * schema.width ≤ pageSize := by
  have h := Nat.div_mul_le_self (pageSize * 8) (schema.width * 8 + 1)
  rw [Nat.mul_add, Nat.mul_one, ← Nat.mul_assoc] at h
  unfold SlotMarks.bytesFor slotsPerPage
  omega

theorem header_le (pageSize : Nat) (schema : Schema) :
    SlotMarks.bytesFor (slotsPerPage pageSize schema) ≤ pageSize :=
  Nat.le_trans (Nat.le_add_right _ _) (header_add_slots_le pageSize schema)

/-! ## Pages -/

/-- A page of rows. -/
structure Page where
  /-- Its identity. -/
  id : PageId
  /-- The columns of its rows. -/
  schema : Schema
  /-- The bytes of its image. -/
  pageSize : Nat
  /-- The row in each slot. -/
  slots : List (Option Row)
  /-- The transaction that changed the page and has not finished, if any. -/
  owner : Option TransactionId := none
  /-- The image of the page when it was last read or committed. -/
  beforeImage : Bytes
deriving DecidableEq

namespace Page

/-- A page with all slots free. -/
def empty (id : PageId) (schema : Schema) (pageSize : Nat) : Page where
  id := id
  schema := schema
  pageSize := pageSize
  slots := List.replicate (slotsPerPage pageSize schema) none
  beforeImage := Bytes.zeros pageSize

/-- A page with all slots free, if its bits can be counted. -/
def fresh (id : PageId) (schema : Schema) (pageSize : Nat) : Except StoreError Page :=
  if BitsCountable pageSize then .ok (empty id schema pageSize) else .error (.pageTooLarge pageSize)

/-- The rows of the page in slot order. -/
def rows (p : Page) : List Row := p.slots.filterMap fun s => s

/-- The row in a slot, if the slot exists and is used. -/
def rowAt? (p : Page) (slot : Nat) : Option Row := p.slots[slot]?.join

/-- The slot exists and is used. -/
def isUsed (p : Page) (slot : Nat) : Bool := (p.rowAt? slot).isSome

/-- The number of free slots. -/
def countFree (p : Page) : Nat := p.slots.countP Option.isNone

/-- The page has changes of a transaction that has not finished. -/
def isDirty (p : Page) : Bool := p.owner.isSome

/-- The page with another owner, or with none. -/
def withOwner (p : Page) (owner : Option TransactionId) : Page := { p with owner }

/-! ## Rows in and out -/

/-- Stores a copy of the row in the lowest free slot. -/
def insert (p : Page) (row : Row) : Except StoreError (RecordId × Page) :=
  if ¬ row.schema.SameTypes p.schema then
    .error (.invalidRow (.schemaMismatch row.schema p.schema))
  else
    match p.slots.findIdx? Option.isNone with
    | none => .error (.pageFull p.id)
    | some slot =>
        let record : RecordId := { page := p.id, slot }
        .ok (record, { p with slots := p.slots.set slot (some (row.placedAt (some record))) })

/-- Frees the slot of a row that is known by its address. -/
def delete (p : Page) (recordId : Option RecordId) : Except StoreError Page :=
  match recordId with
  | none => .error (.invalidRow .noRecordId)
  | some record =>
      if record.page = p.id ∧ p.isUsed record.slot then
        .ok { p with slots := p.slots.set record.slot none }
      else .error (.recordNotFound record)

@[simp] theorem length_slots_empty (id : PageId) (schema : Schema) (pageSize : Nat) :
    (empty id schema pageSize).slots.length = slotsPerPage pageSize schema :=
  List.length_replicate

/-- Free slots and rows make up all slots. -/
theorem countFree_add_length_rows (p : Page) :
    p.countFree + p.rows.length = p.slots.length := by
  unfold countFree rows
  induction p.slots with
  | nil => rfl
  | cons s l ih =>
      cases s <;> simp only [List.countP_cons, List.filterMap_cons, List.length_cons,
        Option.isNone_none, Option.isNone_some, if_true, Bool.false_eq_true, if_false]
      all_goals omega

end Page

end PagedStore

import PagedStore.Bytes

/-!
# Slot marks

The header of a page marks which of its slots are used.  It has one bit for
each slot, rounded up to whole bytes.  Slot `i` is bit `i % 8` of byte `i / 8`,
the least significant bit counted as bit zero.

`SlotMarks` holds all bits of those bytes in order, so it can also hold bits
past the last slot.  Such a bit is a *stray* mark.  It makes no slot used, and
a header with one is not accepted as part of a page.

Packing bits into bytes and unpacking them are inverse
(`unpack_pack`, `pack_unpack`).
-/

namespace PagedStore

/-! ## Bits and bytes -/

namespace Bits

/-- The eight bits of a byte, the least significant first. -/
def ofByte (b : UInt8) : List Bool := (List.range 8).map fun i => b.toNat.testBit i

/-- The byte that bits spell, the least significant first. -/
def toByte (bits : List Bool) : UInt8 :=
  UInt8.ofNat (bits.foldr (fun b n => b.toNat + 2 * n) 0)

/-- The bits of a byte string. -/
def unpack (data : Bytes) : List Bool := data.flatMap ofByte

/-- The bytes that bits spell, eight bits to a byte.  Bits missing from the last
byte are zero. -/
def pack : List Bool → Bytes
  | b0 :: b1 :: b2 :: b3 :: b4 :: b5 :: b6 :: b7 :: bits =>
      toByte [b0, b1, b2, b3, b4, b5, b6, b7] :: pack bits
  | [] => []
  | bits => [toByte bits]

@[simp] theorem length_ofByte (b : UInt8) : (ofByte b).length = 8 := by simp [ofByte]

@[simp] theorem length_unpack (data : Bytes) : (unpack data).length = 8 * data.length := by
  induction data with
  | nil => rfl
  | cons b data ih =>
      simp only [unpack, List.flatMap_cons, List.length_append, length_ofByte,
        List.length_cons] at ih ⊢
      omega

theorem ofByte_toByte (b0 b1 b2 b3 b4 b5 b6 b7 : Bool) :
    ofByte (toByte [b0, b1, b2, b3, b4, b5, b6, b7]) = [b0, b1, b2, b3, b4, b5, b6, b7] := by
  revert b0 b1 b2 b3 b4 b5 b6 b7
  decide

/-- Every byte is spelled by its own bits. -/
theorem toByte_ofByte (b : UInt8) : toByte (ofByte b) = b := by
  have h : ∀ n : Fin 256, toByte (ofByte (UInt8.ofNat n.val)) = UInt8.ofNat n.val := by
    decide +kernel
  have hb := h ⟨b.toNat, b.toNat_lt⟩
  simpa using hb

theorem pack_unpack (data : Bytes) : pack (unpack data) = data := by
  induction data with
  | nil => rfl
  | cons b data ih =>
      have h : unpack (b :: data) = ofByte b ++ unpack data := by simp [unpack]
      have hb : toByte [b.toNat.testBit 0, b.toNat.testBit 1, b.toNat.testBit 2,
          b.toNat.testBit 3, b.toNat.testBit 4, b.toNat.testBit 5, b.toNat.testBit 6,
          b.toNat.testBit 7] = b := toByte_ofByte b
      have ho : ofByte b = [b.toNat.testBit 0, b.toNat.testBit 1, b.toNat.testBit 2,
          b.toNat.testBit 3, b.toNat.testBit 4, b.toNat.testBit 5, b.toNat.testBit 6,
          b.toNat.testBit 7] := rfl
      rw [h, ho]
      simp only [List.cons_append, List.nil_append, pack, hb, ih]

/-- Bits in whole bytes survive packing. -/
theorem unpack_pack (bits : List Bool) (h : bits.length % 8 = 0) : unpack (pack bits) = bits := by
  fun_induction pack bits with
  | case1 b0 b1 b2 b3 b4 b5 b6 b7 bits ih =>
      have h' : bits.length % 8 = 0 := by simp only [List.length_cons] at h; omega
      simp only [unpack, List.flatMap_cons] at ih ⊢
      rw [ih h', ofByte_toByte]
      rfl
  | case2 => rfl
  | case3 bits hne hlong =>
      match bits with
      | [] => exact absurd rfl hlong
      | [_] | [_, _] | [_, _, _] | [_, _, _, _] | [_, _, _, _, _] | [_, _, _, _, _, _]
      | [_, _, _, _, _, _, _] => simp at h
      | b0 :: b1 :: b2 :: b3 :: b4 :: b5 :: b6 :: b7 :: bits =>
          exact absurd rfl (hne b0 b1 b2 b3 b4 b5 b6 b7 bits)

end Bits

/-! ## Marks -/

/-- The marks of a page's slots. -/
@[ext] structure SlotMarks where
  /-- The number of slots. -/
  slots : Nat
  /-- All bits of the header, those past the last slot included. -/
  bits : List Bool
  /-- The bits fill whole bytes, and no more than the slots need. -/
  length_bits : bits.length = 8 * ((slots + 7) / 8)
deriving DecidableEq

namespace SlotMarks

/-- The bytes that the marks of `slots` slots take. -/
def bytesFor (slots : Nat) : Nat := (slots + 7) / 8

/-- No slot is used. -/
def empty (slots : Nat) : SlotMarks where
  slots := slots
  bits := List.replicate (8 * bytesFor slots) false
  length_bits := List.length_replicate

/-- The marks at the front of a byte string that is long enough. -/
def ofBytes (slots : Nat) (data : Bytes) (h : bytesFor slots ≤ data.length) : SlotMarks where
  slots := slots
  bits := Bits.unpack (data.take (bytesFor slots))
  length_bits := by
    rw [Bits.length_unpack, List.length_take, Nat.min_eq_left h, bytesFor]

/-- The marks at the front of a byte string, if it is long enough. -/
def ofBytes? (slots : Nat) (data : Bytes) : Option SlotMarks :=
  if h : bytesFor slots ≤ data.length then some (ofBytes slots data h) else none

/-- The marks as bytes. -/
def toBytes (m : SlotMarks) : Bytes := Bits.pack m.bits

/-- The slots that are marked, as one flag for each slot. -/
def flags (m : SlotMarks) : List Bool := m.bits.take m.slots

/-- The slot is marked.  A slot that does not exist is not. -/
def isUsed (m : SlotMarks) (slot : Nat) : Bool := m.flags[slot]?.getD false

/-- Marks a slot as used or as free.  The slot has to exist. -/
def set? (m : SlotMarks) (slot : Nat) (used : Bool) : Option SlotMarks :=
  if slot < m.slots then
    some { m with bits := m.bits.set slot used, length_bits := by simp [m.length_bits] }
  else none

/-- The first slot that is not marked. -/
def firstFree? (m : SlotMarks) : Option Nat := m.flags.findIdx? fun used => !used

/-- The number of slots that are not marked. -/
def countFree (m : SlotMarks) : Nat := m.flags.countP fun used => !used

/-- A bit past the last slot is set. -/
def hasStray (m : SlotMarks) : Bool := (m.bits.drop m.slots).any id

/-- Writes the marks into the front of a buffer, which keeps its other bytes.
The buffer has to be long enough. -/
def writeTo? (m : SlotMarks) (buffer : Bytes) : Option Bytes :=
  if bytesFor m.slots ≤ buffer.length then some (Bytes.overwrite buffer 0 m.toBytes) else none

/-- The marks that fit a list of flags, without strays. -/
def ofFlags (flags : List Bool) : SlotMarks where
  slots := flags.length
  bits := flags ++ List.replicate (8 * bytesFor flags.length - flags.length) false
  length_bits := by simp [bytesFor]; omega

theorem length_flags (m : SlotMarks) : m.flags.length = m.slots := by
  have := m.length_bits
  simp only [flags, List.length_take]
  omega

@[simp] theorem flags_ofFlags (flags : List Bool) : (ofFlags flags).flags = flags := by
  simp [SlotMarks.flags, ofFlags]

@[simp] theorem length_pack_bits (m : SlotMarks) : m.toBytes.length = bytesFor m.slots := by
  have h : (Bits.unpack m.toBytes).length = m.bits.length := by
    rw [toBytes, Bits.unpack_pack]
    rw [m.length_bits]
    omega
  rw [Bits.length_unpack, m.length_bits] at h
  unfold bytesFor
  omega

end SlotMarks

end PagedStore

import PagedStore.Bytes

/-!
# UTF-8 with the place of the first fault

Reading bytes as text either succeeds or says where it stopped.  Text is
accepted exactly when the bytes are well-formed UTF-8 (`decode_eq_ok_iff`),
and the bytes of a text always read back (`decode_encode`).

A fault names the offset of the character that could not be read.  A
character is *malformed* when a byte cannot stand where it stands; the fault
then counts the bytes before it that still fitted, and at least one.  A
character is *cut short* when the bytes end inside it.  Which bytes may follow
a leading byte is the table `following`, which leaves out overlong forms,
surrogates and everything above the last code point.
-/

namespace PagedStore.Utf8

/-! ## Faults -/

/-- Why bytes are not UTF-8. -/
inductive Fault where
  /-- The character at `offset` is malformed after `length` bytes. -/
  | malformed (offset length : Nat)
  /-- The bytes end inside the character at `offset`. -/
  | cutShort (offset : Nat)
deriving DecidableEq, Repr

/-- The wording of a fault. -/
def Fault.message : Fault → String
  | .malformed offset length => s!"invalid utf-8 sequence of {length} bytes from index {offset}"
  | .cutShort offset => s!"incomplete utf-8 byte sequence from index {offset}"

/-- The byte ranges that may follow a leading byte, in order; `none` for a byte
that starts no character. -/
def following (b : UInt8) : Option (List (UInt8 × UInt8)) :=
  if b < 0x80 then some []
  else if b < 0xc2 then none
  else if b < 0xe0 then some [(0x80, 0xbf)]
  else if b = 0xe0 then some [(0xa0, 0xbf), (0x80, 0xbf)]
  else if b = 0xed then some [(0x80, 0x9f), (0x80, 0xbf)]
  else if b < 0xf0 then some [(0x80, 0xbf), (0x80, 0xbf)]
  else if b = 0xf0 then some [(0x90, 0xbf), (0x80, 0xbf), (0x80, 0xbf)]
  else if b < 0xf4 then some [(0x80, 0xbf), (0x80, 0xbf), (0x80, 0xbf)]
  else if b = 0xf4 then some [(0x80, 0x8f), (0x80, 0xbf), (0x80, 0xbf)]
  else none

/-- The first fault of the bytes from position `pos` on.  A character that
began at `start` still waits for bytes in the ranges given. -/
def firstFault (start pos : Nat) : List (UInt8 × UInt8) → Bytes → Option Fault
  | [], [] => none
  | _ :: _, [] => some (.cutShort start)
  | [], b :: bs =>
      match following b with
      | none => some (.malformed pos 1)
      | some ranges => firstFault pos (pos + 1) ranges bs
  | (lo, hi) :: ranges, b :: bs =>
      if lo ≤ b ∧ b ≤ hi then firstFault start (pos + 1) ranges bs
      else some (.malformed start (pos - start))
termination_by structural _ bs => bs

/-! ## Reading and writing -/

/-- The bytes of a text. -/
def encode (s : String) : Bytes := s.toByteArray.data.toList

/-- The text that the bytes spell, or the first fault in them. -/
def decode (data : Bytes) : Except Fault String :=
  match String.fromUTF8? ⟨data.toArray⟩ with
  | some s => .ok s
  | none => .error ((firstFault 0 0 [] data).getD (.cutShort data.length))

theorem decode_encode (s : String) : decode (encode s) = .ok s := by
  have h : ByteArray.mk (encode s).toArray = s.toByteArray := by simp [encode]
  simp [decode, h, String.fromUTF8?, String.fromUTF8, s.isValidUTF8]

theorem decode_eq_ok_iff {data : Bytes} {s : String} : decode data = .ok s ↔ data = encode s := by
  constructor
  · intro h
    unfold decode at h
    split at h
    · rename_i t ht
      cases h
      simp only [String.fromUTF8?] at ht
      split at ht
      · cases ht
        simp [encode, String.fromUTF8]
      · cases ht
    · cases h
  · rintro rfl
    exact decode_encode s

example : firstFault 0 0 [] [0x68, 0xc3] = some (.cutShort 1) := by decide

example : firstFault 0 0 [] [0xe0, 0x80, 0x80] = some (.malformed 0 1) := by decide

end PagedStore.Utf8

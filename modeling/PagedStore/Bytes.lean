/-!
# Byte strings

A file, a page image and a stored value are lists of bytes.  This module has
the few operations that the storage formats share: a run of zeros, the
overwriting of a stretch in place, and the four-byte big-endian number.

A number is written modulo `2 ^ 32`, since four bytes hold no more
(`ofBigEndian_bigEndian`).  Overwriting a stretch that lies inside keeps the
length and every byte outside the stretch (`length_overwrite`,
`getElem?_overwrite_of_lt`, `getElem?_overwrite_of_ge`).
-/

namespace PagedStore

/-- A byte string. -/
abbrev Bytes := List UInt8

namespace Bytes

/-! ## Zeros and overwriting -/

/-- A run of zero bytes. -/
def zeros (n : Nat) : Bytes := List.replicate n 0

@[simp] theorem length_zeros (n : Nat) : (zeros n).length = n := List.length_replicate

/-- The bytes with a stretch from `offset` on replaced by `patch`.  A patch
that reaches past the end makes the string longer. -/
def overwrite (data : Bytes) (offset : Nat) (patch : Bytes) : Bytes :=
  data.take offset ++ patch ++ data.drop (offset + patch.length)

theorem length_overwrite {data patch : Bytes} {offset : Nat} (h : offset ≤ data.length) :
    (overwrite data offset patch).length = max data.length (offset + patch.length) := by
  simp only [overwrite, List.length_append, List.length_take, List.length_drop]
  omega

theorem getElem?_overwrite_of_lt {data patch : Bytes} {offset i : Nat}
    (h : offset ≤ data.length) (hi : i < offset) :
    (overwrite data offset patch)[i]? = data[i]? := by
  have : i < (data.take offset).length := by simp; omega
  rw [overwrite, List.append_assoc, List.getElem?_append_left this, List.getElem?_take_of_lt hi]

theorem getElem?_overwrite_of_ge {data patch : Bytes} {offset i : Nat}
    (h : offset ≤ data.length) (hi : offset + patch.length ≤ i) :
    (overwrite data offset patch)[i]? = data[i]? := by
  have hl : (data.take offset ++ patch).length = offset + patch.length := by simp; omega
  rw [overwrite, List.getElem?_append_right (by omega), hl, List.getElem?_drop]
  congr 1
  omega

/-- The stretch itself reads back as the patch. -/
theorem take_drop_overwrite {data patch : Bytes} {offset : Nat} (h : offset ≤ data.length) :
    ((overwrite data offset patch).drop offset).take patch.length = patch := by
  have hl : (data.take offset).length = offset := by simp; omega
  rw [overwrite, List.append_assoc, List.drop_append_of_le_length (by omega),
    List.drop_eq_nil_of_le (by omega), List.nil_append, List.take_left]

/-! ## Four-byte numbers -/

/-- The four bytes of a number, most significant first. -/
def bigEndian (n : Nat) : Bytes :=
  [UInt8.ofNat (n / 16777216), UInt8.ofNat (n / 65536), UInt8.ofNat (n / 256), UInt8.ofNat n]

/-- The number that a byte string spells, most significant byte first. -/
def ofBigEndian (data : Bytes) : Nat :=
  data.foldl (fun n b => 256 * n + b.toNat) 0

@[simp] theorem length_bigEndian (n : Nat) : (bigEndian n).length = 4 := rfl

theorem ofBigEndian_bigEndian (n : Nat) : ofBigEndian (bigEndian n) = n % 4294967296 := by
  simp only [ofBigEndian, bigEndian, List.foldl_cons, List.foldl_nil, UInt8.toNat_ofNat']
  omega

end Bytes

end PagedStore

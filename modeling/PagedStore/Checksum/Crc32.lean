import PagedStore.Bytes

/-!
# CRC-32

The checksum CRC-32/ISO-HDLC: the reflected polynomial `0xedb88320`, a
register that starts with all bits set and is complemented at the end.  The
register takes one bit at a time, the least significant bit of a byte first,
so no table is needed.
-/

namespace PagedStore.Crc32

/-- One bit: the register moves right, and the polynomial is added when a bit
falls out. -/
def shift (r : UInt32) : UInt32 :=
  if r &&& 1 = 1 then (r >>> 1) ^^^ 0xedb88320 else r >>> 1

/-- One byte: it is added to the low end of the register, which then moves by
eight bits. -/
def feed (r : UInt32) (b : UInt8) : UInt32 :=
  Nat.repeat shift 8 (r ^^^ b.toUInt32)

/-- The checksum of a byte string. -/
def checksum (data : Bytes) : UInt32 :=
  data.foldl feed 0xffffffff ^^^ 0xffffffff

example : checksum [0x31, 0x32, 0x33, 0x34, 0x35, 0x36, 0x37, 0x38, 0x39] = 0xcbf43926 := by
  decide +kernel

end PagedStore.Crc32

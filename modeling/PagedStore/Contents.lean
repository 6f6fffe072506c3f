import PagedStore.Bytes

/-!
# What files hold

A file can be lengthened as far as one likes, and then most of it is zeros.  So what it
holds is kept as bytes with a number of zeros after them (`Padded`), and the zeros take no
room.  How many of the zeros are among the bytes does not matter: two such forms are the
same *contents* if they spell the same bytes (`Contents`, `Contents.ext`).

The length, a stretch of the bytes, overwriting and cutting are found without spelling the
zeros out.  Each of them is what it is on the bytes (`Contents.length_bytes`,
`Contents.bytes_slice`, `Contents.bytes_overwrite`, `Contents.bytes_resize`).
-/

namespace PagedStore

/-! ## Bytes with zeros after them -/

/-- Bytes and a number of zeros after them. -/
structure Padded where
  /-- The bytes. -/
  front : Bytes
  /-- The number of zeros. -/
  zeros : Nat

namespace Padded

/-- The bytes with the zeros spelled out. -/
def bytes (p : Padded) : Bytes := p.front ++ Bytes.zeros p.zeros

/-- The number of bytes. -/
def length (p : Padded) : Nat := p.front.length + p.zeros

/-- As many bytes as are asked for, from an offset on, or what there is of them. -/
def slice (p : Padded) (offset count : Nat) : Bytes :=
  (p.front.drop offset).take count ++
    Bytes.zeros (min (count - (p.front.length - offset)) (p.zeros - (offset - p.front.length)))

/-- A stretch from `offset` on is replaced by `patch`. -/
def overwrite (p : Padded) (offset : Nat) (patch : Bytes) : Padded where
  front := p.front.take offset ++ Bytes.zeros (min (offset - p.front.length) p.zeros) ++ patch ++
    p.front.drop (offset + patch.length)
  zeros := p.zeros - (offset + patch.length - p.front.length)

/-- What is too long is cut, and what is too short gets zeros. -/
def resize (p : Padded) (length : Nat) : Padded where
  front := p.front.take length
  zeros := length - p.front.length

@[simp] theorem length_bytes (p : Padded) : p.bytes.length = p.length := by
  rw [bytes, List.length_append, Bytes.length_zeros, length]

theorem bytes_slice (p : Padded) (offset count : Nat) :
    p.slice offset count = (p.bytes.drop offset).take count := by
  simp only [slice, bytes, Bytes.zeros, List.drop_append, List.take_append, List.drop_replicate,
    List.take_replicate, List.length_drop]

theorem bytes_overwrite (p : Padded) (offset : Nat) (patch : Bytes) :
    (p.overwrite offset patch).bytes = Bytes.overwrite p.bytes offset patch := by
  simp only [overwrite, bytes, Bytes.overwrite, Bytes.zeros, List.take_append, List.drop_append,
    List.take_replicate, List.drop_replicate, List.append_assoc]

theorem bytes_resize (p : Padded) (length : Nat) :
    (p.resize length).bytes =
      p.bytes.take length ++ Bytes.zeros (length - p.bytes.length) := by
  have hzeros : length - p.front.length =
      min (length - p.front.length) p.zeros + (length - (p.front.length + p.zeros)) := by omega
  rw [length_bytes, Padded.length, resize, bytes, bytes, List.take_append, Bytes.zeros,
    Bytes.zeros, Bytes.zeros, List.take_replicate, List.append_assoc,
    List.replicate_append_replicate, ← hzeros]

/-- Two forms are alike if they spell the same bytes. -/
instance setoid : Setoid Padded where
  r p q := p.bytes = q.bytes
  iseqv := ⟨fun _ => rfl, Eq.symm, Eq.trans⟩

end Padded

/-! ## Contents -/

/-- What a file holds: bytes with zeros after them, up to how many of the zeros are spelled
out. -/
def Contents : Type := Quotient Padded.setoid

namespace Contents

/-- All bytes. -/
def bytes (c : Contents) : Bytes := Quotient.lift Padded.bytes (fun _ _ h => h) c

/-- The contents with given bytes. -/
def ofBytes (data : Bytes) : Contents := Quotient.mk _ ⟨data, 0⟩

/-- Nothing. -/
instance : EmptyCollection Contents := ⟨ofBytes []⟩

@[simp] theorem bytes_ofBytes (data : Bytes) : (ofBytes data).bytes = data :=
  List.append_nil data

@[ext] theorem ext {c d : Contents} (h : c.bytes = d.bytes) : c = d := by
  induction c, d using Quotient.inductionOn₂ with
  | h p q => exact Quotient.sound h

instance : DecidableEq Contents := fun _ _ => decidable_of_iff _ ⟨ext, congrArg bytes⟩

/-- The number of bytes. -/
def length (c : Contents) : Nat :=
  Quotient.lift Padded.length (fun p q h => by rw [← p.length_bytes, ← q.length_bytes, h]) c

/-- As many bytes as are asked for, from an offset on, or what there is of them. -/
def slice (c : Contents) (offset count : Nat) : Bytes :=
  Quotient.lift (fun p => p.slice offset count)
    (fun p q h => by rw [p.bytes_slice, q.bytes_slice, h]) c

/-- A stretch from `offset` on is replaced by `patch`. -/
def overwrite (c : Contents) (offset : Nat) (patch : Bytes) : Contents :=
  Quotient.lift (fun p => Quotient.mk _ (p.overwrite offset patch))
    (fun p q h => Quotient.sound (by
      show (p.overwrite offset patch).bytes = (q.overwrite offset patch).bytes
      rw [p.bytes_overwrite, q.bytes_overwrite, h])) c

/-- What is too long is cut, and what is too short gets zeros. -/
def resize (c : Contents) (length : Nat) : Contents :=
  Quotient.lift (fun p => Quotient.mk _ (p.resize length))
    (fun p q h => Quotient.sound (by
      show (p.resize length).bytes = (q.resize length).bytes
      rw [p.bytes_resize, q.bytes_resize, h])) c

/-! ## On the bytes -/

@[simp] theorem length_bytes (c : Contents) : c.bytes.length = c.length :=
  Quotient.inductionOn c Padded.length_bytes

theorem bytes_slice (c : Contents) (offset count : Nat) :
    c.slice offset count = (c.bytes.drop offset).take count :=
  Quotient.inductionOn c fun p => p.bytes_slice offset count

@[simp] theorem bytes_overwrite (c : Contents) (offset : Nat) (patch : Bytes) :
    (c.overwrite offset patch).bytes = Bytes.overwrite c.bytes offset patch :=
  Quotient.inductionOn c fun p => p.bytes_overwrite offset patch

@[simp] theorem bytes_resize (c : Contents) (length : Nat) :
    (c.resize length).bytes = c.bytes.take length ++ Bytes.zeros (length - c.bytes.length) :=
  Quotient.inductionOn c fun p => p.bytes_resize length

/-- A file may have more zeros than anyone could spell out. -/
example : (((∅ : Contents).resize 4294967296).overwrite 1 [7]).slice 0 3 = [0, 7, 0] := by decide

end Contents

end PagedStore

import PagedStore.Proofs.Images
import Mathlib.Data.List.Forall2

/-!
# Texts that are too long

A value is written into the front of a buffer, and what stands there is read.  A number comes
back, and so does a text of at most `textLimit` bytes.  Of a longer text the first `textLimit`
bytes are written, whatever characters they belong to.

If they end between two characters, the text before the cut comes back.  If they end inside a
character (`Field.CutInside`), nothing does: the fault names the offset of that character.
`Field.written_then_read` says all this of every value and every buffer.

That the fault is at this character is read off the bytes of characters.  The bytes after the
first one are those that the first one announces (`Utf8.wellLed_encodeChar`), so a text has no
fault before the character that is cut (`Utf8.firstFault_encode`), and that character has none but
being cut short (`Utf8.firstFault_take_encodeChar`).
-/

namespace PagedStore
namespace Utf8

variable {n v : Nat} {data rest : Bytes} {s p q : String} {c : Char}

/-! ## The bytes of a character -/

/-- A byte is in a range. -/
def Within (range : UInt8 × UInt8) (b : UInt8) : Prop := range.1 ≤ b ∧ b ≤ range.2

/-- The bytes after the first one are those that the first one announces. -/
def WellLed (bytes : Bytes) : Prop :=
  ∃ b tail ranges, bytes = b :: tail ∧ following b = some ranges ∧ List.Forall₂ Within ranges tail

theorem within_ofNat (lo hi : Nat) {x : Nat} (hhi : hi < 256) (hx : lo ≤ x ∧ x ≤ hi) :
    Within (UInt8.ofNat lo, UInt8.ofNat hi) (UInt8.ofNat x) := by
  simp only [Within, UInt8.le_iff_toNat_le, UInt8.toNat_ofNat']
  omega

/-- A byte with six bits of a character, which may stand at any place after the first. -/
theorem within_tail (x : Nat) : Within (128, 191) (UInt8.ofNat (x % 64 + 128)) :=
  within_ofNat 128 191 (by decide) (by omega)

/-- What may follow a leading byte, by its number. -/
theorem following_ofNat {x : Nat} (h : x < 256) :
    following (UInt8.ofNat x) =
      if x < 128 then some []
      else if x < 194 then none
      else if x < 224 then some [(128, 191)]
      else if x = 224 then some [(160, 191), (128, 191)]
      else if x = 237 then some [(128, 159), (128, 191)]
      else if x < 240 then some [(128, 191), (128, 191)]
      else if x = 240 then some [(144, 191), (128, 191), (128, 191)]
      else if x < 244 then some [(128, 191), (128, 191), (128, 191)]
      else if x = 244 then some [(128, 143), (128, 191), (128, 191)]
      else none := by
  have hx : (UInt8.ofNat x).toNat = x := UInt8.toNat_ofNat_of_lt' h
  simp [following, UInt8.lt_iff_toNat_lt, ← UInt8.toNat_inj, hx]

theorem wellLed_two (h : 127 < v) (h' : v ≤ 2047) :
    WellLed [UInt8.ofNat (v / 64 % 32 + 192), UInt8.ofNat (v % 64 + 128)] := by
  refine ⟨_, _, _, rfl, ?_, .cons (within_tail v) .nil⟩
  rw [following_ofNat (by omega)]
  grind

/-- Three bytes: the range of the second one leaves out overlong forms and surrogates. -/
theorem wellLed_three (h : 2047 < v) (h' : v ≤ 65535) (hv : v < 55296 ∨ 57343 < v) :
    WellLed [UInt8.ofNat (v / 4096 % 16 + 224), UInt8.ofNat (v / 64 % 64 + 128),
      UInt8.ofNat (v % 64 + 128)] := by
  by_cases hlow : v < 4096
  · refine ⟨_, _, [(160, 191), (128, 191)], rfl, ?_, .cons ?_ (.cons (within_tail v) .nil)⟩
    · rw [following_ofNat (by omega)]
      grind
    · exact within_ofNat 160 191 (by decide) (by omega)
  by_cases hbefore : v / 4096 = 13
  · refine ⟨_, _, [(128, 159), (128, 191)], rfl, ?_, .cons ?_ (.cons (within_tail v) .nil)⟩
    · rw [following_ofNat (by omega)]
      grind
    · exact within_ofNat 128 159 (by decide) (by omega)
  · refine ⟨_, _, _, rfl, ?_, .cons (within_tail _) (.cons (within_tail v) .nil)⟩
    rw [following_ofNat (by omega)]
    grind

/-- Four bytes: the range of the second one leaves out overlong forms and all that is above the
last code point. -/
theorem wellLed_four (h : 65535 < v) (h' : v < 1114112) :
    WellLed [UInt8.ofNat (v / 262144 % 8 + 240), UInt8.ofNat (v / 4096 % 64 + 128),
      UInt8.ofNat (v / 64 % 64 + 128), UInt8.ofNat (v % 64 + 128)] := by
  have hlast := List.Forall₂.cons (within_tail (v / 64)) (.cons (within_tail v) .nil)
  by_cases hlow : v < 262144
  · refine ⟨_, _, [(144, 191), (128, 191), (128, 191)], rfl, ?_, .cons ?_ hlast⟩
    · rw [following_ofNat (by omega)]
      grind
    · exact within_ofNat 144 191 (by decide) (by omega)
  by_cases hhigh : v < 1048576
  · refine ⟨_, _, _, rfl, ?_, .cons (within_tail _) hlast⟩
    rw [following_ofNat (by omega)]
    grind
  · refine ⟨_, _, [(128, 143), (128, 191), (128, 191)], rfl, ?_, .cons ?_ hlast⟩
    · rw [following_ofNat (by omega)]
      grind
    · exact within_ofNat 128 143 (by decide) (by omega)

theorem wellLed_encodeChar (c : Char) : WellLed (String.utf8EncodeChar c) := by
  have hv := c.valid
  rw [UInt32.isValidChar, Nat.isValidChar] at hv
  unfold String.utf8EncodeChar
  generalize c.val.toNat = v at *
  dsimp only
  split
  · refine ⟨_, _, _, rfl, ?_, .nil⟩
    rw [following_ofNat (by omega), if_pos (by omega)]
  split
  · exact wellLed_two (by omega) (by omega)
  split
  · exact wellLed_three (by omega) (by omega) (by omega)
  · exact wellLed_four (by omega) (by omega)

/-! ## Faults -/

/-- Bytes in the ranges that are waited for complete a character. -/
theorem firstFault_append {ranges : List (UInt8 × UInt8)} {tail : Bytes}
    (h : List.Forall₂ Within ranges tail) (start pos : Nat) (rest : Bytes) :
    firstFault start pos ranges (tail ++ rest) = firstFault start (pos + tail.length) [] rest := by
  induction h generalizing pos with
  | nil => rfl
  | cons hb _ ih =>
      rw [Within] at hb
      rw [List.cons_append, firstFault, if_pos hb, ih, List.length_cons]
      congr 1
      omega

/-- If they end too early, the character is cut short. -/
theorem firstFault_take {ranges : List (UInt8 × UInt8)} {tail : Bytes}
    (h : List.Forall₂ Within ranges tail) (start pos : Nat) {k : Nat} (hk : k < tail.length) :
    firstFault start pos ranges (tail.take k) = some (.cutShort start) := by
  induction h generalizing pos k with
  | nil => cases hk
  | cons hb _ ih =>
      cases k with
      | zero => rfl
      | succ k =>
          rw [Within] at hb
          rw [List.take_succ_cons, firstFault, if_pos hb]
          exact ih _ (by simpa using hk)

theorem firstFault_encodeChar (c : Char) (start pos : Nat) (rest : Bytes) :
    firstFault start pos [] (String.utf8EncodeChar c ++ rest) =
      firstFault pos (pos + c.utf8Size) [] rest := by
  obtain ⟨b, tail, ranges, hc, hb, htail⟩ := wellLed_encodeChar c
  have hsize : tail.length + 1 = c.utf8Size := by
    rw [← String.length_utf8EncodeChar, hc, List.length_cons]
  rw [hc, List.cons_append, firstFault, hb]
  dsimp only
  rw [firstFault_append htail, ← hsize]
  congr 1
  omega

theorem firstFault_take_encodeChar (c : Char) (start pos : Nat) {k : Nat} (hk : 0 < k)
    (hk' : k < c.utf8Size) :
    firstFault start pos [] ((String.utf8EncodeChar c).take k) = some (.cutShort pos) := by
  obtain ⟨b, tail, ranges, hc, hb, htail⟩ := wellLed_encodeChar c
  obtain ⟨k, rfl⟩ := Nat.exists_eq_succ_of_ne_zero (Nat.ne_of_gt hk)
  rw [← String.length_utf8EncodeChar, hc, List.length_cons] at hk'
  rw [hc, List.take_succ_cons, firstFault, hb]
  exact firstFault_take htail pos (pos + 1) (by omega)

/-! ## Texts -/

/-- A text is empty or begins with a character. -/
@[elab_as_elim] theorem text_induction {motive : String → Prop} (s : String) (empty : motive "")
    (char : ∀ c t, motive t → motive (String.singleton c ++ t)) : motive s := by
  rw [← s.ofList_toList]
  induction s.toList with
  | nil => exact empty
  | cons c l ih =>
      rw [String.ofList_cons]
      exact char c _ ih

theorem encode_append (s t : String) : encode (s ++ t) = encode s ++ encode t := by
  simp [encode]

theorem encode_singleton (c : Char) : encode (String.singleton c) = String.utf8EncodeChar c := by
  rw [encode, String.toByteArray_singleton, List.utf8Encode_singleton]
  simp

/-- A text has no fault. -/
theorem firstFault_encode (s : String) (start pos : Nat) (rest : Bytes) :
    ∃ start', firstFault start pos [] (encode s ++ rest) =
      firstFault start' (pos + s.utf8ByteSize) [] rest := by
  induction s using text_induction generalizing start pos with
  | empty => exact ⟨start, rfl⟩
  | char c t ih =>
      obtain ⟨start', h⟩ := ih pos (pos + c.utf8Size)
      refine ⟨start', ?_⟩
      rw [encode_append, encode_singleton, List.append_assoc, firstFault_encodeChar, h,
        String.utf8ByteSize_append, String.utf8ByteSize_singleton, Nat.add_assoc]

/-- Bytes with a fault are no text. -/
theorem decode_of_firstFault {fault : Fault} (h : firstFault 0 0 [] data = some fault) :
    decode data = .error fault := by
  cases hd : decode data with
  | ok s =>
      obtain ⟨start, hs⟩ := firstFault_encode s 0 0 []
      rw [decode_eq_ok_iff.1 hd, ← List.append_nil (encode s), hs] at h
      cases h
  | error f =>
      rw [decode] at hd
      split at hd
      · cases hd
      · rw [h] at hd
        cases hd
        rfl

/-- The first `n` bytes of a text end inside the character `c`, which comes after `p`. -/
structure EndsInside (n : Nat) (s p : String) (c : Char) : Prop where
  /-- The text begins with `p` and the character. -/
  begins : ∃ q, s = p ++ String.singleton c ++ q
  /-- The character begins before the end. -/
  before : p.utf8ByteSize < n
  /-- It goes on after it. -/
  after : n < p.utf8ByteSize + c.utf8Size

/-- The first bytes of a text end between two characters or inside one. -/
theorem exists_cut (s : String) (n : Nat) (h : n ≤ s.utf8ByteSize) :
    (∃ p q, s = p ++ q ∧ p.utf8ByteSize = n) ∨ ∃ p c, EndsInside n s p c := by
  induction s using text_induction generalizing n with
  | empty =>
      refine .inl ⟨"", "", by simp, ?_⟩
      simpa [eq_comm] using h
  | char c t ih =>
      rw [String.utf8ByteSize_append, String.utf8ByteSize_singleton] at h
      obtain rfl | hpos := Nat.eq_zero_or_pos n
      · exact .inl ⟨"", _, String.empty_append.symm, by simp⟩
      by_cases hlt : n < c.utf8Size
      · exact .inr ⟨"", c, ⟨t, by simp⟩, by simpa using hpos, by simpa using hlt⟩
      obtain ⟨p, q, rfl, hp⟩ | ⟨p, d, ⟨q, rfl⟩, hbefore, hafter⟩ := ih (n - c.utf8Size) (by omega)
      · refine .inl ⟨String.singleton c ++ p, q, by rw [String.append_assoc], ?_⟩
        rw [String.utf8ByteSize_append, String.utf8ByteSize_singleton]
        omega
      · have hsize : (String.singleton c ++ p).utf8ByteSize = c.utf8Size + p.utf8ByteSize := by
          rw [String.utf8ByteSize_append, String.utf8ByteSize_singleton]
        exact .inr ⟨String.singleton c ++ p, d, ⟨q, by simp only [String.append_assoc]⟩,
          by omega, by omega⟩

theorem take_encode_append (p q : String) :
    (encode (p ++ q)).take p.utf8ByteSize = encode p := by
  rw [encode_append, ← length_encode, List.take_left]

/-- The bytes of a text up to the inside of a character are no text. -/
theorem decode_cut (h : EndsInside n s p c) :
    decode ((encode s).take n) = .error (.cutShort p.utf8ByteSize) := by
  obtain ⟨⟨q, rfl⟩, hbefore, hafter⟩ := h
  have htake : (encode (p ++ String.singleton c ++ q)).take n =
      encode p ++ (String.utf8EncodeChar c).take (n - p.utf8ByteSize) := by
    rw [encode_append, encode_append, encode_singleton, List.append_assoc, List.take_append,
      length_encode, List.take_of_length_le (by rw [length_encode]; omega),
      List.take_append_of_le_length (by rw [String.length_utf8EncodeChar]; omega)]
  have hfault : firstFault 0 0 [] ((encode (p ++ String.singleton c ++ q)).take n) =
      some (.cutShort p.utf8ByteSize) := by
    obtain ⟨start, hp⟩ := firstFault_encode p 0 0 _
    rw [htake, hp, Nat.zero_add]
    exact firstFault_take_encodeChar c start _ (by omega) (by omega)
  exact decode_of_firstFault hfault

end Utf8

/-! ## Values written and read -/

/-- Reading looks at no more bytes than a value takes. -/
theorem ColumnType.decode_append {type : ColumnType} {data : Bytes}
    (h : type.width ≤ data.length) (rest : Bytes) :
    type.decode (data ++ rest) = type.decode data := by
  have hwidth : 4 ≤ type.width := by cases type <;> decide
  have hword : (data ++ rest).take 4 = data.take 4 := List.take_append_of_le_length (by omega)
  have hdrop : (data ++ rest).drop 4 = data.drop 4 ++ rest :=
    List.drop_append_of_le_length (by omega)
  rw [decode, decode, if_neg (by rw [List.length_append]; omega), if_neg (by omega)]
  simp only [hword, hdrop]
  cases type with
  | int => rfl
  | text =>
      dsimp only
      split
      · rfl
      · rename_i hle
        rw [width] at h
        rw [List.take_append_of_le_length (by rw [List.length_drop]; omega)]

namespace Field

variable {f : Field} {s p : String} {c : Char}

/-- The bytes of the text that are stored end inside one of its characters. -/
def CutInside (f : Field) : Prop :=
  ∃ s p c, f = .text s ∧ Utf8.EndsInside textLimit s p c

/-- What is read of a text depends on the bytes of it that are stored. -/
theorem decode_encode_text (s : String) :
    ColumnType.text.decode (encode (.text s)) =
      ((Utf8.decode ((Utf8.encode s).take textLimit)).map Field.text).mapError
        FieldFault.notUtf8 := by
  have hle : ((Utf8.encode s).take textLimit).length ≤ textLimit := List.length_take_le _ _
  have hlt : ((Utf8.encode s).take textLimit).length < 4294967296 :=
    Nat.lt_of_le_of_lt hle (by decide)
  have hwidth : (encode (.text s)).length = ColumnType.text.width := length_encode _
  rw [ColumnType.decode, if_neg (by omega)]
  simp only [encode, List.append_assoc]
  rw [List.take_append_of_le_length (by simp), List.take_of_length_le (by simp),
    Bytes.ofBigEndian_bigEndian, Nat.mod_eq_of_lt hlt, if_neg (Nat.not_lt.2 hle),
    List.drop_append_of_le_length (by simp), List.drop_of_length_le (by simp),
    List.nil_append, List.take_left]
  cases Utf8.decode ((Utf8.encode s).take textLimit) <;> rfl

/-- A text that is cut between two characters is read up to the cut. -/
theorem decode_encode_of_between {q : String} (h : p.utf8ByteSize = textLimit) :
    ColumnType.text.decode (encode (.text (p ++ q))) = .ok (.text p) := by
  rw [decode_encode_text, ← h, Utf8.take_encode_append, Utf8.decode_encode]
  rfl

/-- A text that is cut inside a character cannot be read, because of that character. -/
theorem decode_encode_of_inside (h : Utf8.EndsInside textLimit s p c) :
    ColumnType.text.decode (encode (.text s)) =
      .error (.notUtf8 (.cutShort p.utf8ByteSize)) := by
  rw [decode_encode_text, Utf8.decode_cut h]
  rfl

/-- A text that is too long is cut between two characters or inside one. -/
theorem TooLong.between_or_cutInside (h : f.TooLong) :
    (∃ p q, f = .text (p ++ q) ∧ p.utf8ByteSize = textLimit) ∨ f.CutInside := by
  cases f with
  | int value => cases h
  | text s =>
      obtain ⟨p, q, rfl, hp⟩ | ⟨p, c, hc⟩ := Utf8.exists_cut s textLimit (Nat.le_of_lt h)
      · exact .inl ⟨p, q, rfl, hp⟩
      · exact .inr ⟨s, p, c, rfl, hc⟩

/-- A value can be read from its stored form if and only if it is not cut inside a character. -/
theorem decode_encode_isOk_iff (f : Field) :
    (∃ g, f.type.decode f.encode = .ok g) ↔ ¬ f.CutInside := by
  constructor
  · rintro ⟨g, hg⟩ ⟨s, p, c, rfl, hc⟩
    rw [show (Field.text s).type = .text from rfl, decode_encode_of_inside hc] at hg
    cases hg
  · intro hcut
    by_cases hlong : f.TooLong
    · obtain ⟨p, q, rfl, hp⟩ | hinside := hlong.between_or_cutInside
      · exact ⟨_, decode_encode_of_between hp⟩
      · exact absurd hinside hcut
    · exact ⟨f, decode_encode hlong⟩

/-- What is read after a value was written into the front of a buffer.  The bytes of the buffer
after the value stay.  The value itself is read if it is a number or a text that is not too long.
Of a longer text the part before the limit is read if the limit is between two of its characters.
If the limit is inside a character nothing is read, and this character is the fault. -/
theorem written_then_read (f : Field) (buffer : Bytes) (h : f.type.width ≤ buffer.length) :
    ∃ written, f.writeTo? buffer = some written ∧ written.length = buffer.length ∧
      (∀ i, f.type.width ≤ i → written[i]? = buffer[i]?) ∧
      ((∃ g, f.type.decode written = .ok g) ↔ ¬ f.CutInside) ∧
      (¬ f.TooLong → f.type.decode written = .ok f) ∧
      (f.TooLong → ∀ g, f.type.decode written = .ok g →
        ∃ p q, f = .text (p ++ q) ∧ g = .text p ∧ p.utf8ByteSize = textLimit) ∧
      ∀ s p c, f = .text s → Utf8.EndsInside textLimit s p c →
        f.type.decode written = .error (.notUtf8 (.cutShort p.utf8ByteSize)) := by
  have hread : f.type.decode (Bytes.overwrite buffer 0 f.encode) = f.type.decode f.encode :=
    ColumnType.decode_append (Nat.le_of_eq f.length_encode.symm) _
  refine ⟨Bytes.overwrite buffer 0 f.encode, by rw [writeTo?, if_neg (by omega)], ?_, ?_, ?_, ?_,
    ?_, ?_⟩
  · rw [Bytes.length_overwrite (Nat.zero_le _), length_encode]
    omega
  · intro i hi
    exact Bytes.getElem?_overwrite_of_ge (Nat.zero_le _) (by rw [length_encode]; omega)
  · rw [hread]
    exact f.decode_encode_isOk_iff
  · intro hshort
    rw [hread, decode_encode hshort]
  · intro hlong g hg
    rw [hread] at hg
    obtain ⟨p, q, rfl, hp⟩ | hinside := hlong.between_or_cutInside
    · rw [show (Field.text (p ++ q)).type = .text from rfl, decode_encode_of_between hp] at hg
      cases hg
      exact ⟨p, q, rfl, rfl, hp⟩
    · exact absurd hinside (f.decode_encode_isOk_iff.1 ⟨g, hg⟩)
  · rintro s p c rfl hc
    rw [hread]
    exact decode_encode_of_inside hc

namespace Small

/-- A text of 127 characters of one byte. -/
def letters : String := String.ofList (List.replicate 127 'a')

/-- They are followed by a character of two bytes, so the limit is inside that character. -/
def overlong : Field := .text (letters ++ "é")

end Small

/-- The text is written over a buffer of 255s, and cannot be read from there. -/
theorem written_then_read_small :
    Small.overlong.type.width ≤ (List.replicate 132 (255 : UInt8)).length ∧
      ∃ written, Small.overlong.writeTo? (List.replicate 132 255) = some written ∧
        ColumnType.text.decode written = .error (.notUtf8 (.cutShort 127)) := by
  have hwidth : Small.overlong.type.width ≤ (List.replicate 132 (255 : UInt8)).length := by
    rw [List.length_replicate]
    decide
  have hsize : Small.letters.utf8ByteSize = 127 := by decide +kernel
  have hinside : Utf8.EndsInside textLimit (Small.letters ++ "é") Small.letters 'é' :=
    ⟨⟨"", by decide +kernel⟩, by rw [hsize]; decide, by rw [hsize]; decide⟩
  obtain ⟨written, hw, -, -, -, -, -, hlost⟩ := written_then_read Small.overlong _ hwidth
  refine ⟨hwidth, written, hw, ?_⟩
  rw [← hsize]
  exact hlost _ _ _ rfl hinside

end Field
end PagedStore

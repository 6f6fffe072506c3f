/-!
# Blanks, words, lines and pieces

The parts of a text that a table definition is read from.  A *blank* is a
character with the Unicode property White_Space.  All functions are by
structural recursion on the characters.

Cutting at a separator loses only the separators (`intercalate_pieces`), so a
text has one more piece than it has separators (`length_pieces`).
-/

namespace PagedStore.Text

/-! ## Blanks -/

/-- A character with the property White_Space. -/
def isBlank (c : Char) : Bool :=
  let n := c.toNat
  (9 ≤ n && n ≤ 13) || n = 0x20 || n = 0x85 || n = 0xa0 || n = 0x1680 ||
    (0x2000 ≤ n && n ≤ 0x200a) || n = 0x2028 || n = 0x2029 || n = 0x202f || n = 0x205f ||
    n = 0x3000

/-- The text without the blanks at its two ends. -/
def trim (cs : List Char) : List Char :=
  ((cs.dropWhile isBlank).reverse.dropWhile isBlank).reverse

/-! ## Cutting -/

/-- The parts of a text between the characters that `p` picks, empty parts
included. -/
def pieces (p : Char → Bool) : List Char → List (List Char)
  | [] => [[]]
  | c :: cs =>
      if p c then [] :: pieces p cs
      else
        match pieces p cs with
        | [] => [[c]]
        | l :: ls => (c :: l) :: ls

/-- The words of a text: its parts between blanks, without the empty ones. -/
def words (cs : List Char) : List (List Char) :=
  (pieces isBlank cs).filter fun w => !w.isEmpty

/-- The lines of a text.  Each line feed ends a line, so nothing after the last
one is a line only if it is empty. -/
def lines : List Char → List (List Char)
  | [] => []
  | c :: cs =>
      if c = '\n' then [] :: lines cs
      else
        match lines cs with
        | [] => [[c]]
        | l :: ls => (c :: l) :: ls

theorem pieces_ne_nil (p : Char → Bool) (cs : List Char) : pieces p cs ≠ [] := by
  cases cs with
  | nil => simp [pieces]
  | cons c cs =>
      rw [pieces]
      split
      · simp
      · split <;> simp

theorem length_pieces (p : Char → Bool) (cs : List Char) :
    (pieces p cs).length = cs.countP p + 1 := by
  induction cs with
  | nil => simp [pieces]
  | cons c cs ih =>
      rw [pieces]
      by_cases h : p c
      · simp [h, ih]
      · cases hp : pieces p cs with
        | nil => exact absurd hp (pieces_ne_nil p cs)
        | cons l ls =>
            rw [hp] at ih
            simpa [h] using ih

/-- The pieces at one separator, joined by it, are the text again. -/
theorem intercalate_pieces (s : Char) (cs : List Char) :
    List.intercalate [s] (pieces (· == s) cs) = cs := by
  induction cs with
  | nil => rfl
  | cons c cs ih =>
      rw [pieces]
      cases hp : pieces (· == s) cs with
      | nil => exact absurd hp (pieces_ne_nil _ cs)
      | cons l ls =>
          rw [hp] at ih
          by_cases h : c = s
          · subst h
            rw [if_pos (by simp)]
            simpa [List.intercalate] using ih
          · rw [if_neg (by simpa using h)]
            cases ls <;> simp_all [List.intercalate]

example : words "a\tint  pk".toList = ["a".toList, "int".toList, "pk".toList] := by decide

example : lines "a\n\nb\n".toList = ["a".toList, [], "b".toList] := by decide

end PagedStore.Text

import PagedStore.Text.Printable

/-!
# Quoted text

A text in double quotes, so that a message shows exactly which characters it
has.  A quote, a backslash and four controls have short escapes.  A character
that would not be seen on its own is given by its code point in hexadecimal.
Everything else stands for itself.
-/

namespace PagedStore.Text

/-- The escape of a character by its code point. -/
def codePoint (c : Char) : String :=
  "\\u\x7b" ++ String.ofList (Nat.toDigits 16 c.toNat) ++ "\x7d"

/-- A character as quoted text writes it. -/
def escape (c : Char) : String :=
  match c with
  | '\x00' => "\\0"
  | '\t' => "\\t"
  | '\n' => "\\n"
  | '\r' => "\\r"
  | '"' => "\\\""
  | '\\' => "\\\\"
  | c => if isPrintable c then c.toString else codePoint c

/-- A text in double quotes, with escapes. -/
def quoted (s : String) : String :=
  "\"" ++ String.join (s.toList.map escape) ++ "\""

end PagedStore.Text

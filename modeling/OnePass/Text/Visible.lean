import OnePass.Text.Basic

/-!
# Visible text

The visible form of a text is one line of printable ASCII: tab, return, newline, the two
quotes and the backslash are written with a backslash, and every other character outside
the printable ASCII range as its code in hexadecimal.
-/

namespace OnePass.Text

/-- The code of a character in lower-case hexadecimal, between braces. -/
def codeEscape (c : Char) : List Char :=
  ['\\', 'u', '\x7b'] ++ Nat.toDigits 16 c.toNat ++ ['\x7d']

/-- The visible form of one character. -/
def visibleChar (c : Char) : List Char :=
  match c with
  | '\t' => ['\\', 't']
  | '\r' => ['\\', 'r']
  | '\n' => ['\\', 'n']
  | '\'' => ['\\', '\'']
  | '"' => ['\\', '"']
  | '\\' => ['\\', '\\']
  | c => if ' ' ≤ c ∧ c ≤ '~' then [c] else codeEscape c

/-- The visible form of a text. -/
def visible (text : List Char) : List Char := text.flatMap visibleChar

end OnePass.Text

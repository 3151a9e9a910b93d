import OnePass.Text.Unprintable
import OnePass.Text.Visible

/-!
# Quoted text

The quoted form of a text stands between double quotes. The quote itself, the backslash,
tab, return, newline and the null character are written with a backslash, an unprintable
character as its code, and any other character as it is.
-/

namespace OnePass.Text

/-- The quoted form of one character. -/
def quotedChar (c : Char) : List Char :=
  match c with
  | '\x00' => ['\\', '0']
  | '\t' => ['\\', 't']
  | '\r' => ['\\', 'r']
  | '\n' => ['\\', 'n']
  | '"' => ['\\', '"']
  | '\\' => ['\\', '\\']
  | c =>
    if ' ' ≤ c ∧ c ≤ '~' then [c]
    else if isUnprintable c then codeEscape c
    else [c]

/-- The quoted form of a text. -/
def quoted (text : String) : String :=
  "\"" ++ String.ofList (text.toList.flatMap quotedChar) ++ "\""

/-- The quoted forms of some texts between brackets, with a comma and a blank between two. -/
def quotedList (texts : List String) : String :=
  "[" ++ String.intercalate ", " (texts.map quoted) ++ "]"

end OnePass.Text

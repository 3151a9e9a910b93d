/-!
# Escapes

Between the quotes of a literal a backslash and the character after it stand for one
character. `unescape` reads them; it refuses a character that has no meaning there.
-/

namespace OnePass.Lexicon

/-- A backslash before a character that has no meaning there. -/
structure EscapeError where
  /-- The byte offset of the backslash. -/
  offset : Nat
  found : Char
deriving DecidableEq

/-- The wording of the refusal. -/
def EscapeError.message (e : EscapeError) : String :=
  "invalid escape sequence '\\" ++ String.singleton e.found ++ "'"

/-- The character that stands for another after a backslash. -/
def escaped? : Char → Option Char
  | 'n' => some '\n'
  | 'r' => some '\r'
  | 't' => some '\t'
  | '0' => some '\x00'
  | '\\' => some '\\'
  | '\'' => some '\''
  | '"' => some '"'
  | _ => none

/-- Reads on at byte `offset`, after the characters in `taken` (latest first). A backslash at
the very end stands for itself. -/
def unescapeFrom (offset : Nat) (taken : List Char) :
    List Char → Except EscapeError (List Char)
  | [] => .ok taken.reverse
  | ['\\'] => .ok ('\\' :: taken).reverse
  | '\\' :: found :: rest =>
    match escaped? found with
    | some c => unescapeFrom (offset + 1 + found.utf8Size) (c :: taken) rest
    | none => .error ⟨offset, found⟩
  | c :: rest => unescapeFrom (offset + c.utf8Size) (c :: taken) rest

/-- The text that the inside of a literal stands for. -/
def unescape (text : List Char) : Except EscapeError (List Char) := unescapeFrom 0 [] text

end OnePass.Lexicon

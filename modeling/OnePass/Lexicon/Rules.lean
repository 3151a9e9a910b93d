import OnePass.Lexicon.Pattern
import OnePass.Token.Kind

/-!
# The lexicon

What the words of the language look like. Each rule pairs a pattern with what its texts
are: blanks, a comment, or a token of some kind. At any place the longest text wins
(`Lexicon.munch?`); of two rules with equally long texts the earlier one wins, which is why
the keywords stand before the names.
-/

namespace OnePass.Lexicon

/-- What a piece of the source is. -/
inductive Role where
  | blanks
  | comment
  | token (kind : TokenKind)
deriving DecidableEq

/-- The texts of `pattern` have the role `role`. -/
structure Rule where
  pattern : Pattern
  role : Role
deriving DecidableEq

/-! ## Character classes -/

/-- A decimal digit. -/
def digit : Pattern := .one (.within [('0', '9')])

/-- A character that a name may begin with. -/
def letter : Pattern := .one (.within [('a', 'z'), ('A', 'Z'), ('_', '_')])

/-- A character that a name may go on with. -/
def letterOrDigit : Pattern := .one (.within [('a', 'z'), ('A', 'Z'), ('_', '_'), ('0', '9')])

/-- A hexadecimal digit of either case. -/
def hexDigit : Pattern := .one (.within [('0', '9'), ('a', 'f'), ('A', 'F')])

/-- Any character that stays on the line. -/
def onLine : Pattern := .one (.noneOf ['\n'])

/-- One of some characters. -/
def anyOf (chars : List Char) : Pattern := .one (.oneOf chars)

/-! ## Literals -/

/-- Decimal digits, at least one. -/
def digits : Pattern := digit.oneOrMore

/-- An `e` of either case, a sign that may be absent, and digits. -/
def exponent : Pattern :=
  .followed (anyOf ['e', 'E']) (.followed (anyOf ['+', '-']).optional digits)

/-- Digits around a point, with some on one of its sides, and an exponent or none. -/
def floatLiteral : Pattern :=
  .followed
    (.either (.followed digits (.followed (anyOf ['.']) (.many digit)))
      (.followed (anyOf ['.']) digits))
    exponent.optional

/-- Digits of radix two after their mark. -/
def binaryLiteral : Pattern :=
  .followed (.exactly "0b") (anyOf ['0', '1']).oneOrMore

/-- Digits of radix sixteen after their mark. -/
def hexLiteral : Pattern :=
  .followed (.exactly "0x") hexDigit.oneOrMore

/-- One element between quotes: a character that is not special, or a backslash and the
character after it. -/
def quotedElement (quote : Char) : Pattern :=
  .either (.one (.noneOf [quote, '\\', '\n'])) (.followed (anyOf ['\\']) onLine)

/-- A quote and elements after it, not closed. -/
def openLiteral (quote : Char) : Pattern :=
  .followed (anyOf [quote]) (.many (quotedElement quote))

/-- Elements between two quotes. -/
def quotedLiteral (quote : Char) : Pattern :=
  .followed (anyOf [quote]) (.followed (.many (quotedElement quote)) (anyOf [quote]))

/-! ## The rules -/

/-- The kinds whose tokens all have one text, with that text. -/
def fixedWords : List (String × TokenKind) :=
  [("\n", .newline),
   ("struct", .structWord), ("enum", .enumWord), ("union", .unionWord), ("break", .breakWord),
   ("case", .caseWord), ("continue", .continueWord), ("else", .elseWord), ("for", .forWord),
   ("if", .ifWord), ("return", .returnWord), ("switch", .switchWord), ("in", .inWord),
   ("and", .andWord), ("&&", .andWord), ("or", .orWord), ("||", .orWord),
   ("++", .increment), ("--", .decrement), ("(", .openParen), (")", .closeParen),
   ("\x7b", .openBrace), ("\x7d", .closeBrace), ("[", .openBracket), ("]", .closeBracket),
   ("::", .declare), (":", .define), ("=", .assign), ("->", .arrow), ("!", .bang),
   ("+", .plus), ("-", .minus), ("*", .star), ("/", .slash), ("%", .percent), ("~", .tilde),
   ("&", .ampersand), ("|", .bar), ("^", .caret), ("<<", .shiftLeft), (">>", .shiftRight),
   ("==", .equal), ("!=", .notEqual), ("<", .less), (">", .greater), ("<=", .lessEqual),
   (">=", .greaterEqual), (".", .dot), (",", .comma), (";", .semicolon)]

/-- The kinds whose tokens share a form, with that form. -/
def formedWords : List (Pattern × TokenKind) :=
  [(.followed letter (.many letterOrDigit), .name),
   (floatLiteral, .float), (digits, .decimal), (binaryLiteral, .binary),
   (hexLiteral, .hexadecimal), (quotedLiteral '"', .text), (quotedLiteral '\'', .character)]

/-- All rules, earlier ones first. -/
def rules : List Rule :=
  [⟨(anyOf [' ', '\t', '\r']).oneOrMore, .blanks⟩,
   ⟨.followed (.exactly "//") (.many onLine), .comment⟩]
    ++ fixedWords.map (fun (text, kind) => ⟨.exactly text, .token kind⟩)
    ++ formedWords.map (fun (pattern, kind) => ⟨pattern, .token kind⟩)

/-- The better of two findings: the longer one, and the earlier one of equal length. -/
def better (found : Option (Nat × Role)) (length : Nat) (role : Role) : Option (Nat × Role) :=
  match found with
  | some (best, _) => if best < length then some (length, role) else found
  | none => some (length, role)

/-- Length and role of the longest start of `text` that a rule describes. -/
def munch? (text : List Char) : Option (Nat × Role) :=
  rules.foldl
    (fun found rule =>
      match rule.pattern.longest? text with
      | some length => better found length rule.role
      | none => found)
    none

/-- Length of the piece to blame at the start of a text where no rule applies: an open quote
with all elements after it, or else one character. -/
def blamed (text : List Char) : Nat :=
  match (openLiteral '"').longest? text, (openLiteral '\'').longest? text with
  | some length, _ => length
  | none, some length => length
  | none, none => 1

end OnePass.Lexicon

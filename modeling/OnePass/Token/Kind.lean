/-!
# Token kinds

The kinds of token there are, in the order in which sets of them are listed. Each kind
has a printable name: the text itself where all tokens of the kind have the same text, and
a word between angle brackets otherwise.
-/

namespace OnePass

/-- The kinds of token. -/
inductive TokenKind where
  | newline | eof | structWord | enumWord | unionWord | breakWord | caseWord | continueWord
  | elseWord | forWord | ifWord | returnWord | switchWord | inWord | andWord | orWord | name
  | float | decimal | binary | hexadecimal | text | character | increment | decrement | openParen
  | closeParen | openBrace | closeBrace | openBracket | closeBracket | declare | define | assign
  | arrow | bang | plus | minus | star | slash | percent | tilde | ampersand | bar | caret
  | shiftLeft | shiftRight | equal | notEqual | less | greater | lessEqual | greaterEqual | dot
  | comma | semicolon
deriving DecidableEq, Inhabited

namespace TokenKind

/-- All kinds, in order. -/
def all : List TokenKind := [
  .newline, .eof, .structWord, .enumWord, .unionWord, .breakWord, .caseWord, .continueWord,
  .elseWord, .forWord, .ifWord, .returnWord, .switchWord, .inWord, .andWord, .orWord, .name,
  .float, .decimal, .binary, .hexadecimal, .text, .character, .increment, .decrement, .openParen,
  .closeParen, .openBrace, .closeBrace, .openBracket, .closeBracket, .declare, .define, .assign,
  .arrow, .bang, .plus, .minus, .star, .slash, .percent, .tilde, .ampersand, .bar, .caret,
  .shiftLeft, .shiftRight, .equal, .notEqual, .less, .greater, .lessEqual, .greaterEqual, .dot,
  .comma, .semicolon]

/-- The place of a kind in the order. -/
def index (k : TokenKind) : Nat := k.ctorIdx

/-- The printable name of a kind. -/
def label : TokenKind → String
  | .newline => "<NewLine>"
  | .eof => "<Eof>"
  | .structWord => "struct"
  | .enumWord => "enum"
  | .unionWord => "union"
  | .breakWord => "break"
  | .caseWord => "case"
  | .continueWord => "continue"
  | .elseWord => "else"
  | .forWord => "for"
  | .ifWord => "if"
  | .returnWord => "return"
  | .switchWord => "switch"
  | .inWord => "in"
  | .andWord => "and"
  | .orWord => "or"
  | .name => "<Id>"
  | .float => "<Float>"
  | .decimal => "<Int_Dec>"
  | .binary => "<Int_Bin>"
  | .hexadecimal => "<Int_Hex>"
  | .text => "<Str>"
  | .character => "<Char>"
  | .increment => "++"
  | .decrement => "--"
  | .openParen => "("
  | .closeParen => ")"
  | .openBrace => "\x7b"
  | .closeBrace => "\x7d"
  | .openBracket => "["
  | .closeBracket => "]"
  | .declare => "::"
  | .define => ":"
  | .assign => "="
  | .arrow => "->"
  | .bang => "!"
  | .plus => "+"
  | .minus => "-"
  | .star => "*"
  | .slash => "/"
  | .percent => "%"
  | .tilde => "~"
  | .ampersand => "&"
  | .bar => "|"
  | .caret => "^"
  | .shiftLeft => "<<"
  | .shiftRight => ">>"
  | .equal => "=="
  | .notEqual => "!="
  | .less => "<"
  | .greater => ">"
  | .lessEqual => "<="
  | .greaterEqual => ">="
  | .dot => "."
  | .comma => ","
  | .semicolon => ";"

theorem all_getElem?_index (k : TokenKind) : all[k.index]? = some k := by
  cases k <;> rfl

theorem mem_all (k : TokenKind) : k ∈ all :=
  List.mem_of_getElem? (all_getElem?_index k)

theorem index_lt (k : TokenKind) : k.index < 56 := by
  cases k <;> decide

theorem index_injective {a b : TokenKind} (h : a.index = b.index) : a = b :=
  Option.some.inj ((all_getElem?_index a).symm.trans (h ▸ all_getElem?_index b))

end TokenKind

end OnePass

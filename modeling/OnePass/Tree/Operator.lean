import OnePass.Token.Kind

/-!
# Operators

The operators of the language, with the token that stands for each and the symbol that it
is printed as. The logical connectives have a word and a symbol each; they are printed as
the symbol.
-/

namespace OnePass

/-- Operators on one operand. -/
inductive UnaryOp where
  | plus | negate | not | complement | increment | decrement
deriving DecidableEq, Inhabited

namespace UnaryOp

/-- The operator that a token stands for. -/
def ofToken? : TokenKind → Option UnaryOp
  | .plus => some .plus
  | .minus => some .negate
  | .bang => some .not
  | .tilde => some .complement
  | .increment => some .increment
  | .decrement => some .decrement
  | _ => none

/-- How the operator is printed. -/
def symbol : UnaryOp → String
  | .plus => "+"
  | .negate => "-"
  | .not => "!"
  | .complement => "~"
  | .increment => "++"
  | .decrement => "--"

end UnaryOp

/-- On which side of its operand a unary operator stands. -/
inductive Side where
  | before | after
deriving DecidableEq, Inhabited

/-- The word for a side. -/
def Side.label : Side → String
  | .before => "prev"
  | .after => "post"

/-- The families of operators on two operands, by what they ask of these. -/
inductive OpFamily where
  | assign | arithmetic | logic
deriving DecidableEq, Inhabited

/-- Operators on two operands. -/
inductive BinaryOp where
  | assign
  | and | or
  | add | sub | mul | div | mod
  | bitAnd | bitOr | bitXor
  | shiftLeft | shiftRight
  | equal | notEqual | less | lessEqual | greater | greaterEqual
deriving DecidableEq, Inhabited

namespace BinaryOp

/-- The operator that a token stands for. -/
def ofToken? : TokenKind → Option BinaryOp
  | .assign => some .assign
  | .andWord => some .and
  | .orWord => some .or
  | .plus => some .add
  | .minus => some .sub
  | .star => some .mul
  | .slash => some .div
  | .percent => some .mod
  | .ampersand => some .bitAnd
  | .bar => some .bitOr
  | .caret => some .bitXor
  | .shiftLeft => some .shiftLeft
  | .shiftRight => some .shiftRight
  | .equal => some .equal
  | .notEqual => some .notEqual
  | .less => some .less
  | .lessEqual => some .lessEqual
  | .greater => some .greater
  | .greaterEqual => some .greaterEqual
  | _ => none

/-- The family of an operator. -/
def family : BinaryOp → OpFamily
  | .assign => .assign
  | .add | .sub | .mul | .div | .mod => .arithmetic
  | .bitAnd | .bitOr | .bitXor | .shiftLeft | .shiftRight => .arithmetic
  | .and | .or => .logic
  | .equal | .notEqual | .less | .lessEqual | .greater | .greaterEqual => .logic

/-- How the operator is printed. -/
def symbol : BinaryOp → String
  | .assign => "="
  | .and => "&&"
  | .or => "||"
  | .add => "+"
  | .sub => "-"
  | .mul => "*"
  | .div => "/"
  | .mod => "%"
  | .bitAnd => "&"
  | .bitOr => "|"
  | .bitXor => "^"
  | .shiftLeft => "<<"
  | .shiftRight => ">>"
  | .equal => "=="
  | .notEqual => "!="
  | .less => "<"
  | .lessEqual => "<="
  | .greater => ">"
  | .greaterEqual => ">="

end BinaryOp

/-- How a definition is written: `::` defines a constant and `:` a variable. -/
inductive DefOp where
  | constant | variable
deriving DecidableEq, Inhabited

/-- How the symbol of a definition is written. -/
def DefOp.symbol : DefOp → String
  | .constant => "::"
  | .variable => ":"

/-- The two forms of record. -/
inductive RecordForm where
  | struct | enum
deriving DecidableEq, Inhabited

/-- The keyword of a form. -/
def RecordForm.keyword : RecordForm → String
  | .struct => "struct"
  | .enum => "enum"

end OnePass

import OnePass.Grammar.State
import OnePass.Lexicon.Escape

/-!
# Operands of one token

Literals and names. A whole number takes four bytes if it fits into them and eight otherwise,
and a float takes four if it is within the range of the four-byte format. A character
literal stands for exactly one byte.
-/

namespace OnePass.Grammar

/-- The inside of a quoted literal. -/
def insideQuotes (literal : String) : List Char := (literal.toList.drop 1).dropLast

/-- The text that a quoted literal stands for. -/
def quotedValue (token : Token) : Parse (List Char) :=
  match Lexicon.unescape (insideQuotes token.text) with
  | .ok text => return text
  | .error e => fail (.badEscape e.found) token.span

/-- Reads a character literal. -/
def character (token : Token) : Parse ExprId := do
  match ← quotedValue token with
  | [] => fail .emptyCharacter token.span
  | [c] =>
    if c.utf8Size = 1 then push (.char (UInt8.ofNat c.toNat)) token.span
    else fail .wideCharacter token.span
  | _ => fail .wideCharacter token.span

/-- Reads a text literal. -/
def textLiteral (token : Token) : Parse ExprId := do
  push (.text (String.ofList (← quotedValue token))) token.span

/-- The digits after a zero and the letter of a radix, which may be in upper case. -/
def afterRadixMark (letter : Char) (text : List Char) : List Char :=
  match text with
  | '0' :: mark :: digits => if mark = letter ∨ mark = letter.toUpper then digits else text
  | _ => text

/-- The radix of the digits of a whole number, and the digits. -/
def digitsOf (token : Token) : Nat × List Char :=
  match token.kind with
  | .binary => (2, afterRadixMark 'b' token.text.toList)
  | .hexadecimal => (16, afterRadixMark 'x' token.text.toList)
  | _ => (10, token.text.toList)

/-- Bytes that a whole number takes. -/
def intSize (value : Nat) : Nat := if value < UInt32.size then 4 else 8

/-- Reads a whole number, which has to fit into 64 bits. -/
def integer (token : Token) : Parse ExprId := do
  let (radix, digits) := digitsOf token
  match Number.digitsValue? radix digits with
  | some value =>
    if value < UInt64.size then push (.int value (intSize value)) token.span
    else fail .badInteger token.span
  | none => fail .badInteger token.span

/-- Bytes that a float takes. -/
def floatSize (value : Number.Binary64) : Nat := if value.exceedsSingle then 8 else 4

/-- Reads a float, as the number nearest to what is written. -/
def float (token : Token) : Parse ExprId := do
  match Number.Decimal.ofText? token.text.toList with
  | some decimal =>
    let value := Number.Binary64.ofDecimal decimal
    push (.float value (floatSize value)) token.span
  | none => fail .badFloat token.span

/-- The entity that a name stands for. -/
def resolve (name : Token) : Parse EntityId := do
  match (← get).tree.find? name.text with
  | some entity => return entity
  | none => fail (.unknownName name.text) name.span

/-- Reads the use of a name. -/
def nameUse (name : Token) : Parse ExprId := do
  push (.name name.text (some (← resolve name))) name.span

/-- Reads a name that stands for a type, which `after` calls for. -/
def typeName (after : Token) : Parse EntityId := do
  match ← accept? {.name} with
  | none => fail (.noTypeAfter after.text) (← current).span
  | some name =>
    let entity ← resolve name
    if (← entityOf entity).isType then return entity
    else fail (.notAType name.text) name.span

end OnePass.Grammar

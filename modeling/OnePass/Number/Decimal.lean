import OnePass.Number.Digits

/-!
# Decimal numbers

A decimal is a whole number times a power of ten. `Decimal.ofText?` reads digits with an
optional point among them and an optional power of ten after an `e`.
-/

namespace OnePass.Number

/-- The number `coefficient * 10 ^ exponent`. -/
structure Decimal where
  coefficient : Nat
  exponent : Int
deriving DecidableEq

namespace Decimal

/-- The power of ten written after the coefficient; an absent one is zero. -/
def exponentOf? : List Char → Option Int
  | [] => some 0
  | c :: rest =>
    if c = 'e' ∨ c = 'E' then
      match rest with
      | '-' :: digits => (digitsValue? 10 digits).map fun n => -(n : Int)
      | '+' :: digits => (digitsValue? 10 digits).map fun n => (n : Int)
      | digits => (digitsValue? 10 digits).map fun n => (n : Int)
    else none

/-- The decimal with digits `whole` before its point and `fraction` after it. -/
def ofParts? (whole fraction : List Char) (exponent : Int) : Option Decimal :=
  (digitsValue? 10 (whole ++ fraction)).map fun n => ⟨n, exponent - fraction.length⟩

/-- Reads a decimal: digits, a point and an exponent; the last two may be absent, and the
point may stand at either end of the digits. -/
def ofText? (text : List Char) : Option Decimal :=
  let whole := text.takeWhile Char.isDigit
  match text.dropWhile Char.isDigit with
  | '.' :: rest =>
    (exponentOf? (rest.dropWhile Char.isDigit)).bind
      (ofParts? whole (rest.takeWhile Char.isDigit))
  | rest => (exponentOf? rest).bind (ofParts? whole [])

end Decimal

end OnePass.Number

/-!
# Digits

Numbers written in a radix. `digitsValue?` reads digits of either case and accepts exactly
the texts that consist of digits of the radix, of which there has to be one.
-/

namespace OnePass.Number

/-- The value of a digit: `0` to `9`, then the letters in either case. -/
def digitValue? (c : Char) : Option Nat :=
  if '0' ≤ c ∧ c ≤ '9' then some (c.toNat - '0'.toNat)
  else if 'a' ≤ c ∧ c ≤ 'z' then some (c.toNat - 'a'.toNat + 10)
  else if 'A' ≤ c ∧ c ≤ 'Z' then some (c.toNat - 'A'.toNat + 10)
  else none

/-- The number that `digits` continue after `value`. -/
def digitsFrom? (radix : Nat) (value : Nat) : List Char → Option Nat
  | [] => some value
  | c :: rest =>
    match digitValue? c with
    | some d => if d < radix then digitsFrom? radix (value * radix + d) rest else none
    | none => none

/-- The number that `digits` denote in `radix`. -/
def digitsValue? (radix : Nat) (digits : List Char) : Option Nat :=
  if digits.isEmpty then none else digitsFrom? radix 0 digits

/-- `value` in `radix`, filled with zeros on the left up to `width` digits. -/
def padded (radix width value : Nat) : List Char :=
  let digits := Nat.toDigits radix value
  List.replicate (width - digits.length) '0' ++ digits

end OnePass.Number

import OnePass.Number.Decimal

/-!
# Binary floating point numbers of 64 bits

A number is its bits: a sign, an exponent of 11 bits and a fraction of 52 bits. All
arithmetic here is exact arithmetic on whole numbers, rounded once: `ofDecimal` gives the
number nearest to a decimal, and `toFixed` the nearest decimal with a fixed number of
places. Of two nearest candidates both take the even one.
-/

namespace OnePass.Number

/-- `numerator / denominator` as a whole number, rounded to nearest, ties to even. -/
def roundQuotient (numerator denominator : Nat) : Nat :=
  let quotient := numerator / denominator
  let rest := 2 * (numerator % denominator)
  if rest < denominator then quotient
  else if denominator < rest then quotient + 1
  else quotient + quotient % 2

/-- A floating point number, given by its bits. -/
structure Binary64 where
  bits : BitVec 64
deriving DecidableEq, Inhabited

namespace Binary64

/-- The leading bit of a significand, which the fraction leaves out. -/
def leadingBit : Nat := 1 <<< 52

/-- The bit that is set in negative numbers. -/
def signBit : Nat := 1 <<< 63

/-- Bits of positive infinity. -/
def infinityBits : Nat := 0x7ff * leadingBit

/-- Positive infinity. -/
def infinity : Binary64 := ⟨BitVec.ofNat 64 infinityBits⟩

/-- Positive zero. -/
def zero : Binary64 := ⟨0⟩

/-- Whether the sign is set. -/
def isNegative (x : Binary64) : Bool := signBit ≤ x.bits.toNat

/-- The bits without the sign; on numbers without a sign they are ordered as the numbers. -/
def magnitude (x : Binary64) : Nat := x.bits.toNat % signBit

/-- The whole number by which a power of two is multiplied. -/
def significand (x : Binary64) : Nat :=
  let exponent := x.magnitude / leadingBit
  let fraction := x.magnitude % leadingBit
  if exponent = 0 then fraction else leadingBit + fraction

/-- The power of two by which the significand is multiplied. -/
def scale (x : Binary64) : Int :=
  (max (x.magnitude / leadingBit) 1 : Nat) - 1075

/-- `numerator * 2 ^ (-scale) / denominator` as a fraction of whole numbers. -/
def scaledDown (numerator denominator : Nat) (scale : Int) : Nat × Nat :=
  if scale < 0 then (numerator <<< scale.natAbs, denominator)
  else (numerator, denominator <<< scale.natAbs)

/-- The power of two that leaves `numerator / denominator` a significand of 53 bits, or the
smallest power there is. -/
def scaleFor (numerator denominator : Nat) : Int :=
  let guess := (Nat.log2 numerator : Int) - Nat.log2 denominator - 53
  let (n, d) := scaledDown numerator denominator guess
  max (if n / d < 2 * leadingBit then guess else guess + 1) (-1074)

/-- The number nearest to a positive fraction. -/
def ofFraction (numerator denominator : Nat) : Binary64 :=
  let scale := scaleFor numerator denominator
  let (n, d) := scaledDown numerator denominator scale
  ⟨BitVec.ofNat 64 (min ((scale + 1074).toNat * leadingBit + roundQuotient n d) infinityBits)⟩

/-- The number nearest to a decimal. Decimals far beyond the largest or below the smallest
number are told by their number of digits alone. -/
def ofDecimal (d : Decimal) : Binary64 :=
  let order := (Nat.toDigits 10 d.coefficient).length + d.exponent
  if d.coefficient = 0 ∨ order < -330 then zero
  else if 330 < order then infinity
  else if d.exponent < 0 then ofFraction d.coefficient (Nat.pow 10 d.exponent.natAbs)
  else ofFraction (d.coefficient * Nat.pow 10 d.exponent.natAbs) 1

/-- The largest number of the 32-bit format. -/
def largestSingle : Binary64 := ⟨0x47efffffe0000000#64⟩

/-- Whether a number without a sign is above the 32-bit format. -/
def exceedsSingle (x : Binary64) : Bool :=
  largestSingle.magnitude < x.magnitude && x.magnitude ≤ infinityBits && !x.isNegative

/-- The nearest multiple of `10 ^ -places` to the magnitude, as a whole number of such
steps. -/
def steps (places : Nat) (x : Binary64) : Nat :=
  if x.scale < 0 then roundQuotient (x.significand * Nat.pow 10 places) (1 <<< x.scale.natAbs)
  else (x.significand * Nat.pow 10 places) <<< x.scale.natAbs

/-- Decimal text with exactly `places` digits after the point, the sign of a negative number
kept when it rounds to zero. -/
def toFixed (places : Nat) (x : Binary64) : String :=
  if infinityBits < x.magnitude then "NaN"
  else
    let sign := if x.isNegative then "-" else ""
    if x.magnitude = infinityBits then sign ++ "inf"
    else
      let digits := padded 10 (places + 1) (x.steps places)
      let whole := digits.length - places
      sign ++ String.ofList (digits.take whole) ++ "." ++ String.ofList (digits.drop whole)

end Binary64

end OnePass.Number

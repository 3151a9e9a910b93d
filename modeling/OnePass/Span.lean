/-!
# Spans

A span is a half-open range of byte offsets into a source. Offsets are below `2 ^ 32`:
`Span.ofRange` refuses any other range and names the first offset that is too large.
-/

namespace OnePass

/-- The bytes from `start` up to, and not including, `stop`. -/
structure Span where
  start : Nat
  stop : Nat
deriving DecidableEq, Inhabited

/-- An offset that no span can hold. -/
structure OffsetTooLarge where
  offset : Nat
deriving DecidableEq

namespace Span

/-- Offsets lie below this bound. -/
def offsetLimit : Nat := UInt32.size

/-- The span of a range; the start is looked at first. -/
def ofRange (start stop : Nat) : Except OffsetTooLarge Span :=
  if start ≥ offsetLimit then .error ⟨start⟩
  else if stop ≥ offsetLimit then .error ⟨stop⟩
  else .ok ⟨start, stop⟩

/-- Number of bytes in the span. -/
def length (s : Span) : Nat := s.stop - s.start

/-- A span that holds no byte. -/
def isEmpty (s : Span) : Bool := s.start == s.stop

/-- The smallest span that covers both. -/
def merge (a b : Span) : Span := ⟨min a.start b.start, max a.stop b.stop⟩

/-- The two offsets with two points between them. -/
def toText (s : Span) : String := s!"{s.start}..{s.stop}"

end Span

/-- The wording of the refusal. -/
def OffsetTooLarge.message (e : OffsetTooLarge) : String :=
  s!"source offset {e.offset} exceeds u32::MAX"

end OnePass

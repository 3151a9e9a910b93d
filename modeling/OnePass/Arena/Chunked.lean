/-!
# Arenas that grow in chunks

An arena without a limit keeps its values in chunks of one size. A new chunk is begun when
the last one is full, so a place is found by division: the quotient by the chunk size names
the chunk and the remainder the slot in it.
-/

namespace OnePass

/-- Values at the places `0, 1, …`, kept in chunks of `chunk` values. -/
structure ChunkedArena (α : Type) (chunk : Nat) where
  chunks : Array (Array α)
  size : Nat
deriving DecidableEq

namespace ChunkedArena

variable {α : Type} {chunk : Nat}

/-- The arena without values. -/
def empty : ChunkedArena α chunk := ⟨#[], 0⟩

instance : Inhabited (ChunkedArena α chunk) := ⟨empty⟩

/-- Puts a value behind the others, into a new chunk if the last one is full, and answers
its place. -/
def push (a : ChunkedArena α chunk) (x : α) : Nat × ChunkedArena α chunk :=
  let room : Bool := a.chunks.back?.any (·.size < chunk)
  let chunks :=
    if room then a.chunks.modify (a.chunks.size - 1) (·.push x) else a.chunks.push #[x]
  (a.size, ⟨chunks, a.size + 1⟩)

/-- The value at a place. -/
def get? (a : ChunkedArena α chunk) (place : Nat) : Option α :=
  (a.chunks[place / chunk]?).bind (·[place % chunk]?)

/-- Writes the value at a place that has one. -/
def set (a : ChunkedArena α chunk) (place : Nat) (x : α) : ChunkedArena α chunk :=
  { a with chunks := a.chunks.modify (place / chunk) (·.setIfInBounds (place % chunk) x) }

/-- The first value. -/
def front? (a : ChunkedArena α chunk) : Option α := (a.chunks[0]?).bind (·[0]?)

/-- The last value. -/
def back? (a : ChunkedArena α chunk) : Option α := a.chunks.back?.bind Array.back?

/-- Number of chunks. -/
def chunkCount (a : ChunkedArena α chunk) : Nat := a.chunks.size

/-- The values in the order of their places. -/
def toList (a : ChunkedArena α chunk) : List α := (a.chunks.toList.map Array.toList).flatten

/-- The values with their places, in order. -/
def enumerate (a : ChunkedArena α chunk) : List (Nat × α) :=
  a.toList.zipIdx.map fun (x, place) => (place, x)

end ChunkedArena

end OnePass

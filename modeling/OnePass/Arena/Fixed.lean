/-!
# Arenas of fixed capacity

An arena hands out places: pushing a value answers the place where it is kept. One of fixed
capacity never holds more than that, which its type says; pushing onto a full one and
popping from an empty one are refused.
-/

namespace OnePass

/-- What an arena of fixed capacity refuses. -/
inductive ArenaError where
  | full (capacity : Nat)
  | empty
deriving DecidableEq

/-- The wording of a refusal. -/
def ArenaError.message : ArenaError → String
  | .full capacity => s!"capacity exceeded (capacity: {capacity})"
  | .empty => "cannot pop from an empty arena"

/-- Values at the places `0, 1, …`, at most `capacity` of them. -/
structure FixedArena (α : Type) (capacity : Nat) where
  items : Array α
  size_le : items.size ≤ capacity
deriving DecidableEq

namespace FixedArena

variable {α : Type} {capacity : Nat}

/-- The arena without values. -/
def empty : FixedArena α capacity := ⟨#[], Nat.zero_le _⟩

instance : Inhabited (FixedArena α capacity) := ⟨empty⟩

/-- Number of values. -/
def size (a : FixedArena α capacity) : Nat := a.items.size

/-- Puts a value behind the others and answers its place. -/
def push (a : FixedArena α capacity) (x : α) : Except ArenaError (Nat × FixedArena α capacity) :=
  if h : a.items.size < capacity then
    .ok (a.items.size, ⟨a.items.push x, by rw [Array.size_push]; exact h⟩)
  else .error (.full capacity)

/-- Takes the last value off. -/
def pop (a : FixedArena α capacity) : Except ArenaError (α × FixedArena α capacity) :=
  match a.items.back? with
  | some x =>
    .ok (x, ⟨a.items.pop, by rw [Array.size_pop]; exact Nat.le_trans (Nat.sub_le _ _) a.size_le⟩)
  | none => .error .empty

/-- Pushes the values of a list in order. -/
def pushAll (a : FixedArena α capacity) : List α → Except ArenaError (FixedArena α capacity)
  | [] => .ok a
  | x :: rest =>
    match a.push x with
    | .ok (_, a) => a.pushAll rest
    | .error e => .error e

/-- The arena of a list of values. -/
def ofList (xs : List α) : Except ArenaError (FixedArena α capacity) := empty.pushAll xs

/-- The value at a place. -/
def get? (a : FixedArena α capacity) (place : Nat) : Option α := a.items[place]?

/-- Writes the value at a place that has one. -/
def set (a : FixedArena α capacity) (place : Nat) (x : α) : FixedArena α capacity :=
  ⟨a.items.setIfInBounds place x, by rw [Array.size_setIfInBounds]; exact a.size_le⟩

/-- The first value. -/
def front? (a : FixedArena α capacity) : Option α := a.items[0]?

/-- The last value. -/
def back? (a : FixedArena α capacity) : Option α := a.items.back?

/-- The values in the order of their places. -/
def toList (a : FixedArena α capacity) : List α := a.items.toList

end FixedArena

end OnePass

import OnePass.Types.Typing

/-!
# Casts

How well a value of one type converts into another. Atomic types of one reading convert by
size; other types convert only into types of the same structure, functions by parameters and
result and records by the variables among their members, whatever the names are.
-/

namespace OnePass

/-- How a value of one type converts into another, better ways first. -/
inductive Cast where
  | same
  /-- Into a larger atomic type. -/
  | widened
  /-- Into a smaller atomic type. -/
  | narrowed
  /-- Into an atomic type that reads its bits in another way. -/
  | reread
  /-- Not at all. -/
  | impossible
deriving DecidableEq, Inhabited

namespace Cast

/-- The word for a way of conversion. -/
def label : Cast → String
  | .same => "same"
  | .widened => "inferred"
  | .narrowed => "narrowed"
  | .reread => "transmuted"
  | .impossible => "error"

/-- Whether a value converts without being told to. -/
def isImplicit : Cast → Bool
  | .same | .widened | .narrowed => true
  | .reread | .impossible => false

/-- Between atomic types. -/
def ofAtoms (source target : Atom) : Cast :=
  if source.reading.dominant ≠ target.reading.dominant then .reread
  else if target.size < source.size then .narrowed
  else if source.size < target.size then .widened
  else .same

/-- Between types that are the same or not convertible. -/
def ofSame (same : Bool) : Cast := if same then .same else .impossible

end Cast

namespace Tree

/-- Whether `cast` finds all pairs the same; it is asked no further after one that is not. -/
def allSame? (cast : EntityId → EntityId → Option Cast) :
    List (EntityId × EntityId) → Option Bool
  | [] => some true
  | (a, b) :: rest => do
    if (← cast a b) = .same then allSame? cast rest else return false

/-- Whether two lists are equally long and `cast` finds their members the same in order. -/
def listsSame? (cast : EntityId → EntityId → Option Cast) (as bs : List EntityId) :
    Option Bool :=
  if as.length = bs.length then allSame? cast (as.zip bs) else some false

/-- How `source` converts into `target`, with at most `steps` steps into their structure. -/
def castWithin? (t : Tree) : Nat → EntityId → EntityId → Option Cast
  | 0, _, _ => none
  | steps + 1, source, target => do
    let source ← t.entityType? source
    let target ← t.entityType? target
    if source = target then return .same
    match (← t.entity? source).kind, (← t.entity? target).kind with
    | .void, .void => return .same
    | .atom a, .atom b => return .ofAtoms a b
    | .function params result, .function params' result' =>
      if params.length ≠ params'.length then return .impossible
      if (← t.castWithin? steps result result') ≠ .same then return .impossible
      return .ofSame (← listsSame? (t.castWithin? steps) params params')
    | .struct a, .struct b =>
      return .ofSame (← listsSame? (t.castWithin? steps) (← t.variables? a) (← t.variables? b))
    | .enum a, .enum b =>
      return .ofSame (← listsSame? (t.castWithin? steps) (← t.variables? a) (← t.variables? b))
    | _, _ => return .impossible

/-- How `source` converts into `target`. A comparison that ends never comes to one pair of
entities twice, so as many steps as there are pairs are enough for it. -/
def cast? (t : Tree) (source target : EntityId) : Option Cast :=
  t.castWithin? (t.entities.size * t.entities.size + 1) source target

end Tree

end OnePass

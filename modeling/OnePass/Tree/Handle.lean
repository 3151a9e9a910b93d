/-!
# Handles

Expressions, entities and frames refer to each other by handles: the place of the thing in
the arena of its sort. The three sorts of handle are three types, so that none is taken for
another.
-/

namespace OnePass

/-- The place of an expression. -/
structure ExprId where
  index : Nat
deriving DecidableEq, Inhabited

/-- The place of an entity. -/
structure EntityId where
  index : Nat
deriving DecidableEq, Inhabited

/-- The place of a frame. -/
structure FrameId where
  index : Nat
deriving DecidableEq, Inhabited

end OnePass

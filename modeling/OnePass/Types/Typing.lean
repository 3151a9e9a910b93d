import OnePass.Types.Builtin

/-!
# Types of entities and expressions

A variable has the type it was declared with, and any other entity is its own type
(`Tree.entityType?`). The type of an expression is read off its node (`Tree.exprType?`): an
operator has kept its type, parentheses have the type of what they hold, a literal has the
built-in type of its size, and a construct without a value has the type `void`. There is
no answer for a handle that the tree does not have.
-/

namespace OnePass.Tree

/-- The type that an entity denotes. -/
def entityType? (t : Tree) (id : EntityId) : Option EntityId := do
  let entity ← t.entity? id
  match entity.kind with
  | .var type _ _ => return type
  | _ => return id

/-- The name of the type that an entity denotes. -/
def typeName? (t : Tree) (id : EntityId) : Option String := do
  return (← t.entity? (← t.entityType? id)).name

/-- Whether an entity is the atomic type of a reading and a size. -/
def isAtom (t : Tree) (reading : Reading) (size : Nat) (id : EntityId) : Bool :=
  ((t.entity? id).bind Entity.atom?) = some ⟨reading, size⟩

/-- The built-in type of exactly `size` bytes that reads its bits as `reading` does, where
the dominant reading counts. -/
def compose? (t : Tree) (reading : Reading) (size : Nat) : Option EntityId :=
  (Builtin.composable.map Builtin.handle).find? (t.isAtom reading.dominant size)

/-- The type of an expression, with at most `steps` steps into parentheses. -/
def exprTypeWithin? (t : Tree) : Nat → ExprId → Option EntityId
  | 0, _ => none
  | steps + 1, id => do
    match (← t.expr? id).node with
    | .unary _ _ type _ => return type
    | .binary _ type _ _ => return type
    | .group inner => t.exprTypeWithin? steps inner
    | .name _ (some entity) => t.entityType? entity
    | .definition _ _ _ entity _ => t.entityType? entity
    | .typedef _ _ _ entity => t.entityType? entity
    | .member _ _ entity => t.entityType? entity
    | .function _ function _ _ => t.entityType? function
    | .char _ => return Builtin.char.handle
    | .int _ size => return (t.compose? .asSigned size).getD Builtin.void.handle
    | .float _ size => return (t.compose? .asFloat size).getD Builtin.void.handle
    | .bool _ => return Builtin.bool.handle
    | .call _ function _ =>
      match (← t.entity? function).function? with
      | some (_, result) => return result
      | none => return Builtin.void.handle
    | .structLiteral type _ => return type
    | _ => return Builtin.void.handle

/-- The type of an expression. Parentheses around parentheses are all different nodes, so
that there are at most as many steps into them as expressions. -/
def exprType? (t : Tree) (id : ExprId) : Option EntityId := t.exprTypeWithin? (t.exprs.size + 1) id

end OnePass.Tree

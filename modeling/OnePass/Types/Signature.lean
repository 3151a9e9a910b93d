import OnePass.Types.Typing

/-!
# Names of signatures

A function type is named by its parameters and result: `(a: s32, b: f32) -> s32`. The arrow
is left out where nothing is returned.
-/

namespace OnePass.Tree

/-- A parameter and its type. -/
def paramText? (t : Tree) (param : EntityId) : Option String := do
  return (← t.entity? param).name ++ ": " ++ (← t.typeName? param)

/-- The name of the type of functions with some parameters and a result. -/
def signatureName? (t : Tree) (params : List EntityId) (result : EntityId) : Option String := do
  let params := "(" ++ String.intercalate ", " (← params.mapM t.paramText?) ++ ")"
  if (← t.entityType? result) = Builtin.void.handle then return params
  else return params ++ " -> " ++ (← t.typeName? result)

end OnePass.Tree

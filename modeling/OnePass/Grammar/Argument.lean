import OnePass.Grammar.Production

/-!
# Arguments

A call gives a value to each parameter of a function, and a literal of a structure one to
each of its variables. Both read one argument per parameter, in order, each of which has to
convert into the type of its parameter. Newlines may stand before and after an argument, and
no comma after the last one.
-/

namespace OnePass.Grammar

/-- The next token stands where an argument for `param` is missing. -/
def missingArgument {α : Type} (param : EntityId) : Parse α := do
  fail (.missingArgument (← entityOf param).name) (← current).span

/-- The argument given to `param` has to convert into its type. -/
def checkArgument (param : EntityId) (argument : ExprId) : Parse Unit := do
  let source ← typeOf argument
  let target ← known ((← get).tree.entityType? param)
  if !(← converts source target) then
    fail (.argument (← typeNameOf source) (← typeNameOf target)) (← spanOf argument)

/-- What follows an argument: a comma before another parameter, and none after the last one
unless too many arguments are given. -/
def argumentSeparator (rest : List EntityId) (closing : TokenSet) : Parse Unit := do
  skipNewlines
  match ← accept? {.comma}, rest with
  | none, missing :: _ => missingArgument missing
  | none, [] => return
  | some _, _ :: _ => return
  | some comma, [] =>
    skipNewlines
    if ← isAt closing then fail .trailingComma comma.span

/-- Reads one argument per parameter and the closing token. -/
def arguments (p : Productions) (closing : TokenSet) : List EntityId → Parse (Option ExprId)
  | [] => do
    skipNewlines
    match ← accept? closing with
    | some _ => return none
    | none => fail .tooManyArguments (← current).span
  | param :: rest => do
    skipNewlines
    match ← p.expr ({.comma} ∪ closing) with
    | none => missingArgument param
    | some value =>
      checkArgument param value
      argumentSeparator rest closing
      let next ← arguments p closing rest
      return some (← push (.argument value next) (← spanOf value))

/-- Reads the arguments of a call. -/
def call (p : Productions) (callee : ExprId) (paren : Token) : Parse ExprId := do
  let function ← typeOf callee
  match (← entityOf function).function? with
  | none => fail (.notAFunction (← typeNameOf function)) paren.span
  | some (params, _) =>
    let args ← arguments p {.closeParen} params
    push (.call callee function args) ((← spanOf callee).merge (← previousSpan))

/-- The structure that the use of a name stands for, and the frame of its members. -/
def namedStruct? (t : Tree) (id : ExprId) : Option (EntityId × FrameId) := do
  match (← t.expr? id).node with
  | .name _ (some entity) => return (entity, ← (← t.entity? entity).structFrame?)
  | _ => none

/-- Reads the values of a literal of a structure. -/
def structLiteral (p : Productions) (name : ExprId) (brace : Token) : Parse ExprId := do
  match namedStruct? (← get).tree name with
  | none => fail .notAStruct brace.span
  | some (type, frame) =>
    let members ← known ((← get).tree.variables? frame)
    let args ← arguments p {.closeBrace} members
    push (.structLiteral type args) ((← spanOf name).merge (← previousSpan))

end OnePass.Grammar

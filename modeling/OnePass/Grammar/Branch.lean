import OnePass.Grammar.Production

/-!
# Branches, loops and returns

`if` and `for` open one frame around everything that belongs to them; their scopes have
frames of their own inside it. A condition has to convert into a truth value. A `return`
gives its value, or none, to the function read innermost.
-/

namespace OnePass.Grammar

/-- A condition that is there and converts into a truth value; `anchor` is blamed. -/
def condition (anchor : Token) (expr : Option ExprId) : Parse ExprId := do
  match expr with
  | none => fail .noCondition anchor.span
  | some expr =>
    let type ← typeOf expr
    if ← converts type Builtin.bool.handle then return expr
    else fail (.condition (← typeNameOf type)) anchor.span

/-- Reads the scope after `else`, if there is one. -/
def elseScope (p : Productions) : Parse (Option ExprId) := do
  match ← accept? {.elseWord} with
  | some keyword => return some (← scopeAfter p "else" keyword)
  | none => return none

/-- Reads a branch after its keyword. -/
def branch (p : Productions) (keyword : Token) : Parse ExprId := do
  let frame ← openFrame keyword.span
  let cond ← condition keyword (← p.expr {.openBrace})
  let thenScope ← scopeAfter p "if" keyword
  let elseScope ← elseScope p
  closeFrame keyword.span
  push (.branch cond thenScope elseScope frame) (keyword.span.merge (← previousSpan))

/-- The condition of a loop that has none: true. -/
def loopCondition (keyword : Token) (first : Option ExprId) : Parse ExprId := do
  match first with
  | some cond => return cond
  | none => push (.bool true) keyword.span

/-- Reads a loop that has at most a condition. -/
def whileLoop (p : Productions) (keyword : Token) (first : Option ExprId) (frame : FrameId) :
    Parse ExprId := do
  let cond ← condition keyword (some (← loopCondition keyword first))
  let scope ← scopeAfter p "for" keyword
  closeFrame keyword.span
  push (.whileLoop cond scope frame) (keyword.span.merge (← previousSpan))

/-- Reads the condition and the step of a loop that begins with `init`, and its scope. -/
def countedLoop (p : Productions) (keyword semicolon : Token) (init : ExprId) (frame : FrameId) :
    Parse ExprId := do
  let cond ← condition semicolon (← p.expr {.semicolon})
  match ← accept? {.semicolon} with
  | none => fail .noIteration semicolon.span
  | some second =>
    match ← p.expr {.openBrace} with
    | none => fail .noIteration second.span
    | some step =>
      let scope ← scopeAfter p "for" keyword
      closeFrame keyword.span
      push (.loop init cond step scope frame) (keyword.span.merge (← previousSpan))

/-- Reads a loop after its keyword. -/
def loop (p : Productions) (keyword : Token) : Parse ExprId := do
  let frame ← openFrame keyword.span
  let first ← p.expr {.semicolon, .openBrace}
  if ← isAt {.openBrace} then whileLoop p keyword first frame
  else
    match ← accept? {.semicolon}, first with
    | none, _ => unexpected {.semicolon, .openBrace} (← current)
    | some semicolon, none => fail .noInitialization semicolon.span
    | some semicolon, some init => countedLoop p keyword semicolon init frame

/-- The type of what is returned; nothing has the type `void`. -/
def returnedType (value : Option ExprId) : Parse EntityId :=
  match value with
  | some value => typeOf value
  | none => return Builtin.void.handle

/-- Reads what is returned after the keyword. -/
def returns (p : Productions) (keyword : Token) (closing : TokenSet) : Parse ExprId := do
  match ← enclosingFunction? with
  | none => fail .returnOutside keyword.span
  | some function =>
    let target := match (← entityOf function).function? with
      | some (_, result) => result
      | none => Builtin.void.handle
    let value ← p.expr closing
    let source ← returnedType value
    if !(← converts source target) then
      fail (.returned (← typeNameOf source) (← typeNameOf target)) keyword.span
    push (.result value function) (keyword.span.merge (← previousSpan))

end OnePass.Grammar

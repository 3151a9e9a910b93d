import OnePass.Grammar.Production

/-!
# Operations

Operators before, after and between operands. An operator on one operand wants an atomic
type and keeps it. Between two operands an assignment wants a variable on its left and a
value that converts into its type, arithmetic wants atomic types and results in the one
composed of them, and logic wants atomic types and results in a truth value.
-/

namespace OnePass.Grammar

/-- The operator on one operand that a token stands for. -/
def unaryOp (token : Token) : Parse UnaryOp :=
  match UnaryOp.ofToken? token.kind with
  | some op => return op
  | none => fail (.notUnary token.text) token.span

/-- The type of an operand, which has to be atomic. -/
def atomicOperand (token : Token) (op : UnaryOp) (operand : ExprId) : Parse EntityId := do
  let type ← typeOf operand
  match (← entityOf type).atom? with
  | some _ => return type
  | none => fail (.unaryOperand op (← typeNameOf type)) token.span

/-- Reads the operand of an operator that stands before it. -/
def prefixOperation (p : Productions) (token : Token) (closing : TokenSet) : Parse ExprId := do
  let op ← unaryOp token
  match ← p.step none closing with
  | none => fail (.noOperand op) token.span
  | some operand =>
    let type ← atomicOperand token op operand
    push (.unary op .before type operand) (token.span.merge (← spanOf operand))

/-- An operator after its operand. -/
def postfixOperation (left : ExprId) (token : Token) : Parse ExprId := do
  let op ← unaryOp token
  let type ← atomicOperand token op left
  push (.unary op .after type left) ((← spanOf left).merge token.span)

/-- The entity to which an expression can assign. -/
def assignedEntity? : Node → Option EntityId
  | .name _ entity => entity
  | .member _ _ entity => some entity
  | _ => none

/-- Whether an expression is the use of a variable. -/
def isVariable (node : Node) : Parse Bool := do
  match assignedEntity? node with
  | some entity => return (← entityOf entity).isVar
  | none => return false

/-- The type of an assignment: that of the variable on its left. -/
def assignment (token : Token) (left : ExprId) (leftType rightType : EntityId) :
    Parse EntityId := do
  let node ← nodeOf left
  if !(← isVariable node) then fail (.notAssignable node.label) token.span
  if ← converts rightType leftType then return leftType
  else fail (.assignment (← typeNameOf rightType) (← typeNameOf leftType)) token.span

/-- The type of arithmetic: composed of the types of the operands. -/
def arithmetic (token : Token) (leftType rightType : EntityId) : Parse EntityId := do
  match (← entityOf leftType).atom?, (← entityOf rightType).atom? with
  | some a, some b =>
    match (← get).tree.compose? (a.reading.join b.reading) (max a.size b.size) with
    | some type => return type
    | none =>
      fail (.noComposite (← typeNameOf leftType) token.text (← typeNameOf rightType)) token.span
  | _, _ =>
    fail (.arithmeticOperands (← typeNameOf leftType) token.text (← typeNameOf rightType))
      token.span

/-- The type of logic: a truth value. -/
def logic (token : Token) (leftType rightType : EntityId) : Parse EntityId := do
  match (← entityOf leftType).atom?, (← entityOf rightType).atom? with
  | some _, some _ => return Builtin.bool.handle
  | _, _ =>
    fail (.logicOperands (← typeNameOf leftType) token.text (← typeNameOf rightType)) token.span

/-- The type of an operation on two operands. -/
def operationType (token : Token) (op : BinaryOp) (left right : ExprId) : Parse EntityId := do
  let leftType ← typeOf left
  let rightType ← typeOf right
  match op.family with
  | .assign => assignment token left leftType rightType
  | .arithmetic => arithmetic token leftType rightType
  | .logic => logic token leftType rightType

/-- Reads the rest of the expression as the right operand of an operator. -/
def binaryOperation (p : Productions) (left : Option ExprId) (token : Token)
    (closing : TokenSet) : Parse ExprId := do
  match BinaryOp.ofToken? token.kind, left with
  | none, _ => unexpected closing token
  | some _, none => fail .noLeftOperand token.span
  | some op, some left =>
    match ← p.expr closing with
    | none => fail .noRightOperand token.span
    | some right =>
      let type ← operationType token op left right
      push (.binary op type left right) ((← spanOf left).merge (← spanOf right))

end OnePass.Grammar

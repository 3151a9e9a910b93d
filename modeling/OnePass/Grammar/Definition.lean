import OnePass.Grammar.Operand
import OnePass.Grammar.Record
import OnePass.Types.Signature

/-!
# Definitions

`name :: value` defines a constant and `name : type = value` a variable, of which the type
or the value may be left out. Where the value is a signature the definition is that of a
function and its body follows; where it is a record, it gives the record its name.

Parentheses without a value, or around definitions, are the parameters of a signature; with
anything else in them they are a group. The parameters are defined in the frame of the
parentheses. A function is known by its name before its body is read, and the body is read
in the frame of its parameters, which is entered again for it.
-/

namespace OnePass.Grammar

/-! ## Groups and signatures -/

/-- Whether parentheses hold the parameters of a signature. -/
def isParameters (content : Option ExprId) : Parse Bool := do
  match content with
  | none => return true
  | some content =>
    match ← nodeOf content with
    | .definition .. => return true
    | _ => return false

/-- Reads the result after some parameters, and closes their frame. -/
def signature (paren : Token) (params : Option ExprId) (frame : FrameId) : Parse ExprId := do
  let result ← match ← accept? {.arrow} with
    | some arrow => typeName arrow
    | none => pure Builtin.void.handle
  closeFrame paren.span
  push (.signature params result frame) (paren.span.merge (← previousSpan))

/-- Reads what is between parentheses, and what follows if it turns out to be parameters. -/
def group (p : Productions) (paren : Token) : Parse ExprId := do
  let frame ← openFrame paren.span
  let content ← p.expr {.closeParen}
  match ← accept? {.closeParen} with
  | none => unexpected {.closeParen} (← current)
  | some close =>
    if ← isParameters content then signature paren content frame
    else
      closeFrame paren.span
      match content with
      | some inner => push (.group inner) (paren.span.merge close.span)
      | none => fail .emptyGroup paren.span

/-! ## Functions -/

/-- Lets the name of a signature stand for the first function that has it. -/
def bindCanonical (canonical : String) (function : EntityId) : Parse Unit := do
  if ((← get).tree.findLocal? canonical).isNone then bindName canonical function

/-- Records the body of a function where the function is defined. -/
def bindBody (name : Token) (function : EntityId) (body : ExprId) : Parse Unit := do
  let s ← get
  match s.tree.bindBody s.tree.currentFrame function body with
  | .ok tree => set { s with tree := tree }
  | .error _ => fail (.bodyTaken name.text) name.span

/-- Reads the body of a function after its signature. -/
def function (p : Productions) (name : Token) (signature : ExprId) : Parse ExprId := do
  match ← nodeOf signature with
  | .signature _ result frame =>
    let params ← known ((← get).tree.variables? frame)
    let canonical ← known ((← get).tree.signatureName? params result)
    let function ← pushEntity ⟨canonical, .function params result⟩
    bindName name.text function
    bindCanonical canonical function
    enterFrame name.span frame
    beginConstruct (.function function)
    skipNewlines
    match ← accept? {.openBrace} with
    | none => fail .noFunctionScope name.span
    | some brace =>
      let body ← scopeBody p brace frame
      endConstruct
      closeFrame name.span
      bindBody name function body
      push (.function name.text function signature body) (name.span.merge (← previousSpan))
  | _ => fail .notASignature name.span

/-! ## Variables and constants -/

/-- Reads the definition after a comma, if there is one. -/
def nextDefinition (p : Productions) (closing : TokenSet) : Parse (Option ExprId) := do
  match ← accept? {.comma} with
  | none => return none
  | some comma =>
    skipNewlines
    match ← p.step none closing with
    | none => fail .noDefinitionAfterComma comma.span
    | some next =>
      match ← nodeOf next with
      | .definition .. => return some next
      | _ => fail .noDefinitionAfterComma comma.span

/-- Defines a variable or constant, and reads those defined together with it. -/
def declaration (p : Productions) (name : Token) (op : DefOp) (init : Option ExprId)
    (type : EntityId) (closing : TokenSet) : Parse ExprId := do
  let entity ← install (.var name.text type)
  let next ← nextDefinition p closing
  push (.definition name.text op init entity next) (name.span.merge (← previousSpan))

/-- Reads the value that `after` calls for. -/
def initializer (p : Productions) (after : Token) (closing : TokenSet) : Parse ExprId := do
  match ← p.expr closing with
  | some value => return value
  | none => fail (.noExpressionAfter after.text) after.span

/-- Reads the declared type, unless the value follows at once. -/
def declaredType (op : DefOp) (symbol : Token) : Parse (Option EntityId) := do
  match op with
  | .constant => return none
  | .variable => if ← isAt {.assign} then return none else return some (← typeName symbol)

/-- Reads the value; only a variable can do without. -/
def initialValue (p : Productions) (op : DefOp) (symbol : Token) (closing : TokenSet) :
    Parse (Option ExprId) := do
  match op with
  | .constant => return some (← initializer p symbol closing)
  | .variable =>
    match ← accept? {.assign} with
    | some assign => return some (← initializer p assign closing)
    | none => return none

/-- The type of what is defined: as declared, or else that of the value. -/
def definedType (name symbol : Token) (type : Option EntityId) (init : Option ExprId) :
    Parse EntityId := do
  match type, init with
  | some type, none => return type
  | none, some init => typeOf init
  | none, none => fail .emptyDefinition symbol.span
  | some type, some init =>
    let source ← typeOf init
    if ← converts source type then return type
    else
      fail (.initializer name.text (← typeNameOf type) (← typeNameOf source)) symbol.span

/-- Reads a definition after its name and symbol. -/
def definition (p : Productions) (name symbol : Token) (closing : TokenSet) : Parse ExprId := do
  if ((← get).tree.findLocal? name.text).isSome then
    fail (.redefinition name.text) name.span
  let op : DefOp := if symbol.kind = .declare then .constant else .variable
  let type ← declaredType op symbol
  let init ← initialValue p op symbol (closing ∪ {.comma})
  let node ← match init with
    | some init => some <$> nodeOf init
    | none => pure none
  match init, node with
  | some init, some (.signature ..) => function p name init
  | some init, some (.record ..) => typedef name op init
  | _, _ => declaration p name op init (← definedType name symbol type init) closing

/-- Reads a name: the definition of it if a symbol of definition follows, and a use of it
otherwise. -/
def nameOrDefinition (p : Productions) (name : Token) (closing : TokenSet) : Parse ExprId := do
  match ← accept? {.declare, .define} with
  | some symbol => definition p name symbol closing
  | none => nameUse name

end OnePass.Grammar

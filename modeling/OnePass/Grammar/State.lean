import OnePass.Diagnostic.Cause
import OnePass.Token.Cursor
import OnePass.Types.Cast

/-!
# The state of reading

Reading a source moves a cursor over its tokens and grows the tree on the way; a fault ends
it. The state also keeps the constructs that are being read, functions and records, since
`return` belongs to the function read innermost and a record in between hides it.
-/

namespace OnePass.Grammar

/-- A construct whose body is being read. -/
inductive Construct where
  | function (entity : EntityId)
  | record
deriving DecidableEq

/-- What is known while a source is read. -/
structure State where
  cursor : Cursor
  tree : Tree
  /-- The constructs being read, the innermost first. -/
  constructs : List Construct
deriving DecidableEq

/-- Before the first token, with the built-in types defined. -/
def State.initial (tokens : TokenList) : State := ⟨.start tokens, .withBuiltins, []⟩

/-- A part of the reading, which may end with a fault; the state is kept in either case. -/
abbrev Parse := EStateM Fault State

/-! ## Faults -/

/-- A fault with a place. -/
def fail {α : Type} (cause : Cause) (span : Span) : Parse α := throw ⟨cause, some span⟩

/-- `token` is none of the kinds wanted. -/
def unexpected {α : Type} (wanted : TokenSet) (token : Token) : Parse α :=
  fail (.expected wanted token.kind) token.span

/-! ## Tokens -/

/-- The next token. -/
def current : Parse Token := return (← get).cursor.current

/-- Whether the next token is one of `wanted`. -/
def isAt (wanted : TokenSet) : Parse Bool := return (← get).cursor.isAt wanted

/-- Whether all tokens have been read. -/
def atEnd : Parse Bool := return (← get).cursor.atEnd

/-- The place of the token read last. -/
def previousSpan : Parse Span := return (← get).cursor.previousSpan

/-- Reads the next token if it is one of `wanted`. -/
def accept? (wanted : TokenSet) : Parse (Option Token) :=
  modifyGet fun s =>
    if s.cursor.isAt wanted then
      (some s.cursor.current, { s with cursor := s.cursor.advance })
    else (none, s)

/-- Reads all tokens of `wanted` that come next. -/
def skip (wanted : TokenSet) : Parse Unit :=
  modify fun s => { s with cursor := s.cursor.skip wanted }

/-- Reads all newlines that come next. -/
def skipNewlines : Parse Unit := skip {.newline}

/-! ## The tree -/

/-- An answer that the tree does have. -/
def known {α : Type} (answer : Option α) : Parse α :=
  match answer with
  | some x => return x
  | none => throw ⟨.missingHandle, none⟩

/-- The node of an expression. -/
def nodeOf (id : ExprId) : Parse Node := do
  return (← known ((← get).tree.expr? id)).node

/-- The place of an expression. -/
def spanOf (id : ExprId) : Parse Span := do
  return (← known ((← get).tree.expr? id)).span

/-- The entity under a handle. -/
def entityOf (id : EntityId) : Parse Entity := do
  known ((← get).tree.entity? id)

/-- The frame under a handle. -/
def frameOf (id : FrameId) : Parse Frame := do
  known ((← get).tree.frame? id)

/-- The type of an expression. -/
def typeOf (id : ExprId) : Parse EntityId := do
  known ((← get).tree.exprType? id)

/-- The name of the type that an entity denotes. -/
def typeNameOf (id : EntityId) : Parse String := do
  known ((← get).tree.typeName? id)

/-- Whether a value of one type converts into another without being told to. -/
def converts (source target : EntityId) : Parse Bool := do
  match (← get).tree.cast? source target with
  | some cast => return cast.isImplicit
  | none => throw ⟨.endlessType, none⟩

/-- Adds an expression. -/
def push (node : Node) (span : Span) : Parse ExprId :=
  modifyGet fun s =>
    let (id, tree) := s.tree.pushExpr ⟨node, span⟩
    (id, { s with tree := tree })

/-- Adds an entity that no name stands for yet. -/
def pushEntity (entity : Entity) : Parse EntityId :=
  modifyGet fun s =>
    let (id, tree) := s.tree.pushEntity entity
    (id, { s with tree := tree })

/-- Adds an entity and lets its own name stand for it. -/
def install (entity : Entity) : Parse EntityId :=
  modifyGet fun s =>
    let (id, tree) := s.tree.install entity
    (id, { s with tree := tree })

/-- Lets a name stand for an entity. -/
def bindName (name : String) (entity : EntityId) : Parse Unit :=
  modify fun s => { s with tree := s.tree.bind name entity }

/-- Work on the open frames; a refusal is a fault at `span`. -/
def framing {α : Type} (span : Span) (work : Framing α) : Parse α :=
  fun ⟨cursor, tree, constructs⟩ =>
    match work tree with
    | .ok x tree => .ok x ⟨cursor, tree, constructs⟩
    | .error e tree => .error ⟨.stack e, some span⟩ ⟨cursor, tree, constructs⟩

/-- Opens a frame. -/
def openFrame (span : Span) : Parse FrameId := framing span Tree.openFrame

/-- Opens a frame again. -/
def enterFrame (span : Span) (frame : FrameId) : Parse Unit := framing span (Tree.enterFrame frame)

/-- Closes the innermost open frame. -/
def closeFrame (span : Span) : Parse Unit := do
  let _ ← framing span Tree.closeFrame

/-! ## Constructs -/

/-- Begins the body of a construct. -/
def beginConstruct (c : Construct) : Parse Unit :=
  modify fun s => { s with constructs := c :: s.constructs }

/-- Ends the body of the construct begun last. -/
def endConstruct : Parse Unit :=
  modify fun s => { s with constructs := s.constructs.tail }

/-- The function whose body is being read, unless a record is read inside it. -/
def enclosingFunction? : Parse (Option EntityId) := do
  match (← get).constructs with
  | .function entity :: _ => return some entity
  | _ => return none

end OnePass.Grammar

import OnePass.Arena.Fixed
import OnePass.Tree.Entity
import OnePass.Tree.Expr
import OnePass.Tree.Frame

/-!
# The tree

A `Tree` owns the expressions, entities and frames of one source, and the stack of frames
that are open. The main frame is the first frame and lies at the bottom of the stack for
ever. Opening a frame makes a new child of the innermost open one; a child that was closed
can be entered again, which is how a function's body comes to see its parameters. Frames
stay in the tree after they are closed.

Nesting is limited twice over: a frame lies at most `Tree.depthLimit` deep, and the stack
has room for the main frame and as many others.

Names are looked up along `Tree.chain`, a frame and the frames around it.
-/

namespace OnePass

/-- What the stack of open frames refuses. -/
inductive StackError where
  /-- The innermost open frame is as deep as frames may be. -/
  | tooDeep (limit : Nat)
  /-- The main frame is never closed. -/
  | closeMain
  /-- Only a child of the innermost open frame can be entered. -/
  | notChild (frame : FrameId)
  | arena (error : ArenaError)
deriving DecidableEq

/-- The wording of a refusal. -/
def StackError.message : StackError → String
  | .tooDeep limit => s!"frame depth limit exceeded (limit: {limit})"
  | .closeMain => "cannot pop the main frame"
  | .notChild frame => s!"frame {frame.index} is not a child of the current frame"
  | .arena error => error.message

/-- Number of frames that may lie around one another below the main frame. -/
def Tree.depthLimit : Nat := 256

/-- Expressions, entities and frames of one source, and the frames that are open. -/
structure Tree where
  exprs : Array Expr
  entities : Array Entity
  frames : Array Frame
  stack : FixedArena FrameId (Tree.depthLimit + 1)
  /-- The scope of the whole source, once it has been read. -/
  mainScope : Option ExprId
deriving DecidableEq

/-- Work on the stack of open frames, which may be refused. -/
abbrev Framing := EStateM StackError Tree

namespace Tree

/-- The first frame. -/
def mainFrame : FrameId := ⟨0⟩

/-- The tree with the main frame open and nothing in it. -/
def empty : Tree where
  exprs := #[]
  entities := #[]
  frames := #[.new none 0]
  stack := ⟨#[mainFrame], by decide⟩
  mainScope := none

instance : Inhabited Tree := ⟨empty⟩

/-! ## Expressions and entities -/

/-- The expression under a handle. -/
def expr? (t : Tree) (id : ExprId) : Option Expr := t.exprs[id.index]?

/-- The entity under a handle. -/
def entity? (t : Tree) (id : EntityId) : Option Entity := t.entities[id.index]?

/-- The frame under a handle. -/
def frame? (t : Tree) (id : FrameId) : Option Frame := t.frames[id.index]?

/-- Adds an expression. -/
def pushExpr (t : Tree) (e : Expr) : ExprId × Tree :=
  (⟨t.exprs.size⟩, { t with exprs := t.exprs.push e })

/-- Writes an expression over another. -/
def setExpr (t : Tree) (id : ExprId) (e : Expr) : Tree :=
  { t with exprs := t.exprs.setIfInBounds id.index e }

/-- Adds an entity that no name stands for. -/
def pushEntity (t : Tree) (e : Entity) : EntityId × Tree :=
  (⟨t.entities.size⟩, { t with entities := t.entities.push e })

/-- Writes an entity over another. -/
def setEntity (t : Tree) (id : EntityId) (e : Entity) : Tree :=
  { t with entities := t.entities.setIfInBounds id.index e }

/-! ## Open frames -/

/-- The innermost open frame. -/
def currentFrame (t : Tree) : FrameId := t.stack.back?.getD mainFrame

/-- Number of frames around a frame. -/
def depthOf (t : Tree) (id : FrameId) : Nat :=
  match t.frame? id with
  | some frame => frame.depth
  | none => 0

/-- Puts a frame on the stack. -/
def pushOpen (frame : FrameId) : Framing Unit := do
  match (← get).stack.push frame with
  | .ok (_, stack) => modify fun t => { t with stack := stack }
  | .error e => throw (.arena e)

/-- Opens a new child of the innermost open frame. -/
def openFrame : Framing FrameId := do
  let t ← get
  let parent := t.currentFrame
  let depth := t.depthOf parent + 1
  if depthLimit < depth then throw (.tooDeep depthLimit)
  let frame : FrameId := ⟨t.frames.size⟩
  modify fun t => { t with frames := t.frames.push (.new (some parent) depth) }
  pushOpen frame
  return frame

/-- Opens a child of the innermost open frame again. -/
def enterFrame (frame : FrameId) : Framing Unit := do
  let t ← get
  if (t.frame? frame).bind Frame.parent = some t.currentFrame then pushOpen frame
  else throw (.notChild frame)

/-- Closes the innermost open frame. -/
def closeFrame : Framing FrameId := do
  if (← get).stack.size ≤ 1 then throw .closeMain
  match (← get).stack.pop with
  | .ok (frame, stack) =>
    modify fun t => { t with stack := stack }
    return frame
  | .error e => throw (.arena e)

/-! ## Names -/

/-- Changes a frame. -/
def modifyFrame (t : Tree) (id : FrameId) (f : Frame → Frame) : Tree :=
  { t with frames := t.frames.modify id.index f }

/-- Lets a name stand for an entity in the innermost open frame. -/
def bind (t : Tree) (name : String) (entity : EntityId) : Tree :=
  t.modifyFrame t.currentFrame (·.bind name entity)

/-- Adds an entity and lets its own name stand for it in the innermost open frame. -/
def install (t : Tree) (e : Entity) : EntityId × Tree :=
  let (id, t) := t.pushEntity e
  (id, t.bind e.name id)

/-- A frame and, at most `steps` of them, the frames around it. -/
def chainWithin (t : Tree) : Nat → FrameId → List FrameId
  | 0, _ => []
  | steps + 1, id =>
    match (t.frame? id).bind Frame.parent with
    | some parent => id :: t.chainWithin steps parent
    | none => [id]

/-- A frame and the frames around it, the innermost first. Frames are older than their
children, so there are at most as many as the handle says. -/
def chain (t : Tree) (id : FrameId) : List FrameId := t.chainWithin (id.index + 1) id

/-- The first answer along the chain of a frame. -/
def searchFrom {α : Type} (t : Tree) (id : FrameId) (answer : Frame → Option α) : Option α :=
  (t.chain id).findSome? fun frame => (t.frame? frame).bind answer

/-- The entity that a name stands for in a frame or, failing that, around it. -/
def findFrom? (t : Tree) (id : FrameId) (name : String) : Option EntityId :=
  t.searchFrom id (·.find? name)

/-- The entity that a name stands for where the innermost open frame is. -/
def find? (t : Tree) (name : String) : Option EntityId := t.findFrom? t.currentFrame name

/-- The entity that a name stands for in the innermost open frame itself. -/
def findLocal? (t : Tree) (name : String) : Option EntityId :=
  (t.frame? t.currentFrame).bind (·.find? name)

/-- The body of a function, known in the innermost open frame or around it. -/
def findBody? (t : Tree) (function : EntityId) : Option ExprId :=
  t.searchFrom t.currentFrame (·.body? function)

/-- The storage slot of an entity, known in a frame or around it. -/
def findSlot? (t : Tree) (id : FrameId) (entity : EntityId) : Option Nat :=
  t.searchFrom id (·.slot? entity)

/-- Records the body of a function in a frame; one that has a body there keeps it, which is
the answer. -/
def bindBody (t : Tree) (id : FrameId) (function : EntityId) (body : ExprId) :
    Except ExprId Tree :=
  match (t.frame? id).bind (·.body? function) with
  | some taken => .error taken
  | none => .ok (t.modifyFrame id (·.setBody function body))

/-- The variables among some entities; no answer if one of them does not exist. -/
def variablesAmong? (t : Tree) : List EntityId → Option (List EntityId)
  | [] => some []
  | id :: rest => do
    let entity ← t.entity? id
    let others ← t.variablesAmong? rest
    return if entity.isVar then id :: others else others

/-- The variables that names of a frame stand for, in the order of definition. -/
def variables? (t : Tree) (id : FrameId) : Option (List EntityId) := do
  let frame ← t.frame? id
  t.variablesAmong? frame.entities

end Tree

end OnePass

import OnePass.Text.Visible
import OnePass.Tree.Basic

/-!
# Dumps

The tree as text: one line per node, its children below it and indented by one tab more.
The next definition or argument of a chain stands at the indentation of the one before. An
optional child that is absent is shown as `(NULL)`. A name is followed by the entity it
stands for, and a variable or function by its type, which is shown without its members.
-/

namespace OnePass

/-- One line of a dump. -/
structure Line where
  indent : Nat
  text : String
deriving DecidableEq, Inhabited

namespace Line

/-- The line as text. -/
def toText (l : Line) : String := Text.repeated l.indent '\t' ++ l.text ++ "\n"

/-- Lines one below the other. -/
def render (lines : List Line) : String := lines.foldl (fun text l => text ++ l.toText) ""

end Line

namespace Tree

/-! ## Parts of a line -/

/-- A text between single quotes. -/
def inQuotes (text : String) : String := "'" ++ text ++ "'"

/-- The details of a node between parentheses. -/
def details (label : String) (items : List (String × String)) : String :=
  label ++ " (" ++ String.intercalate ", " (items.map fun (key, value) => key ++ ": " ++ value)
    ++ ")"

/-- The name that an entity has itself. -/
def entityName (t : Tree) (id : EntityId) : String :=
  match t.entity? id with
  | some entity => entity.name
  | none => ""

/-! ## Entities -/

/-- The line of a type, without its members. -/
def typeLine (t : Tree) (id : EntityId) (indent : Nat) : List Line :=
  match t.entity? id with
  | none => []
  | some entity =>
    match entity.kind with
    | .atom atom =>
      [⟨indent, details entity.kind.label
        [("name", inQuotes entity.name), ("desc", atom.reading.label),
         ("size", Nat.repr atom.size)]⟩]
    | kind => [⟨indent, details kind.label [("name", inQuotes entity.name)]⟩]

/-- The lines of an entity, with at most `steps` steps into parameters. -/
def entityLinesWithin (t : Tree) : Nat → EntityId → Nat → List Line
  | 0, _, _ => []
  | steps + 1, id, indent =>
    match t.entity? id with
    | none => []
    | some entity =>
      let own : Line := ⟨indent, details entity.kind.label [("name", inQuotes entity.name)]⟩
      match entity.kind with
      | .var type _ _ => own :: t.typeLine type (indent + 1)
      | .function params result =>
        own :: (params.flatMap fun param => t.entityLinesWithin steps param (indent + 1))
          ++ t.typeLine result (indent + 1)
      | _ => t.typeLine id indent

/-- The lines of an entity, or of its absence. -/
def entityLines (t : Tree) (id : Option EntityId) (indent : Nat) : List Line :=
  match id with
  | none => [⟨indent, "(NULL)"⟩]
  | some id => t.entityLinesWithin (t.entities.size + 1) id indent

/-! ## Expressions -/

/-- The line of a node itself. -/
def nodeText (t : Tree) (node : Node) : String :=
  let detailed := details node.label
  match node with
  | .char byte =>
    detailed [("data", inQuotes (String.ofList (Text.visibleChar (Char.ofNat byte.toNat))))]
  | .text value => detailed [("data", inQuotes (String.ofList (Text.visible value.toList)))]
  | .int value size => detailed [("data", Nat.repr value), ("size", Nat.repr size)]
  | .float value size => detailed [("data", value.toFixed 6), ("size", Nat.repr size)]
  | .bool value => detailed [("data", if value then "true" else "false")]
  | .unary op side _ _ => detailed [("op", inQuotes op.symbol), ("order", inQuotes side.label)]
  | .binary op type _ _ =>
    detailed [("op", inQuotes op.symbol), ("type", inQuotes (t.entityName type))]
  | .name name _ => detailed [("name", inQuotes name)]
  | .definition name op _ _ _ => detailed [("op", inQuotes op.symbol), ("name", inQuotes name)]
  | .signature _ result _ => detailed [("return", inQuotes (t.entityName result))]
  | .function name function _ _ =>
    detailed [("name", inQuotes name), ("signature", inQuotes (t.entityName function))]
  | .call _ function _ => detailed [("function", inQuotes (t.entityName function))]
  | .record form _ _ => detailed [("kind", inQuotes form.keyword)]
  | .typedef name op _ _ => detailed [("op", inQuotes op.symbol), ("name", inQuotes name)]
  | .member _ name _ => detailed [("name", inQuotes name)]
  | .structLiteral type _ => detailed [("type", inQuotes (t.entityName type))]
  | _ => node.label

/-- The lines of an expression or of its absence, with at most `steps` steps down. -/
def exprLinesWithin (t : Tree) : Nat → Option ExprId → Nat → List Line
  | 0, _, _ => []
  | _ + 1, none, indent => [⟨indent, "(NULL)"⟩]
  | steps + 1, some id, indent =>
    match t.expr? id with
    | none => []
    | some expr =>
      let child (id : ExprId) := t.exprLinesWithin steps (some id) (indent + 1)
      let optional (id : Option ExprId) := t.exprLinesWithin steps id (indent + 1)
      let next (id : Option ExprId) :=
        match id with
        | none => []
        | some id => t.exprLinesWithin steps (some id) indent
      ⟨indent, t.nodeText expr.node⟩ ::
        match expr.node with
        | .char _ | .text _ | .int .. | .float .. | .bool _ => []
        | .unary _ _ _ operand => child operand
        | .binary _ _ left right => child left ++ child right
        | .group inner => child inner
        | .scope body _ => body.flatMap child
        | .result value _ => optional value
        | .name _ entity => t.entityLines entity (indent + 1)
        | .definition _ _ init entity following =>
          optional init ++ t.entityLines (some entity) (indent + 1) ++ next following
        | .signature params _ _ => optional params
        | .function _ _ signature scope => child signature ++ child scope
        | .call _ _ args => optional args
        | .argument value following => child value ++ next following
        | .branch cond thenScope elseScope _ =>
          child cond ++ child thenScope ++ optional elseScope
        | .loop init cond step scope _ => child init ++ child cond ++ child step ++ child scope
        | .whileLoop cond scope _ => child cond ++ child scope
        | .record _ body _ => body.flatMap child
        | .typedef _ _ record _ => child record
        | .member base _ entity => child base ++ t.entityLines (some entity) (indent + 1)
        | .structLiteral _ args => optional args

/-- The lines of an expression, or of its absence. A node is never below itself, so there
are at most as many steps down as expressions. -/
def exprLines (t : Tree) (id : Option ExprId) (indent : Nat) : List Line :=
  t.exprLinesWithin (t.exprs.size + 2) id indent

/-- The lines of the main scope; none if the source has not been read to its end. -/
def lines (t : Tree) : List Line :=
  match t.mainScope with
  | some scope => t.exprLines (some scope) 0
  | none => []

/-- The main scope as text. -/
def render (t : Tree) : String := Line.render t.lines

/-! ## Frames -/

/-- The line of a name and the entity it stands for. -/
def bindingLine (t : Tree) (name : String) (id : EntityId) : List Line :=
  match t.entity? id with
  | none => []
  | some entity =>
    [⟨1, inQuotes name ++ " -> " ++ entity.kind.label ++ " " ++ inQuotes entity.name⟩]

/-- The lines of a frame: its place in the tree, then its names. -/
def frameLines (t : Tree) (id : FrameId) : List Line :=
  match t.frame? id with
  | none => []
  | some frame =>
    let heading := match frame.parent with
      | some parent =>
        s!"Frame {id.index} (parent: {parent.index}, depth: {frame.depth})"
      | none => s!"Frame {id.index} (main)"
    ⟨0, heading⟩ :: frame.entries.flatMap fun (name, entity) => t.bindingLine name entity

/-- All frames as text, in the order in which they were opened. -/
def renderFrames (t : Tree) : String :=
  Line.render ((List.range t.frames.size).flatMap fun place => t.frameLines ⟨place⟩)

/-- A word on the size of the tree. -/
def summary (t : Tree) : String :=
  let scope := match t.mainScope with
    | some scope => s!"Some(ExprId({scope.index}))"
    | none => "None"
  "Ast \x7b exprs: " ++ Nat.repr t.exprs.size ++ ", entities: " ++ Nat.repr t.entities.size
    ++ ", frames: " ++ Nat.repr t.frames.size ++ ", current_frame: FrameId("
    ++ Nat.repr t.currentFrame.index ++ "), main_scope: " ++ scope ++ " \x7d"

end Tree

end OnePass

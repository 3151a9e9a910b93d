import OnePass.Grammar.Production

/-!
# Records

Structures and enumerations. A structure holds definitions and functions, an enumeration
constants only; the members of either live in a frame of their own, which is where
`base.name` looks for its member, and nowhere else.
-/

namespace OnePass.Grammar

/-- What may stand in a record. -/
def mayHold : RecordForm → Node → Bool
  | .struct, .definition .. => true
  | .struct, .function .. => true
  | .enum, .definition _ op _ _ _ => op = .constant
  | _, _ => false

/-- Why something else is refused. -/
def notHeld : RecordForm → Node → Cause
  | .struct, node => .structMember node.label
  | .enum, node => .enumMember node.label

/-- Each expression of a record has to be one that may stand in it. -/
def checkMembers (form : RecordForm) : List ExprId → Parse Unit
  | [] => return
  | member :: rest => do
    let node ← nodeOf member
    if !mayHold form node then fail (notHeld form node) (← spanOf member)
    checkMembers form rest

/-- The form that a keyword announces. -/
def recordForm (keyword : Token) : RecordForm :=
  if keyword.kind = .structWord then .struct else .enum

/-- Reads the members of a record. -/
def record (p : Productions) (keyword : Token) : Parse ExprId := do
  skipNewlines
  match ← accept? {.openBrace} with
  | none => unexpected {.openBrace} (← current)
  | some brace =>
    let form := recordForm keyword
    let frame ← openFrame brace.span
    beginConstruct .record
    let body ← p.body {.closeBrace}
    checkMembers form body
    endConstruct
    closeFrame brace.span
    push (.record form body frame) (keyword.span.merge (← previousSpan))

/-- The entity of a record with a name. -/
def recordEntity (name : String) (form : RecordForm) (frame : FrameId) : Entity :=
  match form with
  | .struct => ⟨name, .struct frame⟩
  | .enum => ⟨name, .enum frame⟩

/-- Gives a record its name. -/
def typedef (name : Token) (op : DefOp) (record : ExprId) : Parse ExprId := do
  match ← nodeOf record with
  | .record form _ frame =>
    let entity ← install (recordEntity name.text form frame)
    push (.typedef name.text op record entity) (name.span.merge (← spanOf record))
  | _ => fail .notARecord name.span

/-- Reads the name of a member after a dot. -/
def member (base : ExprId) (dot : Token) : Parse ExprId := do
  match ← accept? {.name} with
  | none => unexpected {.name} (← current)
  | some name =>
    let baseType ← typeOf base
    match (← entityOf baseType).recordFrame? with
    | none => fail (.noMembers name.text (← typeNameOf baseType)) dot.span
    | some frame =>
      match (← frameOf frame).find? name.text with
      | none => fail (.noMember name.text (← typeNameOf baseType)) name.span
      | some entity =>
        push (.member base name.text entity) ((← spanOf base).merge name.span)

end OnePass.Grammar

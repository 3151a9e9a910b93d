import OnePass.Grammar.Nesting
import OnePass.Proofs.Run

/-!
# Questions

Some parts of a reading ask something about the state and then go on with the answer. What they go
on with is a function of the answer (`resolved`, `definitionOf`, …), and an equation says that the
part is the question followed by that function. A property of the part is then one of the question
and one of the function.
-/

namespace OnePass.Grammar

/-- Goes on with the entity that a name stands for. -/
def resolved (name : Token) (found : Option EntityId) : Parse EntityId :=
  match found with
  | some entity => return entity
  | none => fail (.unknownName name.text) name.span

theorem resolve_asks (name : Token) :
    resolve name = get >>= fun s => resolved name (s.tree.find? name.text) := rfl

/-- Goes on with the way in which one type converts into another. -/
def implicitly (cast : Option Cast) : Parse Bool :=
  match cast with
  | some cast => return cast.isImplicit
  | none => throw ⟨.endlessType, none⟩

theorem converts_asks (source target : EntityId) :
    converts source target = get >>= fun s => implicitly (s.tree.cast? source target) := rfl

/-- Goes on with the type that is composed of two atomic types. -/
def composed (token : Token) (leftType rightType : EntityId) (found : Option EntityId) :
    Parse EntityId :=
  match found with
  | some type => return type
  | none => do
    fail (.noComposite (← typeNameOf leftType) token.text (← typeNameOf rightType)) token.span

/-- Goes on with the structure that stands before a brace. -/
def literalOf (p : Productions) (name : ExprId) (brace : Token)
    (found : Option (EntityId × FrameId)) : Parse ExprId :=
  match found with
  | none => fail .notAStruct brace.span
  | some (type, frame) => do
    let members ← known ((← get).tree.variables? frame)
    let args ← arguments p {.closeBrace} members
    push (.structLiteral type args) ((← spanOf name).merge (← previousSpan))

theorem structLiteral_asks (p : Productions) (name : ExprId) (brace : Token) :
    structLiteral p name brace = get >>= fun s =>
      literalOf p name brace (namedStruct? s.tree name) := rfl

/-- The function read innermost, unless a record is read inside it. -/
def enclosing? (constructs : List Construct) : Option EntityId :=
  match constructs with
  | .function entity :: _ => some entity
  | _ => none

theorem enclosingFunction?_asks :
    enclosingFunction? = get >>= fun s => pure (enclosing? s.constructs) := by
  funext s
  unfold enclosingFunction?
  rw [get_bind, get_bind]
  rcases s.constructs with _ | ⟨_ | _, _⟩ <;> rfl

/-- Goes on with whether a name stands for anything in the innermost open frame. -/
def canonicalOf (canonical : String) (function : EntityId) (found : Option EntityId) :
    Parse Unit := do
  if found.isNone then bindName canonical function

theorem bindCanonical_asks (canonical : String) (function : EntityId) :
    bindCanonical canonical function = get >>= fun s =>
      canonicalOf canonical function (s.tree.findLocal? canonical) := rfl

/-- Records the body of a function that has none; `taken` is the one that it has. -/
def recordBody (name : Token) (function : EntityId) (body : ExprId) (taken : Option ExprId) :
    Parse Unit :=
  match taken with
  | some _ => fail (.bodyTaken name.text) name.span
  | none =>
    let record (t : Tree) : Tree := t.modifyFrame t.currentFrame (·.setBody function body)
    modify fun s => { s with tree := record s.tree }

theorem bindBody_asks (name : Token) (function : EntityId) (body : ExprId) :
    bindBody name function body = get >>= fun s => recordBody name function body
      ((s.tree.frame? s.tree.currentFrame).bind (·.body? function)) := by
  funext s
  unfold bindBody Tree.bindBody recordBody
  rw [get_bind, get_bind]
  cases (s.tree.frame? s.tree.currentFrame).bind (·.body? function) <;> rfl

/-- Goes on with what a name stands for in the innermost open frame before it is defined. -/
def definitionOf (p : Productions) (name symbol : Token) (closing : TokenSet)
    (found : Option EntityId) : Parse ExprId := do
  if found.isSome then
    fail (.redefinition name.text) name.span
  let op : DefOp := if symbol.kind = .declare then .constant else .variable
  let type ← declaredType op symbol
  let init ← initialValue p op symbol (closing ∪ {.comma})
  let node ← match init with
    | some init => some <$> nodeOf init
    | none => pure none
  match init, node with
  | some init, some (.signature ..) => function p name init
  | some init, some (.record ..) => typedef name op init
  | _, _ => declaration p name op init (← definedType name symbol type init) closing

theorem definition_asks (p : Productions) (name symbol : Token) (closing : TokenSet) :
    definition p name symbol closing = get >>= fun s =>
      definitionOf p name symbol closing (s.tree.findLocal? name.text) := rfl

theorem endsBeforeBrace_asks (left : ExprId) :
    endsBeforeBrace (some left) = isAt {.openBrace} >>= fun brace =>
      if brace then get >>= fun s => pure (namedStruct? s.tree left).isNone
      else pure false := rfl

/-- Goes on with a sequence behind its separators, at one of the closing tokens or not. -/
def itemsFrom (p : Productions) (body : Array ExprId) (closing : TokenSet) (found : Option Token) :
    Parse (List ExprId) := do
  match found with
  | some _ => return body.toList
  | none =>
    if ← atEnd then unexpected closing (← current)
    match ← p.expr (separators ∪ closing) with
    | some expr => p.sequence (body.push expr) closing
    | none => p.sequence body closing

theorem sequenceTurn_asks (p : Productions) (body : Array ExprId) (closing : TokenSet) :
    sequenceTurn p body closing =
      skip separators >>= fun _ => accept? closing >>= itemsFrom p body closing := rfl

/-- Goes on with the place of the first token and the number of tokens. -/
def sourceFrom (start : Span) (size : Nat) : Parse Unit := do
  let body ← (level (fuel size)).body {.eof}
  let scope ← push (.scope body Tree.mainFrame) (start.merge (← previousSpan))
  modify fun s => { s with tree := { s.tree with mainScope := some scope } }

theorem program_asks : program = current >>= fun token => get >>= fun s =>
    sourceFrom token.span s.cursor.tokens.size := rfl

end OnePass.Grammar

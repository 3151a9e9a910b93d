import OnePass.Grammar.Nesting
import OnePass.Proofs.Run

/-!
# Phrases

The grammar as a relation. A `Phrase` is a production with what it was given and what it
answered, and `Reads φ s log s'` says that the phrase `φ` leads from the state `s` to the
state `s'`: one rule per way through a production, each with the guards that lead there. The
relation has no level and no faults in it, so what every accepted reading does is proved by
induction on it, one case per rule.

The `log` lists the definitions made on the way, in the order in which their names are bound.
It also keeps how many bindings were made while the value of a definition was read, so that
it tells a definition inside the value of another from one before it.
-/

namespace OnePass.Grammar

/-- A name bound in a frame, and how many bindings just before it were made while the value
that it stands for was read. -/
structure Binding where
  frame : FrameId
  name : String
  entity : EntityId
  within : Nat
deriving DecidableEq

/-- A production with what it is given and, at last, what it answers. -/
inductive Phrase where
  | step (left : Option ExprId) (closing : TokenSet) (answer : Option ExprId)
  | extend (left : Option ExprId) (closing : TokenSet) (answer : Option ExprId)
  | sequence (body : Array ExprId) (closing : TokenSet) (answer : List ExprId)
  | operand (left : Option ExprId) (token : Token) (closing : TokenSet) (answer : ExprId)
  | literal (token : Token) (answer : ExprId)
  | nameUse (name : Token) (answer : ExprId)
  | typeName (after : Token) (answer : EntityId)
  | prefixOperation (token : Token) (closing : TokenSet) (answer : ExprId)
  | postfixOperation (left : ExprId) (token : Token) (answer : ExprId)
  | binaryOperation (left : Option ExprId) (token : Token) (closing : TokenSet) (answer : ExprId)
  | arguments (closing : TokenSet) (params : List EntityId) (answer : Option ExprId)
  | call (callee : ExprId) (paren : Token) (answer : ExprId)
  | structLiteral (name : ExprId) (brace : Token) (answer : ExprId)
  | scopeBody (brace : Token) (frame : FrameId) (answer : ExprId)
  | scope (brace : Token) (answer : ExprId)
  | scopeAfter (word : String) (keyword : Token) (answer : ExprId)
  | elseScope (answer : Option ExprId)
  | branch (keyword : Token) (answer : ExprId)
  | loop (keyword : Token) (answer : ExprId)
  | returns (keyword : Token) (closing : TokenSet) (answer : ExprId)
  | group (paren : Token) (answer : ExprId)
  | function (name : Token) (signature answer : ExprId)
  | nextDefinition (closing : TokenSet) (answer : Option ExprId)
  | declaration (name : Token) (op : DefOp) (init : Option ExprId) (type : EntityId)
      (closing : TokenSet) (answer : ExprId)
  | initialValue (op : DefOp) (symbol : Token) (closing : TokenSet) (answer : Option ExprId)
  | definition (name symbol : Token) (closing : TokenSet) (answer : ExprId)
  | nameOrDefinition (name : Token) (closing : TokenSet) (answer : ExprId)
  | record (keyword : Token) (answer : ExprId)
  | typedef (name : Token) (op : DefOp) (body answer : ExprId)
  | member (base : ExprId) (dot : Token) (answer : ExprId)

namespace Phrase

/-- The production of the phrase leads from `s` to `s'` with the answer of the phrase, over
the productions `p`. -/
def Ran (p : Productions) : Phrase → State → State → Prop
  | step left closing answer, s, s' => p.step left closing s = .ok answer s'
  | extend left closing answer, s, s' => p.extend left closing s = .ok answer s'
  | sequence body closing answer, s, s' => p.sequence body closing s = .ok answer s'
  | operand left token closing answer, s, s' =>
    Grammar.operand p left token closing s = .ok answer s'
  | literal token answer, s, s' =>
    ∃ reader ∈ [character, textLiteral, integer, float], reader token s = .ok answer s'
  | nameUse name answer, s, s' => Grammar.nameUse name s = .ok answer s'
  | typeName after answer, s, s' => Grammar.typeName after s = .ok answer s'
  | prefixOperation token closing answer, s, s' =>
    Grammar.prefixOperation p token closing s = .ok answer s'
  | postfixOperation left token answer, s, s' =>
    Grammar.postfixOperation left token s = .ok answer s'
  | binaryOperation left token closing answer, s, s' =>
    Grammar.binaryOperation p left token closing s = .ok answer s'
  | arguments closing params answer, s, s' =>
    Grammar.arguments p closing params s = .ok answer s'
  | call callee paren answer, s, s' => Grammar.call p callee paren s = .ok answer s'
  | structLiteral name brace answer, s, s' => Grammar.structLiteral p name brace s = .ok answer s'
  | scopeBody brace frame answer, s, s' => Grammar.scopeBody p brace frame s = .ok answer s'
  | scope brace answer, s, s' => Grammar.scope p brace s = .ok answer s'
  | scopeAfter word keyword answer, s, s' =>
    Grammar.scopeAfter p word keyword s = .ok answer s'
  | elseScope answer, s, s' => Grammar.elseScope p s = .ok answer s'
  | branch keyword answer, s, s' => Grammar.branch p keyword s = .ok answer s'
  | loop keyword answer, s, s' => Grammar.loop p keyword s = .ok answer s'
  | returns keyword closing answer, s, s' => Grammar.returns p keyword closing s = .ok answer s'
  | group paren answer, s, s' => Grammar.group p paren s = .ok answer s'
  | function name signature answer, s, s' => Grammar.function p name signature s = .ok answer s'
  | nextDefinition closing answer, s, s' => Grammar.nextDefinition p closing s = .ok answer s'
  | declaration name op init type closing answer, s, s' =>
    Grammar.declaration p name op init type closing s = .ok answer s'
  | initialValue op symbol closing answer, s, s' =>
    Grammar.initialValue p op symbol closing s = .ok answer s'
  | definition name symbol closing answer, s, s' =>
    Grammar.definition p name symbol closing s = .ok answer s'
  | nameOrDefinition name closing answer, s, s' =>
    Grammar.nameOrDefinition p name closing s = .ok answer s'
  | record keyword answer, s, s' => Grammar.record p keyword s = .ok answer s'
  | typedef name op body answer, s, s' => Grammar.typedef name op body s = .ok answer s'
  | member base dot answer, s, s' => Grammar.member base dot s = .ok answer s'

end Phrase

/-! ## Parts that make no definitions -/

/-- The node that a literal stands for. -/
inductive Literal (token : Token) : Node → Prop where
  | character {c : Char} (htext : Lexicon.unescape (insideQuotes token.text) = .ok [c])
      (hsize : c.utf8Size = 1) : Literal token (.char (UInt8.ofNat c.toNat))
  | text {text : List Char} (htext : Lexicon.unescape (insideQuotes token.text) = .ok text) :
      Literal token (.text (String.ofList text))
  | integer {value : Nat}
      (hdigits : Number.digitsValue? (digitsOf token).1 (digitsOf token).2 = some value)
      (hvalue : value < UInt64.size) : Literal token (.int value (intSize value))
  | float {decimal : Number.Decimal}
      (hdecimal : Number.Decimal.ofText? token.text.toList = some decimal) :
      Literal token (.float (Number.Binary64.ofDecimal decimal)
        (floatSize (Number.Binary64.ofDecimal decimal)))

/-- The next token names the type `entity`. -/
structure NamesType (s : State) (entity : EntityId) : Prop where
  isAt : s.cursor.isAt {.name} = true
  find : s.tree.find? s.cursor.current.text = some entity
  isType : ∃ e, s.tree.entity? entity = some e ∧ e.isType = true

/-- The type declared after the symbol of a definition leads from one state to another. -/
inductive DeclaredType : DefOp → State → Option EntityId → State → Prop where
  | constant {s : State} : DeclaredType .constant s none s
  | inferred {s : State} (hassign : s.cursor.isAt {.assign} = true) :
      DeclaredType .variable s none s
  | named {s : State} {type : EntityId} (hassign : s.cursor.isAt {.assign} = false)
      (hnames : NamesType s type) : DeclaredType .variable s (some type) s.next

/-- The result after some parameters leads from one state to another. -/
inductive ResultType : State → EntityId → State → Prop where
  | nothing {s : State} (harrow : s.cursor.isAt {.arrow} = false) :
      ResultType s Builtin.void.handle s
  | named {s : State} {type : EntityId} (harrow : s.cursor.isAt {.arrow} = true)
      (hnames : NamesType s.next type) : ResultType s type s.next.next

/-- The type of what is defined: as declared, or else that of the value. -/
inductive DefinedType (t : Tree) : Option EntityId → Option ExprId → EntityId → Prop where
  | declared {type : EntityId} : DefinedType t (some type) none type
  | inferred {init : ExprId} {type : EntityId} (htype : t.exprType? init = some type) :
      DefinedType t none (some init) type
  | checked {init : ExprId} {type source : EntityId} (hsource : t.exprType? init = some source)
      (hconverts : Converts t source type) : DefinedType t (some type) (some init) type

/-- What follows an argument leads from one state to another. -/
inductive Separates : List EntityId → TokenSet → State → State → Prop where
  | last {closing : TokenSet} {s : State}
      (hcomma : (s.past {.newline}).cursor.isAt {.comma} = false) :
      Separates [] closing s (s.past {.newline})
  | comma {param : EntityId} {rest : List EntityId} {closing : TokenSet} {s : State}
      (hcomma : (s.past {.newline}).cursor.isAt {.comma} = true) :
      Separates (param :: rest) closing s (s.past {.newline}).next
  | surplus {closing : TokenSet} {s : State}
      (hcomma : (s.past {.newline}).cursor.isAt {.comma} = true)
      (hclosing : ((s.past {.newline}).next.past {.newline}).cursor.isAt closing = false) :
      Separates [] closing s ((s.past {.newline}).next.past {.newline})

/-- The type of the operand of an operator is atomic. -/
def AtomicType (t : Tree) (operand : ExprId) (type : EntityId) : Prop :=
  t.exprType? operand = some type ∧ ∃ e a, t.entity? type = some e ∧ e.atom? = some a

/-- The type of an operation on two operands. -/
inductive OperationType (t : Tree) (op : BinaryOp) (left right : ExprId) : EntityId → Prop where
  | assignment {l r v : EntityId} {e : Expr} {w : Entity} (hfamily : op.family = .assign)
      (hleftType : t.exprType? left = some l) (hrightType : t.exprType? right = some r)
      (hnode : t.expr? left = some e) (hassigned : assignedEntity? e.node = some v)
      (hentity : t.entity? v = some w) (hisVar : w.isVar = true) (hconverts : Converts t r l) :
      OperationType t op left right l
  | arithmetic {l r type : EntityId} {e f : Entity} {a b : Atom}
      (hfamily : op.family = .arithmetic)
      (hleftType : t.exprType? left = some l) (hrightType : t.exprType? right = some r)
      (hleftEntity : t.entity? l = some e) (hrightEntity : t.entity? r = some f)
      (hleftAtom : e.atom? = some a) (hrightAtom : f.atom? = some b)
      (hcomposed : t.compose? (a.reading.join b.reading) (max a.size b.size) = some type) :
      OperationType t op left right type
  | logic {l r : EntityId} {e f : Entity} {a b : Atom} (hfamily : op.family = .logic)
      (hleftType : t.exprType? left = some l) (hrightType : t.exprType? right = some r)
      (hleftEntity : t.entity? l = some e) (hrightEntity : t.entity? r = some f)
      (hleftAtom : e.atom? = some a) (hrightAtom : f.atom? = some b) :
      OperationType t op left right Builtin.bool.handle

/-- The type of a condition converts into a truth value. -/
def Condition (t : Tree) (cond : ExprId) : Prop :=
  ∃ type, t.exprType? cond = some type ∧ Converts t type Builtin.bool.handle

/-- The type of what is returned; nothing has the type `void`. -/
def returnedType? (t : Tree) (value : Option ExprId) : Option EntityId :=
  match value with
  | some value => t.exprType? value
  | none => some Builtin.void.handle

/-- What a function returns; anything else returns `void`. -/
def resultOf (e : Entity) : EntityId :=
  match e.function? with
  | some (_, result) => result
  | none => Builtin.void.handle

/-- Whether a node is a definition. -/
def isDefinition : Node → Bool
  | .definition .. => true
  | _ => false

/-- Operators on one operand that may come next: before an operand or after one. -/
def unaryAfter (left : Option ExprId) : TokenSet := if left.isSome then postfixes else prefixes

/-- The phrase that a token begins after a left part. -/
inductive Begins (token : Token) (closing : TokenSet) (id : ExprId) :
    Option ExprId → Phrase → Prop where
  | name {left : Option ExprId} (hkind : token.kind = .name) :
      Begins token closing id left (.nameOrDefinition token closing id)
  | literal {left : Option ExprId} (hkind : token.kind ∈ TokenSet.literals) :
      Begins token closing id left (.literal token id)
  | branch {left : Option ExprId} (hkind : token.kind = .ifWord) :
      Begins token closing id left (.branch token id)
  | loop {left : Option ExprId} (hkind : token.kind = .forWord) :
      Begins token closing id left (.loop token id)
  | returns {left : Option ExprId} (hkind : token.kind = .returnWord) :
      Begins token closing id left (.returns token closing id)
  | record {left : Option ExprId} (hkind : token.kind = .structWord ∨ token.kind = .enumWord) :
      Begins token closing id left (.record token id)
  | group (hkind : token.kind = .openParen) : Begins token closing id none (.group token id)
  | call {callee : ExprId} (hkind : token.kind = .openParen) :
      Begins token closing id (some callee) (.call callee token id)
  | scope (hkind : token.kind = .openBrace) : Begins token closing id none (.scope token id)
  | structLiteral {name : ExprId} (hkind : token.kind = .openBrace) :
      Begins token closing id (some name) (.structLiteral name token id)
  | member {base : ExprId} (hkind : token.kind = .dot) :
      Begins token closing id (some base) (.member base token id)

/-- With a name that stands for an entity, unless it stands for another already. -/
def State.bindNew (s : State) (name : String) (entity : EntityId) : State :=
  if (s.tree.findLocal? name).isNone then s.bind name entity else s

/-- The binding that `State.bindNew` makes. -/
def newBinding (s : State) (name : String) (entity : EntityId) : List Binding :=
  if (s.tree.findLocal? name).isNone then [⟨s.tree.currentFrame, name, entity, 0⟩] else []

/-! ## The rules -/

/-- The phrase leads from one state to another and makes the definitions of the log. -/
inductive Reads : Phrase → State → List Binding → State → Prop where
  -- One token and what belongs to it
  | stepClosing {left closing} {s : State} (hclosing : s.cursor.isAt closing = true) :
      Reads (.step left closing none) s [] s
  | stepPrefix {closing id log} {s s' : State} (hclosing : s.cursor.isAt closing = false)
      (hat : s.cursor.isAt prefixes = true)
      (hread : Reads (.prefixOperation s.cursor.current closing id) s.next log s') :
      Reads (.step none closing (some id)) s log s'
  | stepPostfix {left closing id log} {s s' : State} (hclosing : s.cursor.isAt closing = false)
      (hat : s.cursor.isAt postfixes = true)
      (hread : Reads (.postfixOperation left s.cursor.current id) s.next log s') :
      Reads (.step (some left) closing (some id)) s log s'
  | stepNewline {left closing} {s : State} (hclosing : s.cursor.isAt closing = false)
      (hunary : s.cursor.isAt (unaryAfter left) = false)
      (hkind : s.cursor.current.kind = .newline) : Reads (.step left closing left) s [] s.next
  | stepOperator {left closing id log} {s s' : State} (hclosing : s.cursor.isAt closing = false)
      (hunary : s.cursor.isAt (unaryAfter left) = false)
      (hkind : s.cursor.current.kind ∈ TokenSet.operators)
      (hread : Reads (.binaryOperation left s.cursor.current closing id) s.next log s') :
      Reads (.step left closing (some id)) s log s'
  | stepOperand {left closing id log} {s s' : State} (hclosing : s.cursor.isAt closing = false)
      (hunary : s.cursor.isAt (unaryAfter left) = false) (hat : s.cursor.isAt stepStart = true)
      (hnewline : s.cursor.current.kind ≠ .newline)
      (hoperator : s.cursor.current.kind ∉ TokenSet.operators)
      (hleft : left.isSome = true → s.cursor.current.kind ∉ operandStart)
      (hread : Reads (.operand left s.cursor.current closing id) s.next log s') :
      Reads (.step left closing (some id)) s log s'
  | operand {left token closing id φ log} {s s' : State} (hbegins : Begins token closing id left φ)
      (hread : Reads φ s log s') : Reads (.operand left token closing id) s log s'
  -- Expressions
  | extendClosing {left closing} {s : State} (hclosing : s.cursor.isAt closing = true) :
      Reads (.extend left closing left) s [] s
  | extendBrace {left closing} {s : State} (hclosing : s.cursor.isAt closing = false)
      (hat : s.cursor.isAt {.openBrace} = true) (hstruct : namedStruct? s.tree left = none) :
      Reads (.extend (some left) closing (some left)) s [] s
  | extendStep {left closing next answer log log'} {s s₁ s' : State}
      (hclosing : s.cursor.isAt closing = false) (hend : s.cursor.atEnd = false)
      (hbrace : ∀ l, left = some l → s.cursor.isAt {.openBrace} = true →
        (namedStruct? s.tree l).isSome = true)
      (hstep : Reads (.step left closing next) s log s₁)
      (hextend : Reads (.extend (next.or left) closing answer) s₁ log' s') :
      Reads (.extend left closing answer) s (log ++ log') s'
  | sequenceClosing {body closing} {s : State}
      (hclosing : (s.past separators).cursor.isAt closing = true) :
      Reads (.sequence body closing body.toList) s [] (s.past separators).next
  | sequenceItem {body closing item answer log log'} {s s₁ s' : State}
      (hclosing : (s.past separators).cursor.isAt closing = false)
      (hend : (s.past separators).cursor.atEnd = false)
      (hitem : Reads (.extend none (separators ∪ closing) item) (s.past separators) log s₁)
      (hrest : Reads (.sequence (item.elim body body.push) closing answer) s₁ log' s') :
      Reads (.sequence body closing answer) s (log ++ log') s'
  -- Operands of one token
  | literal {token node} {s : State} (hnode : Literal token node) :
      Reads (.literal token s.newExpr) s [] (s.add node token.span)
  | nameUse {name entity} {s : State} (hfind : s.tree.find? name.text = some entity) :
      Reads (.nameUse name s.newExpr) s [] (s.add (.name name.text (some entity)) name.span)
  | typeName {after entity} {s : State} (hnames : NamesType s entity) :
      Reads (.typeName after entity) s [] s.next
  -- Operations
  | prefixOperation {token closing op operand type e log} {s s' : State}
      (hop : UnaryOp.ofToken? token.kind = some op)
      (hstep : Reads (.step none closing (some operand)) s log s')
      (htype : AtomicType s'.tree operand type) (hexpr : s'.tree.expr? operand = some e) :
      Reads (.prefixOperation token closing s'.newExpr) s log
        (s'.add (.unary op .before type operand) (token.span.merge e.span))
  | postfixOperation {left token op type e} {s : State}
      (hop : UnaryOp.ofToken? token.kind = some op) (htype : AtomicType s.tree left type)
      (hexpr : s.tree.expr? left = some e) :
      Reads (.postfixOperation left token s.newExpr) s []
        (s.add (.unary op .after type left) (e.span.merge token.span))
  | binaryOperation {left right token closing op type l r log} {s s' : State}
      (hop : BinaryOp.ofToken? token.kind = some op)
      (hright : Reads (.extend none closing (some right)) s log s')
      (htype : OperationType s'.tree op left right type) (hl : s'.tree.expr? left = some l)
      (hr : s'.tree.expr? right = some r) :
      Reads (.binaryOperation (some left) token closing s'.newExpr) s log
        (s'.add (.binary op type left right) (l.span.merge r.span))
  -- Arguments
  | argumentsNil {closing} {s : State} (hclosing : (s.past {.newline}).cursor.isAt closing = true) :
      Reads (.arguments closing [] none) s [] (s.past {.newline}).next
  | argumentsCons {closing param rest value next source target e log log'} {s s₁ s₂ s' : State}
      (hvalue : Reads (.extend none ({.comma} ∪ closing) (some value)) (s.past {.newline}) log s₁)
      (hsource : s₁.tree.exprType? value = some source)
      (htarget : s₁.tree.entityType? param = some target)
      (hconverts : Converts s₁.tree source target) (hseparates : Separates rest closing s₁ s₂)
      (hrest : Reads (.arguments closing rest next) s₂ log' s')
      (hexpr : s'.tree.expr? value = some e) :
      Reads (.arguments closing (param :: rest) (some s'.newExpr)) s (log ++ log')
        (s'.add (.argument value next) e.span)
  | call {callee paren function e params result args x log} {s s' : State}
      (htype : s.tree.exprType? callee = some function)
      (hentity : s.tree.entity? function = some e) (hfunction : e.function? = some (params, result))
      (hargs : Reads (.arguments {.closeParen} params args) s log s')
      (hexpr : s'.tree.expr? callee = some x) :
      Reads (.call callee paren s'.newExpr) s log
        (s'.add (.call callee function args) (x.span.merge s'.cursor.previousSpan))
  | structLiteral {name brace type frame members args x log} {s s' : State}
      (hstruct : namedStruct? s.tree name = some (type, frame))
      (hmembers : s.tree.variables? frame = some members)
      (hargs : Reads (.arguments {.closeBrace} members args) s log s')
      (hexpr : s'.tree.expr? name = some x) :
      Reads (.structLiteral name brace s'.newExpr) s log
        (s'.add (.structLiteral type args) (x.span.merge s'.cursor.previousSpan))
  -- Scopes
  | scopeBody {brace frame body log} {s s' : State}
      (hbody : Reads (.sequence #[] {.closeBrace} body) s log s') :
      Reads (.scopeBody brace frame s'.newExpr) s log
        (s'.add (.scope body frame) (brace.span.merge s'.cursor.previousSpan))
  | scope {brace frame id log} {s s₁ s₂ s' : State} (hopen : Opens s frame s₁)
      (hbody : Reads (.scopeBody brace frame id) s₁ log s₂) (hclose : Closes s₂ s') :
      Reads (.scope brace id) s log s'
  | scopeAfter {word keyword id log} {s s' : State}
      (hat : (s.past {.newline}).cursor.isAt {.openBrace} = true)
      (hscope : Reads (.scope (s.past {.newline}).cursor.current id) (s.past {.newline}).next
        log s') : Reads (.scopeAfter word keyword id) s log s'
  -- Branches, loops and returns
  | elseNone {s : State} (hat : s.cursor.isAt {.elseWord} = false) :
      Reads (.elseScope none) s [] s
  | elseSome {id log} {s s' : State} (hat : s.cursor.isAt {.elseWord} = true)
      (hscope : Reads (.scopeAfter "else" s.cursor.current id) s.next log s') :
      Reads (.elseScope (some id)) s log s'
  | branch {keyword frame cond thenScope elseScope log log' log''} {s s₁ s₂ s₃ s₄ s' : State}
      (hopen : Opens s frame s₁)
      (hcond : Reads (.extend none {.openBrace} (some cond)) s₁ log s₂)
      (htype : Condition s₂.tree cond)
      (hthen : Reads (.scopeAfter "if" keyword thenScope) s₂ log' s₃)
      (helse : Reads (.elseScope elseScope) s₃ log'' s₄) (hclose : Closes s₄ s') :
      Reads (.branch keyword s'.newExpr) s (log ++ log' ++ log'')
        (s'.add (.branch cond thenScope elseScope frame)
          (keyword.span.merge s'.cursor.previousSpan))
  | loopEndless {keyword frame scope log log'} {s s₁ s₂ s₃ s' : State} (hopen : Opens s frame s₁)
      (hfirst : Reads (.extend none {.semicolon, .openBrace} none) s₁ log s₂)
      (hat : s₂.cursor.isAt {.openBrace} = true)
      (htype : Condition (s₂.add (.bool true) keyword.span).tree s₂.newExpr)
      (hscope : Reads (.scopeAfter "for" keyword scope) (s₂.add (.bool true) keyword.span) log' s₃)
      (hclose : Closes s₃ s') :
      Reads (.loop keyword s'.newExpr) s (log ++ log')
        (s'.add (.whileLoop s₂.newExpr scope frame) (keyword.span.merge s'.cursor.previousSpan))
  | loopWhile {keyword frame cond scope log log'} {s s₁ s₂ s₃ s' : State} (hopen : Opens s frame s₁)
      (hfirst : Reads (.extend none {.semicolon, .openBrace} (some cond)) s₁ log s₂)
      (hat : s₂.cursor.isAt {.openBrace} = true) (htype : Condition s₂.tree cond)
      (hscope : Reads (.scopeAfter "for" keyword scope) s₂ log' s₃) (hclose : Closes s₃ s') :
      Reads (.loop keyword s'.newExpr) s (log ++ log')
        (s'.add (.whileLoop cond scope frame) (keyword.span.merge s'.cursor.previousSpan))
  | loopCounted {keyword frame init cond step scope log₁ log₂ log₃ log₄}
      {s s₁ s₂ s₃ s₄ s₅ s' : State} (hopen : Opens s frame s₁)
      (hinit : Reads (.extend none {.semicolon, .openBrace} (some init)) s₁ log₁ s₂)
      (hbrace : s₂.cursor.isAt {.openBrace} = false) (hfirst : s₂.cursor.isAt {.semicolon} = true)
      (hcond : Reads (.extend none {.semicolon} (some cond)) s₂.next log₂ s₃)
      (htype : Condition s₃.tree cond) (hsecond : s₃.cursor.isAt {.semicolon} = true)
      (hstep : Reads (.extend none {.openBrace} (some step)) s₃.next log₃ s₄)
      (hscope : Reads (.scopeAfter "for" keyword scope) s₄ log₄ s₅) (hclose : Closes s₅ s') :
      Reads (.loop keyword s'.newExpr) s (log₁ ++ log₂ ++ log₃ ++ log₄)
        (s'.add (.loop init cond step scope frame) (keyword.span.merge s'.cursor.previousSpan))
  | returns {keyword closing function rest e value source log} {s s' : State}
      (hconstruct : s.constructs = .function function :: rest)
      (hentity : s.tree.entity? function = some e)
      (hvalue : Reads (.extend none closing value) s log s')
      (hsource : returnedType? s'.tree value = some source)
      (hconverts : Converts s'.tree source (resultOf e)) :
      Reads (.returns keyword closing s'.newExpr) s log
        (s'.add (.result value function) (keyword.span.merge s'.cursor.previousSpan))
  -- Groups and functions
  | groupParameters {paren frame content result log} {s s₁ s₂ s₃ s' : State}
      (hopen : Opens s frame s₁) (hcontent : Reads (.extend none {.closeParen} content) s₁ log s₂)
      (hat : s₂.cursor.isAt {.closeParen} = true)
      (hdefinition : ∀ c, content = some c →
        ∃ e, s₂.tree.expr? c = some e ∧ isDefinition e.node = true)
      (hresult : ResultType s₂.next result s₃) (hclose : Closes s₃ s') :
      Reads (.group paren s'.newExpr) s log
        (s'.add (.signature content result frame) (paren.span.merge s'.cursor.previousSpan))
  | groupExpression {paren frame inner e log} {s s₁ s₂ s' : State} (hopen : Opens s frame s₁)
      (hcontent : Reads (.extend none {.closeParen} (some inner)) s₁ log s₂)
      (hat : s₂.cursor.isAt {.closeParen} = true) (hexpr : s₂.tree.expr? inner = some e)
      (hdefinition : isDefinition e.node = false) (hclose : Closes s₂.next s') :
      Reads (.group paren s'.newExpr) s log
        (s'.add (.group inner) (paren.span.merge s₂.cursor.current.span))
  | function {name signature params? result frame span params canonical body within log tree}
      {s s₁ s₂ s₃ s₄ : State}
      (hexpr : s.tree.expr? signature = some ⟨.signature params? result frame, span⟩)
      (hparams : s.tree.variables? frame = some params)
      (hcanonical : s.tree.signatureName? params result = some canonical)
      (hnamed : s₁ = (s.addEntity ⟨canonical, .function params result⟩).bind name.text s.newEntity)
      (henter : Enters (s₁.bindNew canonical s.newEntity) frame s₂)
      (hat : ((s₂.inside (.function s.newEntity)).past {.newline}).cursor.isAt {.openBrace} = true)
      (hbody : Reads
        (.scopeBody ((s₂.inside (.function s.newEntity)).past {.newline}).cursor.current frame body)
        ((s₂.inside (.function s.newEntity)).past {.newline}).next log s₃)
      (hclose : Closes s₃.outside s₄)
      (hbind : s₄.tree.bindBody s₄.tree.currentFrame s.newEntity body = .ok tree) :
      Reads (.function name signature ⟨tree.exprs.size⟩) s
        (⟨s.tree.currentFrame, name.text, s.newEntity, within⟩ ::
          (newBinding s₁ canonical s.newEntity ++ log))
        (State.add { s₄ with tree := tree } (.function name.text s.newEntity signature body)
          (name.span.merge s₄.cursor.previousSpan))
  -- Definitions
  | nextNone {closing} {s : State} (hat : s.cursor.isAt {.comma} = false) :
      Reads (.nextDefinition closing none) s [] s
  | nextSome {closing next e log} {s s' : State} (hat : s.cursor.isAt {.comma} = true)
      (hstep : Reads (.step none closing (some next)) (s.next.past {.newline}) log s')
      (hexpr : s'.tree.expr? next = some e) (hdefinition : isDefinition e.node = true) :
      Reads (.nextDefinition closing (some next)) s log s'
  | declaration {name op init type closing next within log} {s s' : State}
      (hnext : Reads (.nextDefinition closing next) (s.install (.var name.text type)) log s') :
      Reads (.declaration name op init type closing s'.newExpr) s
        (⟨s.tree.currentFrame, name.text, s.newEntity, within⟩ :: log)
        (s'.add (.definition name.text op init s.newEntity next)
          (name.span.merge s'.cursor.previousSpan))
  | initialConstant {symbol closing value log} {s s' : State}
      (hvalue : Reads (.extend none closing (some value)) s log s') :
      Reads (.initialValue .constant symbol closing (some value)) s log s'
  | initialSome {symbol closing value log} {s s' : State} (hat : s.cursor.isAt {.assign} = true)
      (hvalue : Reads (.extend none closing (some value)) s.next log s') :
      Reads (.initialValue .variable symbol closing (some value)) s log s'
  | initialNone {symbol closing} {s : State} (hat : s.cursor.isAt {.assign} = false) :
      Reads (.initialValue .variable symbol closing none) s [] s
  | definitionFunction {name symbol closing op type init e id log binding log'}
      {s s₁ s₂ s' : State} (hnew : s.tree.findLocal? name.text = none)
      (hop : op = if symbol.kind = .declare then .constant else .variable)
      (htype : DeclaredType op s type s₁)
      (hinit : Reads (.initialValue op symbol (closing ∪ {.comma}) (some init)) s₁ log s₂)
      (hexpr : s₂.tree.expr? init = some e) (hnode : ∃ p r f, e.node = .signature p r f)
      (hfunction : Reads (.function name init id) s₂ (binding :: log') s')
      (hwithin : binding.within = log.length) :
      Reads (.definition name symbol closing id) s (log ++ binding :: log') s'
  | definitionRecord {name symbol closing op type init e id log binding log'}
      {s s₁ s₂ s' : State} (hnew : s.tree.findLocal? name.text = none)
      (hop : op = if symbol.kind = .declare then .constant else .variable)
      (htype : DeclaredType op s type s₁)
      (hinit : Reads (.initialValue op symbol (closing ∪ {.comma}) (some init)) s₁ log s₂)
      (hexpr : s₂.tree.expr? init = some e) (hnode : ∃ form b f, e.node = .record form b f)
      (htypedef : Reads (.typedef name op init id) s₂ (binding :: log') s')
      (hwithin : binding.within = log.length) :
      Reads (.definition name symbol closing id) s (log ++ binding :: log') s'
  | definitionVariable {name symbol closing op type init defined id log binding log'}
      {s s₁ s₂ s' : State} (hnew : s.tree.findLocal? name.text = none)
      (hop : op = if symbol.kind = .declare then .constant else .variable)
      (htype : DeclaredType op s type s₁)
      (hinit : Reads (.initialValue op symbol (closing ∪ {.comma}) init) s₁ log s₂)
      (hnode : ∀ i, init = some i → ∃ e, s₂.tree.expr? i = some e ∧
        (∀ p r f, e.node ≠ .signature p r f) ∧ ∀ form b f, e.node ≠ .record form b f)
      (hdefined : DefinedType s₂.tree type init defined)
      (hdeclaration : Reads (.declaration name op init defined closing id) s₂ (binding :: log') s')
      (hwithin : binding.within = log.length) :
      Reads (.definition name symbol closing id) s (log ++ binding :: log') s'
  | nameDefinition {name closing id log} {s s' : State}
      (hat : s.cursor.isAt {.declare, .define} = true)
      (hread : Reads (.definition name s.cursor.current closing id) s.next log s') :
      Reads (.nameOrDefinition name closing id) s log s'
  | nameAlone {name closing id log} {s s' : State}
      (hat : s.cursor.isAt {.declare, .define} = false)
      (hread : Reads (.nameUse name id) s log s') :
      Reads (.nameOrDefinition name closing id) s log s'
  -- Records
  | record {keyword frame body log} {s s₁ s₂ s' : State}
      (hat : (s.past {.newline}).cursor.isAt {.openBrace} = true)
      (hopen : Opens (s.past {.newline}).next frame s₁)
      (hbody : Reads (.sequence #[] {.closeBrace} body) (s₁.inside .record) log s₂)
      (hmembers : ∀ member ∈ body, ∃ e, s₂.tree.expr? member = some e ∧
        mayHold (recordForm keyword) e.node = true)
      (hclose : Closes s₂.outside s') :
      Reads (.record keyword s'.newExpr) s log
        (s'.add (.record (recordForm keyword) body frame)
          (keyword.span.merge s'.cursor.previousSpan))
  | typedef {name op body form members frame span within} {s : State}
      (hexpr : s.tree.expr? body = some ⟨.record form members frame, span⟩) :
      Reads (.typedef name op body s.newExpr) s
        [⟨s.tree.currentFrame, name.text, s.newEntity, within⟩]
        ((s.install (recordEntity name.text form frame)).add
          (.typedef name.text op body s.newEntity) (name.span.merge span))
  | member {base dot type e frame fr entity x} {s : State} (hat : s.cursor.isAt {.name} = true)
      (htype : s.tree.exprType? base = some type) (hentity : s.tree.entity? type = some e)
      (hrecord : e.recordFrame? = some frame) (hframe : s.tree.frame? frame = some fr)
      (hfind : fr.find? s.cursor.current.text = some entity) (hexpr : s.tree.expr? base = some x) :
      Reads (.member base dot s.newExpr) s []
        (s.next.add (.member base s.cursor.current.text entity)
          (x.span.merge s.cursor.current.span))

/-- A phrase that was read, and what is known of it by an induction on its reading. -/
structure Known (P : Phrase → State → State → Prop) (φ : Phrase) (s : State) (log : List Binding)
    (s' : State) : Prop where
  read : Reads φ s log s'
  holds : P φ s s'

end OnePass.Grammar

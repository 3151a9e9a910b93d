import OnePass.Proofs.Questions
import OnePass.Proofs.Termination
import OnePass.Proofs.Twins

/-!
# Productions in parallel

Every production is coupled with itself, at the same or another level and given tokens that are
alike, if the productions below it are (`Coupling.Couples`). The productions are gone through
one by one, for all couplings at once. In particular a level is a twin of each higher one
(`twins_level`), so that the level at which a source is read does not matter.
-/

namespace OnePass.Grammar

open Coupling (Suits)

variable {α β : Type} {P : Places} {L : Coupling P} {u v : Bool} {p q : Productions}
  {token token' : Token} {closing : TokenSet}

/-! ## Operands of one token -/

theorem quotedValue_coupled (h : token.Alike P token') :
    L.Rel u u (quotedValue token) (quotedValue token') := by
  unfold quotedValue
  rw [h.text]
  cases Lexicon.unescape (insideQuotes token.text) with
  | ok text => exact L.pure
  | error e => exact L.fail h.span

theorem character_coupled (h : token.Alike P token') :
    L.Rel u u (character token) (character token') := by
  refine L.bind (quotedValue_coupled h) fun text => ?_
  match text with
  | [] => exact L.fail h.span
  | [c] => exact L.ite (fun _ => L.push h.span) fun _ => L.fail h.span
  | _ :: _ :: _ => exact L.fail h.span

theorem textLiteral_coupled (h : token.Alike P token') :
    L.Rel u u (textLiteral token) (textLiteral token') :=
  L.bind (quotedValue_coupled h) fun _ => L.push h.span

theorem integer_coupled (h : token.Alike P token') :
    L.Rel u u (integer token) (integer token') := by
  have hdigits : digitsOf token' = digitsOf token := by
    unfold digitsOf
    rw [h.kind, h.text]
  unfold integer
  rw [hdigits]
  dsimp only
  cases Number.digitsValue? (digitsOf token).1 (digitsOf token).2 with
  | none => exact L.fail h.span
  | some value => exact L.ite (fun _ => L.push h.span) fun _ => L.fail h.span

theorem float_coupled (h : token.Alike P token') : L.Rel u u (float token) (float token') := by
  unfold float
  rw [h.text]
  cases Number.Decimal.ofText? token.text.toList with
  | none => exact L.fail h.span
  | some decimal => exact L.push h.span

/-- A name is looked up in the frames, which are the same in both trees. -/
theorem resolve_coupled (h : token.Alike P token') :
    L.Rel u u (resolve token) (resolve token') := by
  rw [resolve_asks, resolve_asks, h.text]
  refine L.ask (q := fun t => t.find? token.text) (f := resolved token)
    (g := resolved token') (fun h => h.ask (fun t => t.find? token.text) fun t exprs =>
      t.find?_exprs exprs token.text) fun found => ?_
  unfold resolved
  rw [h.text]
  cases found with
  | some entity => exact L.pure
  | none => exact L.fail h.span

theorem nameUse_coupled (h : token.Alike P token') :
    L.Rel u u (nameUse token) (nameUse token') := by
  unfold nameUse
  rw [h.text]
  exact L.bind (resolve_coupled h) fun _ => L.push h.span

/-- The name of a type is no separator, so that whatever is read after it is not held up. -/
theorem typeName_coupled (h : token.Alike P token') :
    L.Rel u u (typeName token) (typeName token') := by
  unfold typeName
  rw [h.text]
  refine L.accept (by decide) (fun {name name'} hname => L.fresh ?_)
    (L.blame (fun _ => fails_fail) fun h => L.fail h.span)
  refine L.bind (resolve_coupled hname) fun entity => L.entityOf fun e => ?_
  rw [hname.text]
  exact L.ite (fun _ => L.pure) fun _ => L.fail hname.span

/-! ## Operations -/

theorem unaryOp_coupled (h : token.Alike P token') :
    L.Rel u u (unaryOp token) (unaryOp token') := by
  unfold unaryOp
  rw [h.kind, h.text]
  cases UnaryOp.ofToken? token.kind with
  | some op => exact L.pure
  | none => exact L.fail h.span

theorem atomicOperand_coupled (h : token.Alike P token') {op : UnaryOp} {operand : ExprId} :
    L.Rel u u (atomicOperand token op operand) (atomicOperand token' op operand) := by
  refine L.typeOf fun type => L.entityOf fun e => ?_
  cases e.atom? with
  | some a => exact L.pure
  | none => exact L.typeNameOf fun _ => L.fail h.span

/-- The place of an operation goes from its sign to its operand, and both ends correspond. -/
theorem prefixOperation_coupled (hp : L.Couples p q) (hv : Suits v closing)
    (h : token.Alike P token') :
    L.Rel v v (prefixOperation p token closing) (prefixOperation q token' closing) := by
  refine L.bind (unaryOp_coupled h) fun op => hp.stepping hv fun operand => ?_
  cases operand with
  | none => exact L.fail h.span
  | some operand =>
    refine L.bind (atomicOperand_coupled h) fun type => L.spanOf fun hspan => ?_
    exact L.push (P.merge h.span hspan)

theorem postfixOperation_coupled (h : token.Alike P token') {left : ExprId} :
    L.Rel u u (postfixOperation left token) (postfixOperation left token') := by
  refine L.bind (unaryOp_coupled h) fun op => L.bind (atomicOperand_coupled h) fun type => ?_
  exact L.spanOf fun hspan => L.push (P.merge hspan h.span)

theorem isVariable_coupled {node : Node} : L.Rel u u (isVariable node) (isVariable node) := by
  unfold isVariable
  cases assignedEntity? node with
  | some entity => exact L.entityOf fun _ => L.pure
  | none => exact L.pure

/-- A fault that names two types. -/
theorem typeNames_coupled (h : token.Alike P token') {a b : EntityId}
    {c : String → String → Cause} :
    L.Rel u u (do fail (c (← typeNameOf a) (← typeNameOf b)) token.span : Parse α)
      (do fail (c (← typeNameOf a) (← typeNameOf b)) token'.span) :=
  L.typeNameOf fun _ => L.typeNameOf fun _ => L.fail h.span

theorem assignment_coupled (h : token.Alike P token') {left : ExprId} {a b : EntityId} :
    L.Rel u u (assignment token left a b) (assignment token' left a b) := by
  refine L.nodeOf fun node => L.bind isVariable_coupled fun isVar => ?_
  refine L.ite (fun _ => L.fail h.span) fun _ => L.converts fun implicit => ?_
  exact L.ite (fun _ => L.pure) fun _ => typeNames_coupled h

theorem arithmetic_coupled (h : token.Alike P token') {a b : EntityId} :
    L.Rel u u (arithmetic token a b) (arithmetic token' a b) := by
  obtain ⟨kind, text, span⟩ := token'
  obtain rfl : text = token.text := h.text
  refine L.entityOf fun e => L.entityOf fun f => ?_
  cases e.atom? with
  | none => exact typeNames_coupled h (c := fun l r => .arithmeticOperands l token.text r)
  | some x =>
    cases f.atom? with
    | none => exact typeNames_coupled h (c := fun l r => .arithmeticOperands l token.text r)
    | some y =>
      refine L.ask
        (q := fun t => t.compose? (x.reading.join y.reading) (max x.size y.size))
        (f := composed token a b) (g := composed ⟨kind, token.text, span⟩ a b)
        (fun h => congrFun (congrFun h.compose? _) _) fun found => ?_
      cases found with
      | some type => exact L.pure
      | none => exact typeNames_coupled h (c := fun l r => .noComposite l token.text r)

theorem logic_coupled (h : token.Alike P token') {a b : EntityId} :
    L.Rel u u (logic token a b) (logic token' a b) := by
  unfold logic
  rw [h.text]
  refine L.entityOf fun e => L.entityOf fun f => ?_
  cases e.atom? with
  | none => exact typeNames_coupled h (c := fun l r => .logicOperands l token.text r)
  | some x =>
    cases f.atom? with
    | none => exact typeNames_coupled h (c := fun l r => .logicOperands l token.text r)
    | some y => exact L.pure

theorem operationType_coupled (h : token.Alike P token') {op : BinaryOp} {left right : ExprId} :
    L.Rel u u (operationType token op left right) (operationType token' op left right) := by
  refine L.typeOf fun a => L.typeOf fun b => ?_
  cases op.family with
  | assign => exact assignment_coupled h
  | arithmetic => exact arithmetic_coupled h
  | logic => exact logic_coupled h

/-- The right operand ends where the whole does, so it ends held up only if that may. -/
theorem binaryOperation_coupled (hp : L.Couples p q) (hv : Suits v closing)
    (h : token.Alike P token') {left : Option ExprId} :
    L.Rel v v (binaryOperation p left token closing) (binaryOperation q left token' closing) := by
  unfold binaryOperation
  rw [h.kind]
  cases BinaryOp.ofToken? token.kind with
  | none => exact L.unexpected h
  | some op =>
    cases left with
    | none => exact L.fail h.span
    | some left =>
      refine hp.reading hv fun right => ?_
      cases right with
      | none => exact L.fail h.span
      | some right =>
        refine L.bind (operationType_coupled h) fun type => ?_
        exact L.spanOf fun hl => L.spanOf fun hr => L.push (P.merge hl hr)

/-! ## Arguments -/

theorem missingArgument_coupled {param : EntityId} :
    L.Rel u v (missingArgument param : Parse α) (missingArgument param) :=
  L.entityOf fun _ => L.blame (fun _ => fails_fail) fun h => L.fail h.span

theorem checkArgument_coupled {param : EntityId} {argument : ExprId} :
    L.Rel u u (checkArgument param argument) (checkArgument param argument) := by
  refine L.typeOf fun source => ?_
  refine L.askKnown (q := fun t => t.entityType? param)
    (fun h => congrFun h.entityType? param) fun target => ?_
  refine L.converts fun implicit => L.ite (fun _ => ?_) fun _ => L.pure
  exact L.typeNameOf fun _ => L.typeNameOf fun _ => L.spanOf fun hspan => L.fail hspan

/-- Newlines are skipped in front of the comma, so that the first reading may be held up after
the last argument. -/
theorem argumentSeparator_coupled {rest : List EntityId} :
    L.Rel u true (argumentSeparator rest closing) (argumentSeparator rest closing) := by
  refine L.bind L.skipNewlines fun _ => L.accept (by decide) (fun h => ?_) ?_
  · cases rest with
    | nil =>
      refine L.bind L.skipNewlines fun _ => L.isAtAny fun closed => ?_
      exact L.ite (fun _ => L.fail h.span) fun _ => L.pure
    | cons => exact L.fresh (v := true) L.pure
  · cases rest with
    | nil => exact L.pure
    | cons => exact missingArgument_coupled

/-- Arguments end in good order, even if they begin held up. -/
theorem arguments_coupled (hp : L.Couples p q) (hclosing : closing.Impartial)
    {params : List EntityId} :
    L.Rel u false (arguments p closing params) (arguments q closing params) := by
  induction params generalizing u with
  | nil =>
    refine L.bind L.skipNewlines fun _ => L.expect ?_ (fun _ => L.pure) ?_
    · exact .after fun _ => fails_fail
    · exact L.blame (fun _ => fails_fail) fun h => L.fail h.span
  | cons param rest ih =>
    have hsuits : Suits false ({.comma} ∪ closing) := fun _ =>
      TokenSet.Impartial.union (by decide) hclosing
    refine L.bind L.skipNewlines fun _ => hp.extend hsuits nofun (fun value => ?_)
      missingArgument_coupled
    cases value with
    | none => exact missingArgument_coupled
    | some value =>
      refine L.bind checkArgument_coupled fun _ => L.bind argumentSeparator_coupled fun _ => ?_
      refine L.bind ih fun next => L.spanOf fun hspan => ?_
      exact L.bind (L.push hspan) fun _ => L.pure

/-- The parenthesis at the end of the arguments is read, so that a call ends in good order. -/
theorem call_coupled (hp : L.Couples p q) {callee : ExprId} (h : token.Alike P token') :
    L.Rel false false (call p callee token) (call q callee token') := by
  refine L.typeOf fun function => L.entityOf fun e => ?_
  cases e.function? with
  | none => exact L.typeNameOf fun _ => L.fail h.span
  | some found =>
    refine L.bind (arguments_coupled hp (by decide)) fun args => ?_
    refine L.spanOf fun hspan => ?_
    exact L.previousSpan fun hprevious => L.push (P.merge hspan hprevious)

/-- Whether an expression is the use of the name of a structure is a matter of its node. -/
theorem namedStruct?_alike {t t' : Tree} (h : t.Alike P t') (id : ExprId) :
    namedStruct? t' id = namedStruct? t id := by
  have hexpr := h.expr id
  unfold namedStruct?
  rw [h.entity?]
  generalize t.expr? id = found at hexpr
  generalize t'.expr? id = found' at hexpr
  cases hexpr with
  | none => rfl
  | some halike => simp only [Option.bind_eq_bind, Option.bind_some, halike.node]

theorem structLiteral_coupled (hp : L.Couples p q) {name : ExprId} (h : token.Alike P token') :
    L.Rel false false (structLiteral p name token) (structLiteral q name token') := by
  rw [structLiteral_asks, structLiteral_asks]
  refine L.ask (q := fun t => namedStruct? t name) (f := literalOf p name token)
    (g := literalOf q name token') (fun h => namedStruct?_alike h name) fun found => ?_
  cases found with
  | none => exact L.fail h.span
  | some found =>
    refine L.askKnown (q := fun t => t.variables? found.2)
      (fun h => h.ask (fun t => t.variables? found.2) fun t exprs =>
        t.variables?_exprs exprs found.2) fun members => ?_
    refine L.bind (arguments_coupled hp (by decide)) fun args => ?_
    refine L.spanOf fun hspan => ?_
    exact L.previousSpan fun hprevious => L.push (P.merge hspan hprevious)

/-! ## Scopes -/

theorem scopeBody_coupled (hp : L.Couples p q) (h : token.Alike P token') {frame : FrameId} :
    L.Rel false false (scopeBody p token frame) (scopeBody q token' frame) := by
  refine L.bind hp.sequence fun body => ?_
  exact L.previousSpan fun hprevious => L.push (P.merge h.span hprevious)

theorem scope_coupled (hp : L.Couples p q) (h : token.Alike P token') :
    L.Rel false false (scope p token) (scope q token') := by
  refine L.bind (L.openFrame h.span) fun frame => ?_
  refine L.bind (scopeBody_coupled hp h) fun body => ?_
  exact L.bind (L.closeFrame h.span) fun _ => L.pure

/-- A brace is no separator, so it does not matter whether the newlines before it were held up. -/
theorem scopeAfter_coupled (hp : L.Couples p q) {word : String} (h : token.Alike P token') :
    L.Rel false false (scopeAfter p word token) (scopeAfter q word token') := by
  refine L.bind L.skipNewlines fun _ => ?_
  exact L.accept (by decide) (fun hbrace => scope_coupled hp hbrace) (L.fail h.span)

/-! ## Branches, loops and returns -/

theorem condition_coupled (h : token.Alike P token') {expr : Option ExprId} :
    L.Rel u u (condition token expr) (condition token' expr) := by
  cases expr with
  | none => exact L.fail h.span
  | some expr =>
    refine L.typeOf fun type => L.converts fun implicit => ?_
    exact L.ite (fun _ => L.pure) fun _ => L.typeNameOf fun _ => L.fail h.span

theorem elseScope_coupled (hp : L.Couples p q) : L.Rel false false (elseScope p) (elseScope q) :=
  L.accept (by decide) (fun h => L.bind (scopeAfter_coupled hp h) fun _ => L.pure) L.pure

theorem branch_coupled (hp : L.Couples p q) (h : token.Alike P token') :
    L.Rel false false (branch p token) (branch q token') := by
  refine L.bind (L.openFrame h.span) fun frame => hp.reading (fun _ => by decide) fun first => ?_
  refine L.bind (condition_coupled h) fun cond => L.bind (scopeAfter_coupled hp h) fun yes => ?_
  refine L.bind (elseScope_coupled hp) fun no => L.bind (L.closeFrame h.span) fun _ => ?_
  exact L.previousSpan fun hprevious => L.push (P.merge h.span hprevious)

theorem whileLoop_coupled (hp : L.Couples p q) (h : token.Alike P token') {first : Option ExprId}
    {frame : FrameId} :
    L.Rel false false (whileLoop p token first frame) (whileLoop q token' first frame) := by
  refine L.bind (w := false) ?_ fun cond => ?_
  · cases first with
    | none => exact L.push h.span
    | some cond => exact L.pure
  · refine L.bind (condition_coupled h) fun cond => L.bind (scopeAfter_coupled hp h) fun body => ?_
    refine L.bind (L.closeFrame h.span) fun _ => ?_
    exact L.previousSpan fun hprevious => L.push (P.merge h.span hprevious)

/-- Only a semicolon ends the condition, and has to be read next. -/
theorem countedLoop_coupled (hp : L.Couples p q) (h : token.Alike P token')
    {semicolon semicolon' : Token} (hsemicolon : semicolon.Alike P semicolon') {init : ExprId}
    {frame : FrameId} :
    L.Rel false false (countedLoop p token semicolon init frame)
      (countedLoop q token' semicolon' init frame) := by
  refine hp.readingAny fun found => L.bind (condition_coupled hsemicolon) fun cond => ?_
  refine L.expect fails_fail (fun hsecond => ?_) (L.fail hsemicolon.span)
  refine hp.reading (fun _ => by decide) fun step => ?_
  cases step with
  | none => exact L.fail hsecond.span
  | some step =>
    refine L.bind (scopeAfter_coupled hp h) fun body => ?_
    refine L.bind (L.closeFrame h.span) fun _ => ?_
    exact L.previousSpan fun hprevious => L.push (P.merge h.span hprevious)

/-- The first part ends at a semicolon but not at a newline, so it may end held up. It is not in
front of a brace then, and only a semicolon leads on. -/
theorem loop_coupled (hp : L.Couples p q) (h : token.Alike P token') :
    L.Rel false false (loop p token) (loop q token') := by
  refine L.bind (L.openFrame h.span) fun frame => hp.readingAny fun first => ?_
  refine L.isAtFree (by decide) (whileLoop_coupled hp h) ?_
  refine L.expect (.after fun _ => fails_fail) (fun hsemicolon => ?_)
    (L.blame (fun _ => fails_fail) fun h => L.unexpected h)
  cases first with
  | none => exact L.fail hsemicolon.span
  | some init => exact countedLoop_coupled hp h hsemicolon

theorem returnedType_coupled {value : Option ExprId} {f g : EntityId → Parse α}
    (hf : ∀ type, L.Rel u u (f type) (g type)) :
    L.Rel u u (returnedType value >>= f) (returnedType value >>= g) := by
  cases value with
  | some value => exact L.typeOf hf
  | none => exact hf _

theorem enclosingFunction?_coupled {f g : Option EntityId → Parse α}
    (hf : ∀ function, L.Rel u u (f function) (g function)) :
    L.Rel u u (enclosingFunction? >>= f) (enclosingFunction? >>= g) := by
  rw [enclosingFunction?_asks]
  exact L.bind (w := u) (L.constructs (f := pure) (g := pure) fun _ => L.pure) hf

/-- The value ends where the return does, and so may be held up if that may. -/
theorem returns_coupled (hp : L.Couples p q) (hv : Suits v closing) (h : token.Alike P token') :
    L.Rel v v (returns p token closing) (returns q token' closing) := by
  refine enclosingFunction?_coupled fun function => ?_
  cases function with
  | none => exact L.fail h.span
  | some function =>
    refine L.entityOf fun e => hp.reading hv fun value => ?_
    refine returnedType_coupled fun source => L.converts fun implicit => ?_
    refine L.ite (fun _ => typeNames_coupled h) fun _ => ?_
    exact L.previousSpan fun hprevious => L.push (P.merge h.span hprevious)

/-! ## Groups and functions -/

theorem isParameters_coupled {content : Option ExprId} :
    L.Rel u u (isParameters content) (isParameters content) := by
  cases content with
  | none => exact L.pure
  | some content =>
    refine L.nodeOf fun node => ?_
    cases node <;> exact L.pure

theorem signature_coupled (h : token.Alike P token') {params : Option ExprId} {frame : FrameId} :
    L.Rel u u (signature token params frame) (signature token' params frame) := by
  have hclose (result : EntityId) : L.Rel u u
      (do
        closeFrame token.span
        push (.signature params result frame) (token.span.merge (← previousSpan)))
      (do
        closeFrame token'.span
        push (.signature params result frame) (token'.span.merge (← previousSpan))) :=
    L.bind (L.closeFrame h.span) fun _ =>
      L.previousSpan fun hprevious => L.push (P.merge h.span hprevious)
  exact L.accept (by decide) (fun harrow => L.fresh (L.bind (typeName_coupled harrow) hclose))
    (hclose _)

theorem group_coupled (hp : L.Couples p q) (h : token.Alike P token') :
    L.Rel false false (group p token) (group q token') := by
  refine L.bind (L.openFrame h.span) fun frame => hp.reading (fun _ => by decide) fun content => ?_
  refine L.accept (by decide) (fun hclose => ?_)
    (L.blame (fun _ => fails_fail) fun h => L.unexpected h)
  refine L.bind isParameters_coupled fun params => ?_
  refine L.ite (fun _ => signature_coupled h) fun _ => ?_
  refine L.bind (L.closeFrame h.span) fun _ => ?_
  cases content with
  | some inner => exact L.push (P.merge h.span hclose.span)
  | none => exact L.fail h.span

theorem bindCanonical_coupled {canonical : String} {function : EntityId} :
    L.Rel u u (bindCanonical canonical function) (bindCanonical canonical function) :=
  L.ask (q := fun t => t.findLocal? canonical) (f := canonicalOf canonical function)
    (g := canonicalOf canonical function)
    (fun h => h.ask (fun t => t.findLocal? canonical) fun _ _ => rfl)
    fun _ => L.ite (fun _ => L.bindName) fun _ => L.pure

theorem bindBody_coupled (h : token.Alike P token') {function : EntityId} {body : ExprId} :
    L.Rel u u (bindBody token function body) (bindBody token' function body) := by
  rw [bindBody_asks, bindBody_asks]
  refine L.ask
    (q := fun t => (t.frame? t.currentFrame).bind (·.body? function))
    (f := recordBody token function body) (g := recordBody token' function body)
    (fun h => h.ask (fun t => (t.frame? t.currentFrame).bind (·.body? function))
      fun _ _ => rfl) fun taken => ?_
  unfold recordBody
  rw [h.text]
  cases taken with
  | some _ => exact L.fail h.span
  | none =>
    exact L.still (still_change
      (c := fun t => t.modifyFrame t.currentFrame (·.setBody function body)) fun _ _ => rfl)

/-- A function ends with its body, in good order. -/
theorem function_coupled (hp : L.Couples p q) (h : token.Alike P token') {header : ExprId} :
    L.Rel u false (function p token header) (function q token' header) := by
  unfold function
  rw [h.text]
  refine L.nodeOf fun node => ?_
  cases node with
  | signature content result frame =>
    refine L.askKnown (q := fun t => t.variables? frame)
      (fun h => h.ask (fun t => t.variables? frame) fun t exprs => t.variables?_exprs exprs frame)
      fun params => ?_
    refine L.askKnown (q := fun t => t.signatureName? params result)
      (fun h => h.ask (fun t => t.signatureName? params result) fun _ _ => rfl) fun canonical => ?_
    refine L.bind (L.still still_pushEntity) fun function => L.bind L.bindName fun _ => ?_
    refine L.bind bindCanonical_coupled fun _ => L.bind (L.enterFrame h.span) fun _ => ?_
    refine L.bind L.beginConstruct fun _ => L.bind L.skipNewlines fun _ => ?_
    refine L.accept (by decide) (fun hbrace => ?_) (L.fail h.span)
    refine L.bind (scopeBody_coupled hp hbrace) fun body => L.bind L.endConstruct fun _ => ?_
    refine L.bind (L.closeFrame h.span) fun _ => L.bind (bindBody_coupled h) fun _ => ?_
    exact L.previousSpan fun hprevious => L.push (P.merge h.span hprevious)
  | _ => exact L.fail h.span

/-! ## Definitions -/

/-- A step that makes nothing after the comma is a fault in both readings, so it may be held up. -/
theorem nextDefinition_coupled (hp : L.Couples p q) (hv : Suits v closing) :
    L.Rel v v (nextDefinition p closing) (nextDefinition q closing) := by
  refine L.accept (by decide) (fun hcomma => ?_) L.pure
  refine L.bind L.skipNewlines fun _ => hp.step hv (fun _ => rfl) (fun next => ?_)
    (L.fail hcomma.span)
  cases next with
  | none => exact L.fail hcomma.span
  | some next =>
    refine L.nodeOf fun node => ?_
    cases node with
    | definition => exact L.pure
    | _ => exact L.fail hcomma.span

theorem declaration_coupled (hp : L.Couples p q) (hv : Suits v closing) (h : token.Alike P token')
    {op : DefOp} {init : Option ExprId} {type : EntityId} :
    L.Rel v v (declaration p token op init type closing)
      (declaration q token' op init type closing) := by
  unfold declaration
  rw [h.text]
  refine L.bind (L.still still_install) fun entity => ?_
  refine L.bind (nextDefinition_coupled hp hv) fun next => ?_
  exact L.previousSpan fun hprevious => L.push (P.merge h.span hprevious)

theorem initializer_coupled (hp : L.Couples p q) (hv : Suits v closing)
    (h : token.Alike P token') :
    L.Rel v v (initializer p token closing) (initializer q token' closing) := by
  unfold initializer
  rw [h.text]
  refine hp.reading hv fun value => ?_
  cases value with
  | some value => exact L.pure
  | none => exact L.fail h.span

theorem declaredType_coupled (h : token.Alike P token') {op : DefOp} :
    L.Rel u u (declaredType op token) (declaredType op token') := by
  cases op with
  | constant => exact L.pure
  | «variable» =>
    refine L.isAt (by decide) fun assign => L.ite (fun _ => L.pure) fun _ => ?_
    exact L.bind (typeName_coupled h) fun _ => L.pure

theorem initialValue_coupled (hp : L.Couples p q) (hv : Suits v closing)
    (h : token.Alike P token') {op : DefOp} :
    L.Rel v v (initialValue p op token closing) (initialValue q op token' closing) := by
  cases op with
  | constant => exact L.bind (initializer_coupled hp hv h) fun _ => L.pure
  | «variable» =>
    refine L.accept (by decide) (fun hassign => L.fresh ?_) L.pure
    exact L.bind (initializer_coupled hp hv hassign) fun _ => L.pure

theorem definedType_coupled (h : token.Alike P token') {symbol symbol' : Token}
    (hsymbol : symbol.Alike P symbol') {type : Option EntityId} {init : Option ExprId} :
    L.Rel u u (definedType token symbol type init) (definedType token' symbol' type init) := by
  unfold definedType
  rw [h.text]
  cases type with
  | none =>
    cases init with
    | none => exact L.fail hsymbol.span
    | some init =>
      dsimp only
      rw [← bind_pure (typeOf init)]
      exact L.typeOf fun _ => L.pure
  | some type =>
    cases init with
    | none => exact L.pure
    | some init =>
      refine L.typeOf fun source => L.converts fun implicit => ?_
      exact L.ite (fun _ => L.pure) fun _ =>
        typeNames_coupled hsymbol (c := fun l r => .initializer token.text l r)

theorem typedef_coupled (h : token.Alike P token') {op : DefOp} {body : ExprId} :
    L.Rel u u (typedef token op body) (typedef token' op body) := by
  unfold typedef
  rw [h.text]
  refine L.nodeOf fun node => ?_
  cases node with
  | record form members frame =>
    refine L.bind (L.still still_install) fun entity => L.spanOf fun hspan => ?_
    exact L.push (P.merge h.span hspan)
  | _ => exact L.fail h.span

/-- The value has the same node in both readings, and the node decides how they go on. Functions
end in good order, and the other definitions as their closing tokens allow. -/
theorem definition_coupled (hp : L.Couples p q) (hv : Suits v closing) (h : token.Alike P token')
    {symbol symbol' : Token} (hsymbol : symbol.Alike P symbol') :
    L.Rel v v (definition p token symbol closing) (definition q token' symbol' closing) := by
  have hcomma : Suits v (closing ∪ {.comma}) := fun h => (hv h).union (by decide)
  rw [definition_asks, definition_asks, h.text]
  refine L.ask (q := fun t => t.findLocal? token.text)
    (f := definitionOf p token symbol closing) (g := definitionOf q token' symbol' closing)
    (fun h => h.ask (fun t => t.findLocal? token.text) fun _ _ => rfl)
    fun found => ?_
  unfold definitionOf
  rw [h.text, hsymbol.kind]
  refine L.ite (fun _ => L.bind (w := v) (L.fail h.span) fun _ => ?_) fun _ => ?_
  all_goals
    refine L.bind (declaredType_coupled hsymbol) fun type => ?_
    refine L.bind (initialValue_coupled hp hcomma hsymbol) fun init => ?_
    have hvariable {op : DefOp} : L.Rel v v
        (definedType token symbol type init >>= fun type =>
          declaration p token op init type closing)
        (definedType token' symbol' type init >>= fun type =>
          declaration q token' op init type closing) :=
      L.bind (definedType_coupled h hsymbol) fun _ => declaration_coupled hp hv h
    cases init with
    | none => exact hvariable
    | some init =>
      refine L.bind (w := v) ?_ fun node => ?_
      · rw [map_eq_pure_bind]
        exact L.nodeOf fun _ => L.pure
      · rcases node with _ | node
        · exact hvariable
        · cases node with
          | signature => exact L.orderly (function_coupled hp h)
          | record => exact typedef_coupled h
          | _ => exact hvariable

theorem nameOrDefinition_coupled (hp : L.Couples p q) (hv : Suits v closing)
    (h : token.Alike P token') :
    L.Rel v v (nameOrDefinition p token closing) (nameOrDefinition q token' closing) :=
  L.accept (by decide) (fun hsymbol => L.fresh (definition_coupled hp hv h hsymbol))
    (nameUse_coupled h)

/-! ## Records -/

theorem checkMembers_coupled {form : RecordForm} {body : List ExprId} :
    L.Rel u u (checkMembers form body) (checkMembers form body) := by
  induction body with
  | nil => exact L.pure
  | cons member rest ih =>
    refine L.nodeOf fun node => ?_
    exact L.ite (fun _ => L.spanOf fun hspan => L.fail hspan) fun _ => ih

/-- The brace at the end is read with the sequence, so that a record ends in good order. -/
theorem record_coupled (hp : L.Couples p q) (h : token.Alike P token') :
    L.Rel false false (record p token) (record q token') := by
  unfold record recordForm
  rw [h.kind]
  refine L.bind L.skipNewlines fun _ => ?_
  refine L.accept (by decide) (fun hbrace => ?_)
    (L.blame (fun _ => fails_fail) fun h => L.unexpected h)
  refine L.bind (L.openFrame hbrace.span) fun frame => ?_
  refine L.bind L.beginConstruct fun _ => L.bind hp.sequence fun body => ?_
  refine L.bind checkMembers_coupled fun _ => L.bind L.endConstruct fun _ => ?_
  refine L.bind (L.closeFrame hbrace.span) fun _ => ?_
  exact L.previousSpan fun hprevious => L.push (P.merge h.span hprevious)

theorem member_coupled {base : ExprId} (h : token.Alike P token') :
    L.Rel u u (member base token) (member base token') := by
  refine L.accept (by decide) (fun {name name'} hname => L.fresh ?_)
    (L.blame (fun _ => fails_fail) fun h => L.unexpected h)
  dsimp only
  rw [hname.text]
  refine L.typeOf fun type => L.entityOf fun e => ?_
  cases e.recordFrame? with
  | none => exact L.typeNameOf fun _ => L.fail h.span
  | some frame =>
    refine L.frameOf fun x => ?_
    cases x.find? name.text with
    | none => exact L.typeNameOf fun _ => L.fail hname.span
    | some entity => exact L.spanOf fun hspan => L.push (P.merge hspan hname.span)

/-! ## One turn around the circles -/

/-- The kind of the token decides, and is the same in both. What ends with a bracket ends in good
order, and what ends with an expression as its closing tokens allow. -/
theorem operand_coupled (hp : L.Couples p q) (hv : Suits v closing) {left : Option ExprId}
    (h : token.Alike P token') :
    L.Rel false v (operand p left token closing) (operand q left token' closing) := by
  unfold operand
  rw [h.kind]
  generalize token.kind = kind
  cases kind with
  | name => exact L.fresh (nameOrDefinition_coupled hp hv h)
  | decimal | binary | hexadecimal => exact L.fresh (integer_coupled h)
  | float => exact L.fresh (float_coupled h)
  | character => exact L.fresh (character_coupled h)
  | text => exact L.fresh (textLiteral_coupled h)
  | ifWord => exact L.orderly (branch_coupled hp h)
  | forWord => exact L.orderly (loop_coupled hp h)
  | returnWord => exact L.fresh (returns_coupled hp hv h)
  | structWord | enumWord => exact L.orderly (record_coupled hp h)
  | openParen =>
    cases left with
    | none => exact L.orderly (group_coupled hp h)
    | some callee => exact L.orderly (call_coupled hp h)
  | openBrace =>
    cases left with
    | none => exact L.orderly (scope_coupled hp h)
    | some name => exact L.orderly (structLiteral_coupled hp h)
  | dot =>
    cases left with
    | none => exact L.fail h.span
    | some base => exact L.fresh (member_coupled h)
  | _ => exact L.unexpected h

section

variable {left : Option ExprId} {f g : Option ExprId → Parse β}

/-- A step that reads a token is not held up any more. -/
theorem stepFrom_coupled (hp : L.Couples p q) (hv : Suits v closing)
    (hf : ∀ made, L.Rel v v (f made) (g made)) :
    L.Rel u v (stepFrom p left closing >>= f) (stepFrom q left closing >>= g) := by
  unfold stepFrom
  rw [bind_assoc, bind_assoc]
  refine L.expect (.bind (.after fun _ => fails_fail)) (fun {token token'} h => ?_)
    (L.bind (w := v) (L.blame (fun _ => fails_fail) fun h => L.unexpected h) hf)
  refine L.bind (w := v) ?_ hf
  dsimp only
  rw [h.kind]
  refine L.ite (fun _ => L.fresh L.pure) fun _ => L.ite (fun _ => L.fresh ?_) fun _ => ?_
  · exact L.bind (binaryOperation_coupled hp hv h) fun _ => L.pure
  · refine L.ite (fun _ => L.unexpected h) fun _ => ?_
    exact L.bind (operand_coupled hp hv h) fun _ => L.pure

/-- A step that begins held up makes nothing, unless it reads a token that is no separator. -/
theorem stepTurn_coupled (hp : L.Couples p q) (hv : Suits v closing) (hu : v = true → u = true)
    (hf : ∀ made, L.Rel v v (f made) (g made)) (hnone : L.Rel u v (f none) (g none)) :
    L.Rel u v (stepTurn p left closing >>= f) (stepTurn q left closing >>= g) := by
  unfold stepTurn
  rw [bind_assoc, bind_assoc]
  refine L.stops hv hu fun closed => ?_
  cases closed with
  | true => exact hnone
  | false =>
    cases left with
    | none =>
      simp only [Bool.false_eq_true, if_false, bind_assoc]
      refine L.accept (by decide) (fun h => L.fresh ?_) (stepFrom_coupled hp hv hf)
      exact L.bind (L.bind (prefixOperation_coupled hp hv h) fun _ => L.pure) hf
    | some left =>
      simp only [Bool.false_eq_true, if_false, bind_assoc]
      refine L.accept (by decide) (fun h => L.fresh ?_) (stepFrom_coupled hp hv hf)
      exact L.bind (L.bind (postfixOperation_coupled h) fun _ => L.pure) hf

theorem endsBeforeBrace_coupled {left : Option ExprId} :
    L.Rel u u (endsBeforeBrace left) (endsBeforeBrace left) := by
  cases left with
  | none => exact L.pure
  | some left =>
    refine L.isAt (by decide) fun brace => L.ite (fun _ => ?_) fun _ => L.pure
    exact L.ask (q := fun t => (namedStruct? t left).isNone) (f := pure) (g := pure)
      (fun h => congrArg Option.isNone (namedStruct?_alike h left)) fun _ => L.pure

/-- Either the expression is as long as it gets, and what follows goes on with the left part, or
a step is made and what was made is extended. -/
theorem extendTurn_coupled (hp : L.Couples p q) (hv : Suits v closing) (hu : v = true → u = true)
    (hf : ∀ made, L.Rel v v (f made) (g made)) (hleft : L.Rel u v (f left) (g left)) :
    L.Rel u v (extendTurn p left closing >>= f) (extendTurn q left closing >>= g) := by
  unfold extendTurn
  rw [bind_assoc, bind_assoc]
  refine L.stops hv hu fun closed => ?_
  cases closed with
  | true => exact hleft
  | false =>
    simp only [Bool.false_eq_true, if_false, bind_assoc]
    refine L.atEnd fun ended => ?_
    cases ended with
    | true =>
      simp only [if_true, bind_assoc]
      exact L.blame (fun _ => fails_fail) fun h => L.unexpected h
    | false =>
      simp only [Bool.false_eq_true, if_false, bind_assoc]
      refine L.bind endsBeforeBrace_coupled fun ends => ?_
      cases ends with
      | true => exact hleft
      | false =>
        simp only [Bool.false_eq_true, if_false, bind_assoc]
        refine hp.step hv hu (fun made => ?_) (hp.extend hv hu hf hleft)
        cases made with
        | some made => exact hp.reading hv hf
        | none => exact hp.reading hv hf

end

/-- An item ends at separators or where the sequence does, and those tokens are impartial. -/
theorem item_coupled (hp : L.Couples p q) {body : Array ExprId} :
    L.Rel false false (itemsFrom p body closing none) (itemsFrom q body closing none) := by
  refine L.atEnd fun ended => L.ite (fun _ => ?_) fun _ => ?_
  · exact L.blame (fun _ => fails_fail) fun h => L.unexpected h
  · refine hp.reading (fun _ => TokenSet.impartial_separators closing) fun made => ?_
    cases made with
    | some made => exact hp.sequence
    | none => exact hp.sequence

/-! ## Levels -/

/-- One turn is coupled if what is below it is, and if its sequences are. -/
theorem couples_turn {x y : Array ExprId → TokenSet → Parse (List ExprId)} (hp : L.Couples p q)
    (hsequence : ∀ body closing, L.Rel false false (x body closing) (y body closing)) :
    L.Couples { p.turn with sequence := x } { q.turn with sequence := y } where
  step := stepTurn_coupled hp
  extend := extendTurn_coupled hp
  sequence := hsequence _ _

/-- Productions that run out of fuel at once are coupled with any. -/
theorem couples_zero : L.Couples (level 0) q where
  step {_ _ v _ _ _ _} _ _ hf _ := L.bind (w := v) (L.excluded id) hf
  extend {_ _ v _ _ _ _} _ _ hf _ := L.bind (w := v) (L.excluded id) hf
  sequence := L.excluded id

theorem sequenceTurn_twin (hp : (twins P k).Couples p q) {body : Array ExprId} :
    Twin P k (sequenceTurn p body closing) (sequenceTurn q body closing) := by
  rw [sequenceTurn_asks, sequenceTurn_asks]
  refine twin_bind (twin_skip (by decide)) fun _ => twin_accept (fun _ => ?_) (item_coupled hp)
  exact twin_still still_pure

/-- A level is a twin of each higher one. -/
theorem twins_level {n m : Nat} (h : n ≤ m) : (twins P k).Couples (level n) (level m) := by
  induction n generalizing m with
  | zero => exact couples_zero
  | succ n ih =>
    obtain ⟨m, rfl⟩ := Nat.exists_eq_add_of_lt h
    have hbelow := ih (Nat.le_add_right n m)
    exact couples_turn hbelow fun _ _ => sequenceTurn_twin hbelow

/-! ## Sources -/

/-- Reads a whole source with given productions. -/
def programWith (p : Productions) : Parse Unit := do
  let start := (← current).span
  let body ← p.body {.eof}
  let scope ← push (.scope body Tree.mainFrame) (start.merge (← previousSpan))
  modify fun s => { s with tree := { s.tree with mainScope := some scope } }

theorem program_run (s : State) :
    program s = programWith (level (fuel s.cursor.tokens.size)) s := by
  unfold program programWith
  simp only [current_bind, get_bind]

theorem parse_ok {tokens : TokenList} {t : Tree} : parse tokens = .ok t ↔
    ∃ s, programWith (level (fuel tokens.size)) (.initial tokens) = .ok () s ∧ s.tree = t := by
  have hrun : program (.initial tokens) =
      programWith (level (fuel tokens.size)) (.initial tokens) := program_run _
  unfold parse
  rw [hrun]
  cases programWith (level (fuel tokens.size)) (.initial tokens) <;> simp

theorem programWith_coupled (hp : L.Couples p q) :
    L.Rel false false (programWith p) (programWith q) := by
  refine L.place fun hstart => L.bind hp.sequence fun body => L.previousSpan fun hprevious => ?_
  refine L.bind (L.push (P.merge hstart hprevious)) fun scope => ?_
  exact L.still (still_change (c := fun t => { t with mainScope := some scope }) fun _ _ => rfl)

theorem alike_withBuiltins : Tree.withBuiltins.Alike P Tree.withBuiltins := by
  refine ⟨rfl, fun id => ?_, rfl⟩
  have hempty : Tree.withBuiltins.expr? id = none := by
    unfold Tree.expr?
    rfl
  rw [hempty]
  exact .none

theorem alike_initial {tokens tokens' : TokenList} (h : tokens.Alike P k tokens')
    (hclosed : tokens.last.kind = .eof) (hclosed' : tokens'.last.kind = .eof) :
    (State.initial tokens).Alike P k (.initial tokens') :=
  ⟨h, hclosed, hclosed', rfl, alike_withBuiltins, rfl⟩

/-- A source is read like one whose tokens are alike, at any level that is at least its own. -/
theorem program_twin {tokens other : TokenList} {n : Nat}
    (h : tokens.Alike P (finish (program (.initial tokens))).cursor.position other)
    (hclosed : tokens.last.kind = .eof) (hother : other.last.kind = .eof)
    (hn : fuel tokens.size ≤ n) :
    Same P (finish (program (.initial tokens))).cursor.position (program (.initial tokens))
      (programWith (level n) (.initial other)) := by
  have hrun : program (.initial tokens) =
      programWith (level (fuel tokens.size)) (.initial tokens) := program_run _
  rw [hrun] at h ⊢
  exact (programWith_coupled (twins_level hn)).same (alike_initial h hclosed hother) (Nat.le_refl _)

end OnePass.Grammar

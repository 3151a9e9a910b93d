import OnePass.Parse
import OnePass.Proofs.Phrase

/-!
# Runs of expressions

Every production that answers leads from its state to the next as the rules of `Reads` say. The
productions are taken apart one by one, over any productions below them that do so already
(`Productions.Faithful`): here those of operands, operations and arguments.
-/

namespace OnePass.Grammar

/-- The functions at which the circles are cut follow the rules. -/
structure Productions.Faithful (p : Productions) : Prop where
  step : ∀ {left closing answer s s'}, p.step left closing s = .ok answer s' →
    ∃ log, Reads (.step left closing answer) s log s'
  extend : ∀ {left closing answer s s'}, p.extend left closing s = .ok answer s' →
    ∃ log, Reads (.extend left closing answer) s log s'
  sequence : ∀ {body closing answer s s'}, p.sequence body closing s = .ok answer s' →
    ∃ log, Reads (.sequence body closing answer) s log s'

variable {p : Productions} {s s' : State} {id : ExprId}

/-! ## Operands of one token -/

theorem quotedValue_run (token : Token) (s : State) :
    quotedValue token s = match Lexicon.unescape (insideQuotes token.text) with
      | .ok text => .ok text s
      | .error e => .error ⟨.badEscape e.found, some token.span⟩ s := by
  unfold quotedValue
  cases Lexicon.unescape (insideQuotes token.text) <;> rfl

theorem quotedValue_bind {α : Type} {token : Token} {f : List Char → Parse α} {b : α} :
    (quotedValue token >>= f) s = .ok b s' ↔
      ∃ text, Lexicon.unescape (insideQuotes token.text) = .ok text ∧ f text s = .ok b s' := by
  rw [bind_run, quotedValue_run]
  cases Lexicon.unescape (insideQuotes token.text) <;> simp

/-- The four readers of literals push a node each, so one rule serves them all. -/
theorem literal_reads {token : Token}
    (h : ∃ reader ∈ [character, textLiteral, integer, float], reader token s = .ok id s') :
    ∃ log, Reads (.literal token id) s log s' := by
  suffices ∃ node, Literal token node ∧ push node token.span s = .ok id s' by
    obtain ⟨node, hnode, hpush⟩ := this
    obtain ⟨rfl, rfl⟩ := push_ok.1 hpush
    exact ⟨[], .literal hnode⟩
  obtain ⟨reader, hreader, h⟩ := h
  simp only [List.mem_cons, List.not_mem_nil, or_false] at hreader
  rcases hreader with rfl | rfl | rfl | rfl
  · obtain ⟨text, htext, h⟩ := quotedValue_bind.1 h
    match text, htext, h with
    | [], _, h => exact absurd h fail_ne_ok
    | [c], htext, h =>
      rcases ite_ok.1 h with ⟨hsize, h⟩ | ⟨_, h⟩
      · exact ⟨_, .character htext hsize, h⟩
      · exact absurd h fail_ne_ok
    | _ :: _ :: _, _, h => exact absurd h fail_ne_ok
  · obtain ⟨text, htext, h⟩ := quotedValue_bind.1 h
    exact ⟨_, .text htext, h⟩
  · unfold integer at h
    cases hdigits : Number.digitsValue? (digitsOf token).1 (digitsOf token).2 with
    | none =>
      simp only [hdigits] at h
      exact absurd h fail_ne_ok
    | some value =>
      simp only [hdigits] at h
      rcases ite_ok.1 h with ⟨hvalue, h⟩ | ⟨_, h⟩
      · exact ⟨_, .integer hdigits hvalue, h⟩
      · exact absurd h fail_ne_ok
  · unfold float at h
    cases hdecimal : Number.Decimal.ofText? token.text.toList with
    | none =>
      simp only [hdecimal] at h
      exact absurd h fail_ne_ok
    | some decimal =>
      simp only [hdecimal] at h
      exact ⟨_, .float hdecimal, h⟩

theorem resolve_run (name : Token) (s : State) :
    resolve name s = match s.tree.find? name.text with
      | some entity => .ok entity s
      | none => .error ⟨.unknownName name.text, some name.span⟩ s := by
  show (match s.tree.find? name.text with
      | some entity => pure entity
      | none => fail (.unknownName name.text) name.span : Parse EntityId) s = _
  cases s.tree.find? name.text <;> rfl

theorem resolve_bind {α : Type} {name : Token} {f : EntityId → Parse α} {b : α} :
    (resolve name >>= f) s = .ok b s' ↔
      ∃ entity, s.tree.find? name.text = some entity ∧ f entity s = .ok b s' := by
  rw [bind_run, resolve_run]
  cases s.tree.find? name.text <;> simp

theorem nameUse_reads {name : Token} (h : nameUse name s = .ok id s') :
    ∃ log, Reads (.nameUse name id) s log s' := by
  obtain ⟨entity, hfind, h⟩ := resolve_bind.1 h
  obtain ⟨rfl, rfl⟩ := push_ok.1 h
  exact ⟨[], .nameUse hfind⟩

theorem typeName_ok {after : Token} {entity : EntityId} (h : typeName after s = .ok entity s') :
    NamesType s entity ∧ s.next = s' := by
  rcases accept?_bind.1 h with ⟨hat, h⟩ | ⟨_, h⟩
  · obtain ⟨found, hfind, h⟩ := resolve_bind.1 h
    obtain ⟨e, hentity, h⟩ := entityOf_bind.1 h
    rcases ite_ok.1 h with ⟨htype, h⟩ | ⟨_, h⟩
    · obtain ⟨rfl, rfl⟩ := pure_ok.1 h
      exact ⟨⟨hat, hfind, e, hentity, htype⟩, rfl⟩
    · exact absurd h fail_ne_ok
  · cases h

/-! ## Operations -/

theorem unaryOp_run (token : Token) (s : State) :
    unaryOp token s = match UnaryOp.ofToken? token.kind with
      | some op => .ok op s
      | none => .error ⟨.notUnary token.text, some token.span⟩ s := by
  unfold unaryOp
  cases UnaryOp.ofToken? token.kind <;> rfl

theorem unaryOp_bind {α : Type} {token : Token} {f : UnaryOp → Parse α} {b : α} :
    (unaryOp token >>= f) s = .ok b s' ↔
      ∃ op, UnaryOp.ofToken? token.kind = some op ∧ f op s = .ok b s' := by
  rw [bind_run, unaryOp_run]
  cases UnaryOp.ofToken? token.kind <;> simp

theorem atomicOperand_bind {α : Type} {token : Token} {op : UnaryOp} {operand : ExprId}
    {f : EntityId → Parse α} {b : α}
    (hbind : (atomicOperand token op operand >>= f) s = .ok b s') :
    ∃ type, AtomicType s.tree operand type ∧ f type s = .ok b s' := by
  obtain ⟨found, s₁, hrun, h⟩ := bind_ok.1 hbind
  obtain ⟨type, htype, hrun⟩ := typeOf_bind.1 hrun
  obtain ⟨e, hentity, hrun⟩ := entityOf_bind.1 hrun
  cases hatom : e.atom? with
  | none =>
    simp only [hatom] at hrun
    obtain ⟨name, _, hrun⟩ := typeNameOf_bind.1 hrun
    exact absurd hrun fail_ne_ok
  | some a =>
    simp only [hatom] at hrun
    obtain ⟨rfl, rfl⟩ := pure_ok.1 hrun
    exact ⟨_, ⟨htype, e, a, hentity, hatom⟩, h⟩

theorem prefixOperation_reads (hp : p.Faithful) {token : Token} {closing : TokenSet}
    (h : prefixOperation p token closing s = .ok id s') :
    ∃ log, Reads (.prefixOperation token closing id) s log s' := by
  obtain ⟨op, hop, h⟩ := unaryOp_bind.1 h
  obtain ⟨operand, s₁, hstep, h⟩ := bind_ok.1 h
  cases operand with
  | none => exact absurd h fail_ne_ok
  | some operand =>
    obtain ⟨type, htype, h⟩ := atomicOperand_bind h
    obtain ⟨e, hexpr, h⟩ := spanOf_bind.1 h
    obtain ⟨rfl, rfl⟩ := push_ok.1 h
    obtain ⟨log, hread⟩ := hp.step hstep
    exact ⟨log, .prefixOperation hop hread htype hexpr⟩

theorem postfixOperation_reads {left : ExprId} {token : Token}
    (h : postfixOperation left token s = .ok id s') :
    ∃ log, Reads (.postfixOperation left token id) s log s' := by
  obtain ⟨op, hop, h⟩ := unaryOp_bind.1 h
  obtain ⟨type, htype, h⟩ := atomicOperand_bind h
  obtain ⟨e, hexpr, h⟩ := spanOf_bind.1 h
  obtain ⟨rfl, rfl⟩ := push_ok.1 h
  exact ⟨[], .postfixOperation hop htype hexpr⟩

/-- Where two types are checked for conversion, the first way is taken only if they convert. -/
theorem converts_ite {source target : EntityId} {x y : Parse EntityId} {type : EntityId}
    (h : (converts source target >>= fun c => if c = true then x else y) s = .ok type s') :
    (Converts s.tree source target ∧ x s = .ok type s') ∨ y s = .ok type s' := by
  obtain ⟨cast, hcast, h⟩ := converts_bind.1 h
  rcases ite_ok.1 h with ⟨himplicit, h⟩ | ⟨_, h⟩
  · exact .inl ⟨⟨cast, hcast, himplicit⟩, h⟩
  · exact .inr h

theorem isVariable_ok {node : Node} {s₁ : State} (h : isVariable node s = .ok true s₁) :
    (∃ v w, assignedEntity? node = some v ∧ s.tree.entity? v = some w ∧ w.isVar = true) ∧
      s = s₁ := by
  unfold isVariable at h
  cases hassigned : assignedEntity? node with
  | none =>
    simp only [hassigned] at h
    exact absurd (pure_ok.1 h).1 (by decide)
  | some v =>
    simp only [hassigned] at h
    obtain ⟨w, hentity, h⟩ := entityOf_bind.1 h
    obtain ⟨hvar, rfl⟩ := pure_ok.1 h
    exact ⟨⟨v, w, rfl, hentity, hvar⟩, rfl⟩

/-- An assignment has the type of its left side, into which the right one converts. -/
theorem assignment_ok {token : Token} {left : ExprId} {l r type : EntityId}
    (h : assignment token left l r s = .ok type s') :
    (∃ e v w, s.tree.expr? left = some e ∧ assignedEntity? e.node = some v ∧
      s.tree.entity? v = some w ∧ w.isVar = true) ∧ Converts s.tree r l ∧ l = type ∧ s = s' := by
  obtain ⟨e, hnode, h⟩ := nodeOf_bind.1 h
  obtain ⟨isVar, s₁, hvar, h⟩ := bind_ok.1 h
  cases isVar with
  | false => cases h
  | true =>
    obtain ⟨⟨v, w, hassigned, hentity, hisVar⟩, rfl⟩ := isVariable_ok hvar
    rcases converts_ite h with ⟨hconverts, h⟩ | h
    · obtain ⟨rfl, rfl⟩ := pure_ok.1 h
      exact ⟨⟨e, v, w, hnode, hassigned, hentity, hisVar⟩, hconverts, rfl, rfl⟩
    · obtain ⟨_, _, h⟩ := typeNameOf_bind.1 h
      obtain ⟨_, _, h⟩ := typeNameOf_bind.1 h
      exact absurd h fail_ne_ok

/-- Two types that are both atomic. -/
theorem atoms_bind {α : Type} {l r : EntityId} {x : Atom → Atom → Parse α} {y : Parse α} {b : α}
    (h : (do
      match (← entityOf l).atom?, (← entityOf r).atom? with
      | some a, some b => x a b
      | _, _ => y : Parse α) s = .ok b s') :
    (∃ e f a b', s.tree.entity? l = some e ∧ s.tree.entity? r = some f ∧ e.atom? = some a ∧
      f.atom? = some b' ∧ x a b' s = .ok b s') ∨ y s = .ok b s' := by
  obtain ⟨e, hl, h⟩ := entityOf_bind.1 h
  obtain ⟨f, hr, h⟩ := entityOf_bind.1 h
  cases ha : e.atom? with
  | none => exact .inr (by simpa only [ha] using h)
  | some a =>
    cases hb : f.atom? with
    | none => exact .inr (by simpa only [ha, hb] using h)
    | some b' =>
      exact .inl ⟨e, f, a, b', hl, hr, ha, hb, by simpa only [ha, hb] using h⟩

theorem typeNames_fail {α : Type} {l r : EntityId} {b : α} {cause : String → String → Cause}
    {span : Span} : (do fail (cause (← typeNameOf l) (← typeNameOf r)) span : Parse α) s ≠
      .ok b s' := by
  intro h
  obtain ⟨_, _, h⟩ := typeNameOf_bind.1 h
  obtain ⟨_, _, h⟩ := typeNameOf_bind.1 h
  exact fail_ne_ok h

/-- The families of operators have one rule each for the type of an operation. -/
theorem operationType_ok {token : Token} {op : BinaryOp} {left right : ExprId} {type : EntityId}
    (h : operationType token op left right s = .ok type s') :
    OperationType s.tree op left right type ∧ s = s' := by
  obtain ⟨l, hl, h⟩ := typeOf_bind.1 h
  obtain ⟨r, hr, h⟩ := typeOf_bind.1 h
  cases hfamily : op.family with
  | assign =>
    simp only [hfamily] at h
    obtain ⟨⟨e, v, w, hnode, hassigned, hentity, hisVar⟩, hconverts, rfl, rfl⟩ := assignment_ok h
    exact ⟨.assignment hfamily hl hr hnode hassigned hentity hisVar hconverts, rfl⟩
  | arithmetic =>
    simp only [hfamily] at h
    rcases atoms_bind h with ⟨e, f, a, b, hle, hre, ha, hb, h⟩ | h
    · rw [get_bind] at h
      cases hcompose : s.tree.compose? (a.reading.join b.reading) (max a.size b.size) with
      | none =>
        simp only [hcompose] at h
        exact absurd h typeNames_fail
      | some found =>
        simp only [hcompose] at h
        obtain ⟨rfl, rfl⟩ := pure_ok.1 h
        exact ⟨.arithmetic hfamily hl hr hle hre ha hb hcompose, rfl⟩
    · exact absurd h typeNames_fail
  | logic =>
    simp only [hfamily] at h
    rcases atoms_bind h with ⟨e, f, a, b, hle, hre, ha, hb, h⟩ | h
    · obtain ⟨rfl, rfl⟩ := pure_ok.1 h
      exact ⟨.logic hfamily hl hr hle hre ha hb, rfl⟩
    · exact absurd h typeNames_fail

theorem binaryOperation_reads (hp : p.Faithful) {left : Option ExprId} {token : Token}
    {closing : TokenSet} (h : binaryOperation p left token closing s = .ok id s') :
    ∃ log, Reads (.binaryOperation left token closing id) s log s' := by
  unfold binaryOperation at h
  cases hop : BinaryOp.ofToken? token.kind with
  | none =>
    simp only [hop] at h
    exact absurd h unexpected_ne_ok
  | some op =>
    cases left with
    | none =>
      simp only [hop] at h
      exact absurd h fail_ne_ok
    | some left =>
      simp only [hop] at h
      obtain ⟨right, s₁, hright, h⟩ := bind_ok.1 h
      cases right with
      | none => exact absurd h fail_ne_ok
      | some right =>
        obtain ⟨type, s₂, hrun, h⟩ := bind_ok.1 h
        obtain ⟨htype, rfl⟩ := operationType_ok hrun
        obtain ⟨l, hl, h⟩ := spanOf_bind.1 h
        obtain ⟨r, hr, h⟩ := spanOf_bind.1 h
        obtain ⟨rfl, rfl⟩ := push_ok.1 h
        obtain ⟨log, hread⟩ := hp.extend hright
        exact ⟨log, .binaryOperation hop hread htype hl hr⟩

/-! ## Arguments -/

theorem missingArgument_ne_ok {α : Type} {param : EntityId} {b : α} :
    (missingArgument param : Parse α) s ≠ .ok b s' := by
  intro h
  obtain ⟨_, _, h⟩ := entityOf_bind.1 h
  cases h

theorem checkArgument_ok {param : EntityId} {argument : ExprId} {u : Unit}
    (h : checkArgument param argument s = .ok u s') :
    (∃ source target, s.tree.exprType? argument = some source ∧
      s.tree.entityType? param = some target ∧ Converts s.tree source target) ∧ s = s' := by
  obtain ⟨source, hsource, h⟩ := typeOf_bind.1 h
  obtain ⟨target, htarget, h⟩ := known_bind.1 h
  obtain ⟨cast, hcast, h⟩ := converts_bind.1 h
  rcases ite_ok.1 h with ⟨_, h⟩ | ⟨himplicit, h⟩
  · obtain ⟨_, _, h⟩ := typeNameOf_bind.1 h
    obtain ⟨_, _, h⟩ := typeNameOf_bind.1 h
    obtain ⟨_, _, h⟩ := spanOf_bind.1 h
    exact absurd h fail_ne_ok
  · obtain ⟨_, rfl⟩ := pure_ok.1 h
    exact ⟨⟨source, target, hsource, htarget, cast, hcast, by simpa using himplicit⟩, rfl⟩

/-- After an argument comes a comma if a parameter is left. If none is left there may be one too,
but not in front of the closing token, which is asked for next. -/
theorem argumentSeparator_ok {rest : List EntityId} {closing : TokenSet} {u : Unit}
    (h : argumentSeparator rest closing s = .ok u s') : Separates rest closing s s' := by
  unfold argumentSeparator skipNewlines at h
  rw [skip_bind] at h
  rcases accept?_bind.1 h with ⟨hcomma, h⟩ | ⟨hcomma, h⟩
  · cases rest with
    | nil =>
      simp only [skip_bind, isAt_bind] at h
      rcases ite_ok.1 h with ⟨_, h⟩ | ⟨hclosing, h⟩
      · exact absurd h fail_ne_ok
      · obtain ⟨_, rfl⟩ := pure_ok.1 h
        exact .surplus hcomma (by simpa using hclosing)
    | cons param rest =>
      obtain ⟨_, rfl⟩ := pure_ok.1 h
      exact .comma hcomma
  · cases rest with
    | nil =>
      obtain ⟨_, rfl⟩ := pure_ok.1 h
      exact .last hcomma
    | cons param rest => exact absurd h missingArgument_ne_ok

theorem arguments_nil_ok {closing : TokenSet} {answer : Option ExprId}
    (h : arguments p closing [] s = .ok answer s') :
    (s.past {.newline}).cursor.isAt closing = true ∧ answer = none ∧
      s' = (s.past {.newline}).next := by
  unfold arguments skipNewlines at h
  rw [skip_bind] at h
  rcases accept?_bind.1 h with ⟨hclosing, h⟩ | ⟨_, h⟩
  · obtain ⟨rfl, rfl⟩ := pure_ok.1 h
    exact ⟨hclosing, rfl, rfl⟩
  · cases h

/-- An argument for a parameter is read, and then those for the parameters after it. -/
theorem arguments_cons_ok {closing : TokenSet} {param : EntityId} {rest : List EntityId}
    {answer : Option ExprId} (h : arguments p closing (param :: rest) s = .ok answer s') :
    ∃ value s₁ source target s₂ next s₃ e,
      p.expr ({.comma} ∪ closing) (s.past {.newline}) = .ok (some value) s₁ ∧
        s₁.tree.exprType? value = some source ∧ s₁.tree.entityType? param = some target ∧
        Converts s₁.tree source target ∧ Separates rest closing s₁ s₂ ∧
        arguments p closing rest s₂ = .ok next s₃ ∧ s₃.tree.expr? value = some e ∧
        answer = some s₃.newExpr ∧ s' = s₃.add (.argument value next) e.span := by
  unfold arguments skipNewlines at h
  rw [skip_bind] at h
  obtain ⟨value, s₁, hvalue, h⟩ := bind_ok.1 h
  cases value with
  | none => exact absurd h missingArgument_ne_ok
  | some value =>
    obtain ⟨_, _, hcheck, h⟩ := bind_ok.1 h
    obtain ⟨⟨source, target, hsource, htarget, hconverts⟩, rfl⟩ := checkArgument_ok hcheck
    obtain ⟨_, s₂, hseparator, h⟩ := bind_ok.1 h
    obtain ⟨next, s₃, hnext, h⟩ := bind_ok.1 h
    obtain ⟨e, hexpr, h⟩ := spanOf_bind.1 h
    obtain ⟨_, _, hpush, h⟩ := bind_ok.1 h
    obtain ⟨rfl, rfl⟩ := push_ok.1 hpush
    obtain ⟨rfl, rfl⟩ := pure_ok.1 h
    exact ⟨value, s₁, source, target, s₂, next, s₃, e, hvalue, hsource, htarget, hconverts,
      argumentSeparator_ok hseparator, hnext, hexpr, rfl, rfl⟩

/-- By induction on the parameters, with one argument for each. -/
theorem arguments_reads (hp : p.Faithful) {closing : TokenSet} {params : List EntityId}
    {answer : Option ExprId} (h : arguments p closing params s = .ok answer s') :
    ∃ log, Reads (.arguments closing params answer) s log s' := by
  induction params generalizing s s' answer with
  | nil =>
    obtain ⟨hclosing, rfl, rfl⟩ := arguments_nil_ok h
    exact ⟨[], .argumentsNil hclosing⟩
  | cons param rest ih =>
    obtain ⟨value, s₁, source, target, s₂, next, s₃, e, hvalue, hsource, htarget, hconverts,
      hseparates, hnext, hexpr, rfl, rfl⟩ := arguments_cons_ok h
    obtain ⟨log, hread⟩ := hp.extend hvalue
    obtain ⟨log', hrest⟩ := ih hnext
    exact ⟨log ++ log',
      .argumentsCons hread hsource htarget hconverts hseparates hrest hexpr⟩

/-- The callee has the type of a function, and its parameters are what the arguments are for. -/
theorem call_ok {callee : ExprId} {paren : Token} (h : call p callee paren s = .ok id s') :
    ∃ function e params result args s₁ x, s.tree.exprType? callee = some function ∧
      s.tree.entity? function = some e ∧ e.function? = some (params, result) ∧
      arguments p {.closeParen} params s = .ok args s₁ ∧ s₁.tree.expr? callee = some x ∧
      id = s₁.newExpr ∧
      s' = s₁.add (.call callee function args) (x.span.merge s₁.cursor.previousSpan) := by
  obtain ⟨function, htype, h⟩ := typeOf_bind.1 h
  obtain ⟨e, hentity, h⟩ := entityOf_bind.1 h
  cases hfunction : e.function? with
  | none =>
    simp only [hfunction] at h
    obtain ⟨_, _, h⟩ := typeNameOf_bind.1 h
    exact absurd h fail_ne_ok
  | some f =>
    obtain ⟨params, result⟩ := f
    simp only [hfunction] at h
    obtain ⟨args, s₁, hargs, h⟩ := bind_ok.1 h
    obtain ⟨x, hexpr, h⟩ := spanOf_bind.1 h
    rw [previousSpan_bind] at h
    obtain ⟨rfl, rfl⟩ := push_ok.1 h
    exact ⟨function, e, params, result, args, s₁, x, htype, hentity, hfunction, hargs, hexpr,
      rfl, rfl⟩

theorem call_reads (hp : p.Faithful) {callee : ExprId} {paren : Token}
    (h : call p callee paren s = .ok id s') : ∃ log, Reads (.call callee paren id) s log s' := by
  obtain ⟨function, e, params, result, args, s₁, x, htype, hentity, hfunction, hargs, hexpr, rfl,
    rfl⟩ := call_ok h
  obtain ⟨log, hread⟩ := arguments_reads hp hargs
  exact ⟨log, .call htype hentity hfunction hread hexpr⟩

/-- A name that stands for a structure, and the members that the arguments are for. -/
theorem structLiteral_ok {name : ExprId} {brace : Token}
    (h : structLiteral p name brace s = .ok id s') :
    ∃ type frame members args s₁ x, namedStruct? s.tree name = some (type, frame) ∧
      s.tree.variables? frame = some members ∧
      arguments p {.closeBrace} members s = .ok args s₁ ∧ s₁.tree.expr? name = some x ∧
      id = s₁.newExpr ∧
      s' = s₁.add (.structLiteral type args) (x.span.merge s₁.cursor.previousSpan) := by
  unfold structLiteral at h
  rw [get_bind] at h
  cases hstruct : namedStruct? s.tree name with
  | none =>
    simp only [hstruct] at h
    exact absurd h fail_ne_ok
  | some found =>
    obtain ⟨type, frame⟩ := found
    simp only [hstruct] at h
    rw [get_bind] at h
    obtain ⟨members, hmembers, h⟩ := known_bind.1 h
    obtain ⟨args, s₁, hargs, h⟩ := bind_ok.1 h
    obtain ⟨x, hexpr, h⟩ := spanOf_bind.1 h
    rw [previousSpan_bind] at h
    obtain ⟨rfl, rfl⟩ := push_ok.1 h
    exact ⟨type, frame, members, args, s₁, x, rfl, hmembers, hargs, hexpr, rfl, rfl⟩

theorem structLiteral_reads (hp : p.Faithful) {name : ExprId} {brace : Token}
    (h : structLiteral p name brace s = .ok id s') :
    ∃ log, Reads (.structLiteral name brace id) s log s' := by
  obtain ⟨type, frame, members, args, s₁, x, hstruct, hmembers, hargs, hexpr, rfl, rfl⟩ :=
    structLiteral_ok h
  obtain ⟨log, hread⟩ := arguments_reads hp hargs
  exact ⟨log, .structLiteral hstruct hmembers hread hexpr⟩

end OnePass.Grammar

import OnePass.Proofs.Safe

/-!
# Productions that are safe

Every production is safe if the functions below it are (`Productions.Safe`). The productions are
gone through one by one, and each of the checks that never fails has its own reason: an expression
stops in front of what it was told to stop at, so the scope of `if` or `for` is there; a signature
that has just been read has its frame in the innermost one; a new function has no body; two
built-in atomic types compose; the operators that are looked for stand in the table of operators.
So reading a source is safe at every level (`program_safe`).
-/

namespace OnePass.Grammar

variable {α : Type} {p : Productions} {s s₁ s' : State} {frame : FrameId} {log : List Binding}
  {closing : TokenSet}

/-! ## Operands of one token -/

theorem safe_quotedValue {token : Token} {f : List Char → Parse α}
    (hf : ∀ text, Safe (f text) s) : Safe (quotedValue token >>= f) s := by
  unfold quotedValue
  cases Lexicon.unescape (insideQuotes token.text) with
  | ok text => exact safe_asked .pure rfl (hf text)
  | error e => exact .bind (.fail rfl) nofun

theorem character_safe {token : Token} : Safe (character token) s := by
  refine safe_quotedValue fun text => ?_
  match text with
  | [] => exact .fail rfl
  | [c] => exact safe_ite (fun _ => .push) fun _ => .fail rfl
  | _ :: _ :: _ => exact .fail rfl

theorem textLiteral_safe {token : Token} : Safe (textLiteral token) s :=
  safe_quotedValue fun _ => .push

theorem integer_safe {token : Token} : Safe (integer token) s := by
  unfold integer
  dsimp only
  cases Number.digitsValue? (digitsOf token).1 (digitsOf token).2 with
  | none => exact .fail rfl
  | some value => exact safe_ite (fun _ => .push) fun _ => .fail rfl

theorem float_safe {token : Token} : Safe (float token) s := by
  unfold float
  cases Number.Decimal.ofText? token.text.toList with
  | none => exact .fail rfl
  | some decimal => exact .push

theorem nameUse_safe (hs : s.Steady) {name : Token} : Safe (nameUse name) s :=
  safe_resolve hs fun _ _ => .push

theorem typeName_safe (hs : s.Steady) {after : Token} : Safe (typeName after) s := by
  refine safe_accept (fun _ => ?_) fun _ => safe_current (.fail rfl)
  refine safe_resolve hs.next fun entity hfind => ?_
  refine safe_entityOf hs.tree (hs.tree.find? hfind) fun e _ => ?_
  exact safe_ite (fun _ => .pure) fun _ => .fail rfl

/-! ## Operations -/

/-- The operators before and after an operand are in the table of operators. -/
theorem unary_of_mem {kind : TokenKind} (h : kind ∈ prefixes ∨ kind ∈ postfixes) :
    ∃ op, UnaryOp.ofToken? kind = some op := by
  rw [← Option.isSome_iff_exists]
  cases kind <;> first | rfl | exact absurd h (by decide)

theorem safe_unaryOp {token : Token} {f : UnaryOp → Parse α}
    (hkind : token.kind ∈ prefixes ∨ token.kind ∈ postfixes) (hf : ∀ op, Safe (f op) s) :
    Safe (unaryOp token >>= f) s := by
  obtain ⟨op, hop⟩ := unary_of_mem hkind
  unfold unaryOp
  rw [hop]
  exact safe_asked .pure rfl (hf op)

theorem safe_atomicOperand (hs : s.Steady) {token : Token} {op : UnaryOp} {operand : ExprId}
    {f : EntityId → Parse α} (hoperand : s.tree.HasExpr operand)
    (hf : ∀ type, Safe (f type) s) : Safe (atomicOperand token op operand >>= f) s := by
  refine .bind ?_ fun type s₁ hrun => ?_
  · refine safe_typeOf hs.tree hoperand fun type _ htype => ?_
    refine safe_entityOf hs.tree htype fun e _ => ?_
    cases e.atom? with
    | some a => exact .pure
    | none => exact safe_typeNameOf hs.tree htype fun _ => .fail rfl
  · have hbind : (atomicOperand token op operand >>= pure) s = .ok type s₁ :=
      bind_ok.2 ⟨type, s₁, hrun, rfl⟩
    obtain ⟨_, _, hpure⟩ := atomicOperand_bind hbind
    obtain ⟨rfl, rfl⟩ := pure_ok.1 hpure
    exact hf _

theorem prefixOperation_safe (hp : p.Faithful) (hl : p.Safe) (hs : s.Steady) {token : Token}
    (hkind : token.kind ∈ prefixes) : Safe (prefixOperation p token closing) s := by
  refine safe_unaryOp (.inl hkind) fun op => ?_
  refine safe_operand hp hl hs fun operand log s₁ hread hs₁ => ?_
  cases operand with
  | none => exact .fail rfl
  | some operand =>
    have hoperand := hread.made rfl rfl
    refine safe_atomicOperand hs₁ hoperand fun type => ?_
    exact safe_spanOf hs₁.tree hoperand fun _ => .push

theorem postfixOperation_safe (hs : s.Steady) {left : ExprId} {token : Token}
    (hkind : token.kind ∈ postfixes) (hleft : s.tree.HasExpr left) :
    Safe (postfixOperation left token) s := by
  refine safe_unaryOp (.inr hkind) fun op => ?_
  refine safe_atomicOperand hs hleft fun type => ?_
  exact safe_spanOf hs.tree hleft fun _ => .push

theorem safe_isVariable (hs : s.Steady) {node : Node} {f : Bool → Parse α}
    (hreferent : ∀ m, node.referent? = some m → s.tree.HasEntity m) (hf : ∀ b, Safe (f b) s) :
    Safe (isVariable node >>= f) s := by
  unfold isVariable
  cases hnode : assignedEntity? node with
  | none => exact safe_asked .pure rfl (hf false)
  | some entity =>
    have hentity := hreferent entity (Node.referent?_of_assigned hnode)
    rw [bind_assoc]
    exact safe_entityOf hs.tree hentity fun e _ => safe_asked .pure rfl (hf e.isVar)

theorem assignment_safe (hs : s.Steady) {token : Token} {left : ExprId} {l r : EntityId}
    (hleft : s.tree.HasExpr left) (hl : s.tree.HasEntity l) (hr : s.tree.HasEntity r) :
    Safe (assignment token left l r) s := by
  refine safe_nodeOf hs.tree hleft fun e he => ?_
  refine safe_isVariable hs (hs.tree.node he).referent fun isVar => ?_
  refine safe_ite (fun _ => .fail rfl) fun _ => ?_
  refine safe_converts hs.tree hr hl fun implicit => ?_
  exact safe_ite (fun _ => .pure) fun _ =>
    safe_typeNames hs.tree hr hl fun _ _ => .fail rfl

/-- The sizes and readings of two atomic types are built in, so a type is composed of them. -/
theorem arithmetic_safe (hs : s.Steady) {token : Token} {l r : EntityId}
    (hl : s.tree.HasEntity l) (hr : s.tree.HasEntity r) : Safe (arithmetic token l r) s := by
  refine safe_entityOf hs.tree hl fun e he => safe_entityOf hs.tree hr fun f hf => ?_
  cases hx : e.atom? with
  | none => exact safe_typeNames hs.tree hl hr fun _ _ => .fail rfl
  | some x =>
    cases hy : f.atom? with
    | none => exact safe_typeNames hs.tree hl hr fun _ _ => .fail rfl
    | some y =>
      refine .ask (.compose (x.reading.join y.reading) (max x.size y.size))
        (f := composed token l r) hs.tree hs.tree.builtins ?_
      obtain ⟨type, htype⟩ := hs.atoms.compose? hs.tree.builtins he hx hf hy
      show Safe (composed token l r (s.tree.compose? _ _)) s
      rw [htype]
      exact .pure

theorem logic_safe (hs : s.Steady) {token : Token} {l r : EntityId}
    (hl : s.tree.HasEntity l) (hr : s.tree.HasEntity r) : Safe (logic token l r) s := by
  refine safe_entityOf hs.tree hl fun e he => safe_entityOf hs.tree hr fun f hf => ?_
  cases e.atom? with
  | none => exact safe_typeNames hs.tree hl hr fun _ _ => .fail rfl
  | some x =>
    cases f.atom? with
    | none => exact safe_typeNames hs.tree hl hr fun _ _ => .fail rfl
    | some y => exact .pure

theorem operationType_safe (hs : s.Steady) {token : Token} {op : BinaryOp} {left right : ExprId}
    (hleft : s.tree.HasExpr left) (hright : s.tree.HasExpr right) :
    Safe (operationType token op left right) s := by
  refine safe_typeOf hs.tree hleft fun l _ hl => ?_
  refine safe_typeOf hs.tree hright fun r _ hr => ?_
  cases op.family with
  | assign => exact assignment_safe hs hleft hl hr
  | arithmetic => exact arithmetic_safe hs hl hr
  | logic => exact logic_safe hs hl hr

/-- The left operand is still there after the right one was read, which was made then. -/
theorem binaryOperation_safe (hp : p.Faithful) (hl : p.Safe) (hs : s.Steady)
    {left : Option ExprId} {token : Token} (hleft : ∀ l, left = some l → s.tree.HasExpr l) :
    Safe (binaryOperation p left token closing) s := by
  unfold binaryOperation
  cases BinaryOp.ofToken? token.kind with
  | none => exact safe_unexpected
  | some op =>
    cases left with
    | none => exact .fail rfl
    | some left =>
      refine safe_expr hp hl hs fun right log s₁ hread hs₁ => ?_
      cases right with
      | none => exact .fail rfl
      | some right =>
        have hleft₁ := hread.extends.hasExpr (hleft left rfl)
        have hright := hread.made rfl rfl
        refine .bind (operationType_safe hs₁ hleft₁ hright) fun type s₂ htype => ?_
        obtain ⟨_, rfl⟩ := operationType_ok htype
        exact safe_spanOf hs₁.tree hleft₁ fun _ => safe_spanOf hs₁.tree hright fun _ => .push

/-! ## Arguments -/

theorem missingArgument_safe (hs : s.Steady) {param : EntityId} (hparam : s.tree.HasEntity param) :
    Safe (missingArgument param : Parse α) s :=
  safe_entityOf hs.tree hparam fun _ _ => safe_current (.fail rfl)

theorem checkArgument_safe (hs : s.Steady) {param : EntityId} {argument : ExprId}
    (hparam : s.tree.HasEntity param) (hargument : s.tree.HasExpr argument) :
    Safe (checkArgument param argument) s := by
  refine safe_typeOf hs.tree hargument fun source _ hsource => ?_
  refine safe_entityType hs.tree hparam fun target htarget => ?_
  refine safe_converts hs.tree hsource htarget fun implicit => ?_
  refine safe_ite (fun _ => ?_) fun _ => .pure
  refine safe_typeNames hs.tree hsource htarget fun _ _ => ?_
  exact safe_spanOf hs.tree hargument fun _ => .fail rfl

theorem argumentSeparator_safe (hs : s.Steady) {rest : List EntityId}
    (hrest : ∀ p ∈ rest, s.tree.HasEntity p) : Safe (argumentSeparator rest closing) s := by
  refine safe_skip (safe_accept (fun _ => ?_) fun _ => ?_)
  · cases rest with
    | nil => exact safe_skip (safe_isAt (safe_ite (fun _ => .fail rfl) fun _ => .pure))
    | cons param rest => exact .pure
  · cases rest with
    | nil => exact .pure
    | cons param rest => exact missingArgument_safe hs.past (hrest param List.mem_cons_self)

/-- By induction on the parameters: those that are left stay in the tree while the arguments
before them are read. -/
theorem arguments_safe (hp : p.Faithful) (hl : p.Safe) {params : List EntityId} (hs : s.Steady)
    (hparams : ∀ q ∈ params, s.tree.HasEntity q) : Safe (arguments p closing params) s := by
  induction params generalizing s with
  | nil => exact safe_skip (safe_accept (fun _ => .pure) fun _ => safe_current (.fail rfl))
  | cons param rest ih =>
    refine safe_skip (safe_expr hp hl hs.past fun value log s₁ hread hs₁ => ?_)
    have hparam := hread.extends.hasEntity (hparams param List.mem_cons_self)
    have hrest : ∀ q ∈ rest, s₁.tree.HasEntity q := fun q hq =>
      hread.extends.hasEntity (hparams q (List.mem_cons_of_mem _ hq))
    cases value with
    | none => exact missingArgument_safe hs₁ hparam
    | some value =>
      have hvalue := hread.made rfl rfl
      refine .bind (checkArgument_safe hs₁ hparam hvalue) fun _ s₂ hcheck => ?_
      obtain ⟨_, rfl⟩ := checkArgument_ok hcheck
      refine .bind (argumentSeparator_safe hs₁ hrest) fun _ s₂ hseparator => ?_
      have hseparates := argumentSeparator_ok hseparator
      have hs₂ : s₂.Steady := hs₁.forward hseparates.tree hseparates.constructs
      have hgrows := hseparates.trail.extends
      refine .bind (ih hs₂ fun q hq => hgrows.hasEntity (hrest q hq)) fun next s₃ hnext => ?_
      obtain ⟨log', hread'⟩ := arguments_reads hp hnext
      have hs₃ : s₃.Steady :=
        hs₂.reads hread' (fun q hq => hgrows.hasEntity (hrest q hq)) True.intro
      refine safe_spanOf hs₃.tree ?_ fun _ => .bind .push fun _ _ _ => .pure
      exact (hgrows.trans hread'.extends).hasExpr hvalue

theorem call_safe (hp : p.Faithful) (hl : p.Safe) (hs : s.Steady) {callee : ExprId}
    {paren : Token} (hcallee : s.tree.HasExpr callee) : Safe (call p callee paren) s := by
  refine safe_typeOf hs.tree hcallee fun function _ htype => ?_
  refine safe_entityOf hs.tree htype fun e he => ?_
  cases hfunction : e.function? with
  | none => exact safe_typeNameOf hs.tree htype fun _ => .fail rfl
  | some found =>
    have hparams : ∀ q ∈ found.1, s.tree.HasEntity q := params_hasEntity hs.tree he hfunction
    refine .bind (arguments_safe hp hl hs hparams) fun args s₁ hargs => ?_
    obtain ⟨log, hread⟩ := arguments_reads hp hargs
    have hs₁ : s₁.Steady := hs.reads hread hparams True.intro
    refine safe_spanOf hs₁.tree (hread.extends.hasExpr hcallee) fun _ => ?_
    exact safe_previousSpan .push

/-- The members are the variables in the frame of the structure, which a sound tree has. -/
theorem structLiteral_safe (hp : p.Faithful) (hl : p.Safe) (hs : s.Steady) {name : ExprId}
    {brace : Token} (hname : s.tree.HasExpr name) : Safe (structLiteral p name brace) s := by
  rw [structLiteral_asks]
  refine .ask (.namedStruct name) (f := literalOf p name brace) hs.tree
    (named_inRange hs.tree hname) ?_
  show Safe (literalOf p name brace (namedStruct? s.tree name)) s
  cases hstruct : namedStruct? s.tree name with
  | none => exact .fail rfl
  | some found =>
    obtain ⟨type, frame⟩ := found
    have hframe : s.tree.HasFrame frame := by
      obtain ⟨-, ⟨_, kind⟩, he, hkind⟩ := namedStruct?_ok hstruct
      cases kind with
      | struct =>
        cases hkind
        exact hs.tree.recordFrame (hs.tree.kind he).1
      | _ => cases hkind
    refine safe_variables hs.tree hframe fun members hmembers => ?_
    have hparams := variables?_hasEntity hs.tree hmembers
    refine .bind (arguments_safe hp hl hs hparams) fun args s₁ hargs => ?_
    obtain ⟨log, hread⟩ := arguments_reads hp hargs
    have hs₁ : s₁.Steady := hs.reads hread hparams True.intro
    refine safe_spanOf hs₁.tree (hread.extends.hasExpr hname) fun _ => ?_
    exact safe_previousSpan .push

/-! ## Scopes -/

theorem scopeBody_safe (hl : p.Safe) (hs : s.Steady) {brace : Token} :
    Safe (scopeBody p brace frame) s :=
  .bind (hl.sequence hs hasExpr_empty) fun _ _ _ => safe_previousSpan .push

theorem scope_safe (hp : p.Faithful) (hl : p.Safe) (hs : s.Steady) {brace : Token} :
    Safe (scope p brace) s := by
  refine safe_openFrame hs.nested fun frame s₁ hopen => ?_
  refine .bind (scopeBody_safe hl (hs.opens hopen)) fun id s₂ hbody => ?_
  obtain ⟨log, hread⟩ := scopeBody_reads hp hbody
  have hs₂ : s₂.Steady := (hs.opens hopen).reads hread True.intro hopen.current
  exact safe_closeFrame hs₂.nested (hread.opened (hopen.opened hs)) fun _ _ => .pure

/-- No newline stands before a brace that comes next. -/
theorem past_newlines_of_isAt (h : s.cursor.isAt {.openBrace} = true) : s.past {.newline} = s := by
  have hnewline : s.cursor.isAt {.newline} = false := by
    have hkind : s.cursor.current.kind = .openBrace := TokenSet.mem_singleton.1 h
    unfold Cursor.isAt
    rw [hkind]
    rfl
  unfold State.past Cursor.skip
  rw [Cursor.skipWithin_of_not_isAt hnewline]

/-- A scope that has to come next is there, or else it is the one after `else`. -/
theorem scopeAfter_safe (hp : p.Faithful) (hl : p.Safe) (hs : s.Steady) {word : String}
    {keyword : Token} (hscope : word = "else" ∨ s.cursor.isAt {.openBrace} = true) :
    Safe (scopeAfter p word keyword) s := by
  refine safe_skip (safe_accept (fun _ => scope_safe hp hl hs.past.next) fun hnot => ?_)
  rcases hscope with rfl | hat
  · exact .fail rfl
  · rw [past_newlines_of_isAt hat, hat] at hnot
    cases hnot

/-! ## Branches, loops and returns -/

/-- An expression that has to end before a brace ends there. -/
theorem Reads.at_brace {left answer : Option ExprId}
    (h : Reads (.extend left {.openBrace} answer) s log s') :
    s'.cursor.isAt {.openBrace} = true :=
  h.stops.elim id fun hbrace => hbrace.2

theorem condition_safe (hs : s.Steady) {anchor : Token} {expr : Option ExprId}
    (hexpr : ∀ e, expr = some e → s.tree.HasExpr e) : Safe (condition anchor expr) s := by
  cases expr with
  | none => exact .fail rfl
  | some expr =>
    have hbool := (hs.tree.builtins.isType .bool).hasEntity
    refine safe_typeOf hs.tree (hexpr _ rfl) fun type _ htype => ?_
    refine safe_converts hs.tree htype hbool fun implicit => ?_
    exact safe_ite (fun _ => .pure) fun _ => safe_typeNameOf hs.tree htype fun _ => .fail rfl

theorem elseScope_safe (hp : p.Faithful) (hl : p.Safe) (hs : s.Steady) : Safe (elseScope p) s :=
  safe_accept
    (fun _ => .bind (scopeAfter_safe hp hl hs.next (.inl rfl)) fun _ _ _ => .pure) fun _ => .pure

/-- The condition has ended before a brace, so the first scope is there. -/
theorem branch_safe (hp : p.Faithful) (hl : p.Safe) (hs : s.Steady) {keyword : Token} :
    Safe (branch p keyword) s := by
  refine safe_openFrame hs.nested fun frame s₁ hopen => ?_
  refine safe_expr hp hl (hs.opens hopen) fun first log s₂ hread hs₂ => ?_
  refine .bind (condition_safe hs₂ fun e he => hread.made rfl he) fun cond _ hcond => ?_
  obtain ⟨rfl, _, rfl⟩ := condition_ok hcond
  refine .bind (scopeAfter_safe hp hl hs₂ (.inr hread.at_brace)) fun thenScope s₃ hthen => ?_
  obtain ⟨log', hread'⟩ := scopeAfter_reads hp hthen
  have hs₃ : s₃.Steady := hs₂.reads hread' True.intro True.intro
  refine .bind (elseScope_safe hp hl hs₃) fun _ s₄ helse => ?_
  obtain ⟨log'', hread''⟩ := elseScope_reads hp helse
  have hs₄ : s₄.Steady := hs₃.reads hread'' True.intro True.intro
  have hopened := hread''.opened (hread'.opened (hread.opened (hopen.opened hs)))
  exact safe_closeFrame hs₄.nested hopened fun _ _ => safe_previousSpan .push

/-- The scope at the end of a loop, and the frame of the loop that is closed after it. -/
theorem safe_loopScope (hp : p.Faithful) (hl : p.Safe) (hs : s.Steady) (hopened : s.Opened)
    (hat : s.cursor.isAt {.openBrace} = true) {keyword : Token} {node : ExprId → Node} :
    Safe (do
      let scope ← scopeAfter p "for" keyword
      closeFrame keyword.span
      push (node scope) (keyword.span.merge (← previousSpan)) : Parse ExprId) s := by
  refine .bind (scopeAfter_safe hp hl hs (.inr hat)) fun scope s₁ hscope => ?_
  obtain ⟨log, hread⟩ := scopeAfter_reads hp hscope
  have hs₁ : s₁.Steady := hs.reads hread True.intro True.intro
  exact safe_closeFrame hs₁.nested (hread.opened hopened) fun _ _ => safe_previousSpan .push

theorem whileLoop_safe (hp : p.Faithful) (hl : p.Safe) (hs : s.Steady) (hopened : s.Opened)
    (hat : s.cursor.isAt {.openBrace} = true) {keyword : Token} {first : Option ExprId}
    (hfirst : ∀ e, first = some e → s.tree.HasExpr e) :
    Safe (whileLoop p keyword first frame) s := by
  refine .bind (s := s) ?_ fun cond s₁ hcond => ?_
  · cases first with
    | none => exact .push
    | some cond => exact .pure
  · have hs₁ : s₁.Steady ∧ s₁.Opened ∧ s₁.cursor.isAt {.openBrace} = true ∧
        s₁.tree.HasExpr cond := by
      cases first with
      | none =>
        obtain ⟨rfl, rfl⟩ := push_ok.1 hcond
        exact ⟨hs.add ⟨nofun, nofun, nofun, trivial⟩, hopened, hat, (Made.add .refl).2⟩
      | some found =>
        obtain ⟨rfl, rfl⟩ := pure_ok.1 hcond
        exact ⟨hs, hopened, hat, hfirst _ rfl⟩
    obtain ⟨hs₁, hopened₁, hat₁, hexpr⟩ := hs₁
    refine .bind (condition_safe hs₁ ?_) fun checked _ hcheck => ?_
    · rintro _ ⟨⟩
      exact hexpr
    · obtain ⟨_, _, rfl⟩ := condition_ok hcheck
      exact safe_loopScope hp hl hs₁ hopened₁ hat₁

/-- The step has ended before a brace, so the scope is there. -/
theorem countedLoop_safe (hp : p.Faithful) (hl : p.Safe) (hs : s.Steady) (hopened : s.Opened)
    {keyword semicolon : Token} {init : ExprId} :
    Safe (countedLoop p keyword semicolon init frame) s := by
  refine safe_expr hp hl hs fun found log s₁ hread hs₁ => ?_
  refine .bind (condition_safe hs₁ fun e he => hread.made rfl he) fun cond _ hcheck => ?_
  obtain ⟨rfl, _, rfl⟩ := condition_ok hcheck
  refine safe_accept (fun _ => ?_) fun _ => .fail rfl
  refine safe_expr hp hl hs₁.next fun step _ s₃ hread' hs₃ => ?_
  cases step with
  | none => exact .fail rfl
  | some step =>
    have hopened₁ : s₁.next.Opened := hread.opened hopened
    exact safe_loopScope hp hl hs₃ (hread'.opened hopened₁) hread'.at_brace

theorem loop_safe (hp : p.Faithful) (hl : p.Safe) (hs : s.Steady) {keyword : Token} :
    Safe (loop p keyword) s := by
  refine safe_openFrame hs.nested fun frame s₁ hopen => ?_
  refine safe_expr hp hl (hs.opens hopen) fun first log s₂ hread hs₂ => ?_
  have hopened := hread.opened (hopen.opened hs)
  refine safe_isAt (safe_ite (fun hat => ?_) fun _ => ?_)
  · exact whileLoop_safe hp hl hs₂ hopened hat fun e he => hread.made rfl he
  · refine safe_accept (fun _ => ?_) fun _ => safe_current safe_unexpected
    cases first with
    | none => exact .fail rfl
    | some init => exact countedLoop_safe hp hl hs₂.next hopened

theorem safe_returnedType (hs : s.Steady) {value : Option ExprId} {f : EntityId → Parse α}
    (hvalue : ∀ e, value = some e → s.tree.HasExpr e)
    (hf : ∀ type, s.tree.HasEntity type → Safe (f type) s) :
    Safe (returnedType value >>= f) s := by
  cases value with
  | none => exact safe_asked .pure rfl (hf _ (hs.tree.builtins.isType .void).hasEntity)
  | some value => exact safe_typeOf hs.tree (hvalue _ rfl) fun type _ htype => hf type htype

theorem mem_of_enclosing? {constructs : List Construct} {function : EntityId}
    (h : enclosing? constructs = some function) : .function function ∈ constructs := by
  rcases constructs with _ | ⟨⟨f⟩ | _, rest⟩
  · cases h
  · cases h
    exact List.mem_cons_self
  · cases h

/-- The function around is a construct of the state, and a steady one has its entity. -/
theorem returns_safe (hp : p.Faithful) (hl : p.Safe) (hs : s.Steady) {keyword : Token} :
    Safe (returns p keyword closing) s := by
  unfold returns
  rw [enclosingFunction?_asks]
  refine safe_asked (.look (f := fun _ constructs => pure (enclosing? constructs)) .pure) rfl ?_
  cases hconstructs : enclosing? s.constructs with
  | none => exact .fail rfl
  | some function =>
    have hfunction := hs.functions function (mem_of_enclosing? hconstructs)
    refine safe_entityOf hs.tree hfunction fun e he => ?_
    refine safe_expr hp hl hs fun value log s₁ hread hs₁ => ?_
    refine safe_returnedType hs₁ (fun e he => hread.made rfl he) fun source hsource => ?_
    have htarget : s₁.tree.HasEntity (resultOf e) :=
      hread.extends.hasEntity (resultOf_hasEntity hs.tree he)
    refine safe_converts hs₁.tree hsource htarget fun implicit => ?_
    refine safe_ite (fun _ => ?_) fun _ => safe_previousSpan .push
    exact safe_typeNames hs₁.tree hsource htarget fun _ _ => .bind (.fail rfl) nofun

/-! ## Groups and functions -/

theorem isParameters_safe (hs : s.Steady) {content : Option ExprId}
    (hcontent : ∀ c, content = some c → s.tree.HasExpr c) : Safe (isParameters content) s := by
  cases content with
  | none => exact .pure
  | some c =>
    refine safe_nodeOf hs.tree (hcontent c rfl) fun e _ => ?_
    cases e.node <;> exact .pure

/-- The frame that is closed is the one that the parenthesis opened. -/
theorem signature_safe (hs : s.Steady) (hopened : s.Opened) {paren : Token}
    {params : Option ExprId} : Safe (signature paren params frame) s := by
  have hclose {s : State} (hs : s.Steady) (hopened : s.Opened) {result : EntityId} :
      Safe (closeFrame paren.span >>= fun _ => do
        push (.signature params result frame) (paren.span.merge (← previousSpan))) s :=
    safe_closeFrame hs.nested hopened fun _ _ => safe_previousSpan .push
  refine safe_accept (fun _ => ?_) fun _ => safe_asked .pure rfl (hclose hs hopened)
  refine .bind (typeName_safe hs.next) fun result s₁ hrun => ?_
  obtain ⟨_, rfl⟩ := typeName_ok hrun
  exact hclose hs.next.next hopened

theorem group_safe (hp : p.Faithful) (hl : p.Safe) (hs : s.Steady) {paren : Token} :
    Safe (group p paren) s := by
  refine safe_openFrame hs.nested fun frame s₁ hopen => ?_
  refine safe_expr hp hl (hs.opens hopen) fun content log s₂ hread hs₂ => ?_
  have hopened : s₂.next.Opened := hread.opened (hopen.opened hs)
  refine safe_accept (fun _ => ?_) fun _ => safe_current safe_unexpected
  have hcontent : ∀ c, content = some c → s₂.next.tree.HasExpr c := fun c hc => hread.made rfl hc
  refine .bind (isParameters_safe hs₂.next hcontent) fun params s₃ hparams => ?_
  obtain ⟨_, hnone, rfl⟩ := isParameters_ok hparams
  refine safe_ite (fun _ => signature_safe hs₂.next hopened) fun hgroup => ?_
  refine safe_closeFrame hs₂.next.nested hopened fun _ _ => ?_
  cases content with
  | none => exact absurd (hnone rfl) hgroup
  | some inner => exact .push

theorem bindCanonical_safe (hs : s.tree.Sound) {canonical : String} {function : EntityId} :
    Safe (bindCanonical canonical function) s := by
  rw [bindCanonical_asks]
  refine .ask (.findLocal canonical) (f := canonicalOf canonical function) hs hs.framed.current ?_
  exact safe_ite (fun _ => .bindName hs.framed.current) fun _ => .pure

/-- The body of a function is recorded where it has none. -/
theorem bindBody_safe (hs : s.tree.Sound) {name : Token} {function : EntityId} {body : ExprId}
    (hnone : (s.tree.frame? s.tree.currentFrame).bind (·.body? function) = none) :
    Safe (bindBody name function body) s := by
  rw [bindBody_asks]
  refine .ask (.body function) (f := recordBody name function body) hs hs.framed.current ?_
  show Safe (recordBody name function body
    ((s.tree.frame? s.tree.currentFrame).bind (·.body? function))) s
  rw [hnone]
  exact .recordBody hs.framed.current

/-- The signature has just been read, so its frame may be entered again, and the function is new,
so it has no body. -/
theorem function_safe (hp : p.Faithful) (hl : p.Safe) (hs : s.Steady) {name : Token}
    {header : ExprId} {params? : Option ExprId} {result : EntityId} {span : Span}
    (hexpr : s.tree.expr? header = some ⟨.signature params? result frame, span⟩)
    (hchild : (s.tree.frame? frame).bind Frame.parent = some s.tree.currentFrame) :
    Safe (function p name header) s := by
  refine safe_nodeOf hs.tree (Tree.hasExpr_iff.2 ⟨_, hexpr⟩) fun e he => ?_
  obtain rfl := Option.some.inj (hexpr.symm.trans he)
  have hnode := hs.tree.node hexpr
  have hframe : s.tree.HasFrame frame := hnode.own frame rfl
  have hresult : s.tree.IsType result := hnode.typed
  refine safe_variables hs.tree hframe fun params hparams => ?_
  have hhas := variables?_hasEntity hs.tree hparams
  refine safe_signatureName hs.tree hhas hresult.hasEntity fun canonical => ?_
  refine safe_pushEntity (safe_bindName hs.tree.framed.current ?_)
  have hkind : s.tree.KindSound s.newEntity (.function params result) :=
    ⟨hhas, hresult.hasEntity, hresult⟩
  obtain ⟨s₁, hnamed⟩ : ∃ s₁, s₁ = (s.addEntity ⟨canonical, .function params result⟩).bind
    name.text s.newEntity := ⟨_, rfl⟩
  rw [← hnamed]
  refine .bind (bindCanonical_safe (sound_named hs.tree hkind hnamed).1) fun _ _ hcanonical => ?_
  obtain rfl := bindCanonical_ok hcanonical
  have hnested : (s₁.bindNew canonical s.newEntity).tree.Nested :=
    (trail_named hnamed).nested hs.nested
  refine safe_enterFrame hnested (child_named hnamed hchild) fun s₂ henter => ?_
  have hs₂ : (s₂.inside (.function s.newEntity)).Steady := by
    refine (hs.enters hexpr hparams hnamed henter).inside ?_
    rintro _ ⟨⟩
    exact (sound_enters hs.tree hexpr hparams hnamed henter).2.2
  refine safe_beginConstruct (safe_skip (safe_accept (fun _ => ?_) fun _ => .fail rfl))
  refine .bind (scopeBody_safe hl hs₂.past.next) fun body s₃ hbody => ?_
  obtain ⟨log, hread⟩ := scopeBody_reads hp hbody
  have hs₃ : s₃.Steady := hs₂.past.next.reads hread True.intro henter.current
  have hentered : s₂.Opened := henter.opened hnested
  refine safe_endConstruct (safe_closeFrame hs₃.nested (hread.opened hentered) fun s₄ hclose => ?_)
  have hwithin : Within s₂.tree s₃.outside.tree := hread.leaves
  have hnone := hs.no_body hnamed henter hwithin hclose
  exact .bind (bindBody_safe (hclose.sound hs₃.tree) hnone) fun _ _ _ => safe_previousSpan .push

/-! ## Definitions -/

theorem nextDefinition_safe (hp : p.Faithful) (hl : p.Safe) (hs : s.Steady) :
    Safe (nextDefinition p closing) s := by
  refine safe_accept (fun _ => safe_skip ?_) fun _ => .pure
  refine safe_operand hp hl hs.next.past fun next log s₁ hread hs₁ => ?_
  cases next with
  | none => exact .fail rfl
  | some next =>
    refine safe_nodeOf hs₁.tree (hread.made rfl rfl) fun e _ => ?_
    cases e.node with
    | definition => exact .pure
    | _ => exact .fail rfl

theorem declaration_safe (hp : p.Faithful) (hl : p.Safe) (hs : s.Steady) {name : Token}
    {op : DefOp} {init : Option ExprId} {type : EntityId} (htype : s.tree.IsType type) :
    Safe (declaration p name op init type closing) s := by
  have htrail : Trail s [⟨s.tree.currentFrame, name.text, s.newEntity, 0⟩]
      (s.install (.var name.text type)) := .install rfl
  have hnamed : s.install (.var name.text type) =
      (s.addEntity (.var name.text type)).bind name.text s.newEntity := rfl
  have hinstalled : (s.install (.var name.text type)).Steady := by
    refine hs.quiet htrail (.named hnamed) rfl ?_ (builtinAtoms_named hs.atoms rfl hnamed)
    exact (sound_named (e := .var name.text type) hs.tree ⟨htype.hasEntity, htype⟩ hnamed).1
  refine safe_install hs.tree ?_
  exact .bind (nextDefinition_safe hp hl hinstalled) fun _ _ _ => safe_previousSpan .push

theorem declaredType_safe (hs : s.Steady) {op : DefOp} {symbol : Token} :
    Safe (declaredType op symbol) s := by
  cases op with
  | constant => exact .pure
  | «variable» =>
    exact safe_isAt (safe_ite (fun _ => .pure) fun _ =>
      .bind (typeName_safe hs) fun _ _ _ => .pure)

theorem initializer_safe (hp : p.Faithful) (hl : p.Safe) (hs : s.Steady) {after : Token} :
    Safe (initializer p after closing) s := by
  refine safe_expr hp hl hs fun value _ _ _ _ => ?_
  cases value with
  | none => exact .fail rfl
  | some value => exact .pure

theorem initialValue_safe (hp : p.Faithful) (hl : p.Safe) (hs : s.Steady) {op : DefOp}
    {symbol : Token} : Safe (initialValue p op symbol closing) s := by
  cases op with
  | constant => exact .bind (initializer_safe hp hl hs) fun _ _ _ => .pure
  | «variable» =>
    exact safe_accept
      (fun _ => .bind (initializer_safe hp hl hs.next) fun _ _ _ => .pure) fun _ => .pure

/-- A type that is left out leaves the value there. -/
theorem DeclaredType.some_init {op : DefOp} {symbol : Token} {type : Option EntityId}
    {init : Option ExprId} (htype : DeclaredType op s type s₁)
    (hinit : Reads (.initialValue op symbol closing init) s₁ log s') :
    type ≠ none ∨ init ≠ none := by
  cases htype with
  | named => exact .inl (Option.some_ne_none _)
  | constant =>
    cases hinit
    exact .inr (Option.some_ne_none _)
  | inferred hassign =>
    cases hinit with
    | initialSome => exact .inr (Option.some_ne_none _)
    | initialNone hnot =>
      rw [hassign] at hnot
      cases hnot

theorem definedType_safe (hs : s.Steady) {name symbol : Token} {type : Option EntityId}
    {init : Option ExprId} (hsome : type ≠ none ∨ init ≠ none)
    (htype : ∀ d, type = some d → s.tree.IsType d)
    (hinit : ∀ i, init = some i → s.tree.HasExpr i) :
    Safe (definedType name symbol type init) s := by
  cases type with
  | none =>
    cases init with
    | none => exact absurd hsome (by simp)
    | some init =>
      have run : definedType name symbol none (some init) = (typeOf init >>= pure) := by
        rw [bind_pure]
        rfl
      rw [run]
      exact safe_typeOf hs.tree (hinit _ rfl) fun _ _ _ => .pure
  | some type =>
    cases init with
    | none => exact .pure
    | some init =>
      have htarget := (htype _ rfl).hasEntity
      refine safe_typeOf hs.tree (hinit _ rfl) fun source _ hsource => ?_
      refine safe_converts hs.tree hsource htarget fun implicit => ?_
      refine safe_ite (fun _ => .pure) fun _ => ?_
      exact safe_typeNames hs.tree htarget hsource fun _ _ => .fail rfl

theorem typedef_safe (hs : s.Steady) {name : Token} {op : DefOp} {body : ExprId}
    {form : RecordForm} {members : List ExprId} {span : Span}
    (hexpr : s.tree.expr? body = some ⟨.record form members frame, span⟩) :
    Safe (typedef name op body) s := by
  have hbody : s.tree.HasExpr body := Tree.hasExpr_iff.2 ⟨_, hexpr⟩
  refine safe_nodeOf hs.tree hbody fun e he => ?_
  obtain rfl := Option.some.inj (hexpr.symm.trans he)
  refine safe_install hs.tree ?_
  have hsound : (s.install (recordEntity name.text form frame)).tree.Sound :=
    (sound_named hs.tree (recordEntity_kindSound hs.tree name.text hexpr) rfl).1
  exact safe_spanOf hsound (Within.install.grows.hasExpr hbody) fun _ => .push

/-- The parameters of a signature that has just been read as a value are in a child of the
innermost frame. -/
theorem Reads.initial_parent {op : DefOp} {symbol : Token} {init : ExprId} {e : Expr}
    (h : Reads (.initialValue op symbol closing (some init)) s log s')
    (he : s'.tree.expr? init = some e) (hframe : e.node.signatureFrame? = some frame) :
    (s'.tree.frame? frame).bind Frame.parent = some s'.tree.currentFrame := by
  cases h with
  | initialConstant hvalue => exact hvalue.extend_parent he hframe
  | initialSome _ hvalue => exact hvalue.extend_parent he hframe

theorem safe_someNodeOf {id : ExprId} {f : Option Node → Parse α} (hs : s.tree.Sound)
    (hid : s.tree.HasExpr id) (hf : ∀ e, s.tree.expr? id = some e → Safe (f (some e.node)) s) :
    Safe ((some <$> nodeOf id) >>= f) s := by
  rw [map_eq_pure_bind, bind_assoc]
  exact safe_nodeOf hs hid fun e he => safe_asked .pure rfl (hf e he)

/-- The node of the value decides what is defined. The frame of a signature is a child of the
innermost one there, as `function_safe` asks for. -/
theorem definition_safe (hp : p.Faithful) (hl : p.Safe) (hs : s.Steady) {name symbol : Token} :
    Safe (definition p name symbol closing) s := by
  rw [definition_asks]
  refine .ask (.findLocal name.text) (f := definitionOf p name symbol closing) hs.tree
    hs.tree.framed.current ?_
  unfold definitionOf
  refine safe_ite (fun _ => .bind (.fail rfl) nofun) fun _ => ?_
  dsimp only
  generalize (if symbol.kind = .declare then DefOp.constant else .variable) = op
  refine .bind (declaredType_safe hs) fun type s₁ hrun => ?_
  have hdeclared := declaredType_ok hrun
  have hs₁ : s₁.Steady := hs.forward hdeclared.tree hdeclared.constructs
  refine .bind (initialValue_safe hp hl hs₁) fun init s₂ hinit => ?_
  obtain ⟨log, hread⟩ := initialValue_reads hp hinit
  have hs₂ : s₂.Steady := hs₁.reads hread True.intro True.intro
  have htype : ∀ d, type = some d → s₂.tree.IsType d := by
    rintro d rfl
    exact hdeclared.isType.mono hread.extends
  have hvalue : ∀ i, init = some i → s₂.tree.HasExpr i := fun i hi => hread.made rfl hi
  have hvariable : Safe (definedType name symbol type init >>= fun type =>
      declaration p name op init type closing) s₂ := by
    refine .bind (definedType_safe hs₂ (hdeclared.some_init hread) htype hvalue)
      fun defined _ hrun => ?_
    obtain ⟨hdefined, rfl⟩ := definedType_ok hrun
    exact declaration_safe hp hl hs₂ (hdefined.fits hs₂.tree htype hvalue).1
  cases init with
  | none => exact safe_asked .pure rfl hvariable
  | some init =>
    have hinit : s₂.tree.HasExpr init := hvalue init rfl
    refine safe_someNodeOf hs₂.tree hinit fun e hexpr => ?_
    obtain ⟨node, span⟩ := e
    cases node with
    | signature =>
      exact function_safe hp hl hs₂ hexpr (hread.initial_parent hexpr rfl)
    | record => exact typedef_safe hs₂ hexpr
    | _ => exact hvariable

theorem nameOrDefinition_safe (hp : p.Faithful) (hl : p.Safe) (hs : s.Steady) {name : Token} :
    Safe (nameOrDefinition p name closing) s :=
  safe_accept (fun _ => definition_safe hp hl hs.next) fun _ => nameUse_safe hs

/-! ## Records -/

/-- By induction on the members, each of which was made by the reading of the body. -/
theorem checkMembers_safe (hs : s.Steady) {form : RecordForm} {body : List ExprId}
    (hbody : ∀ b ∈ body, s.tree.HasExpr b) : Safe (checkMembers form body) s := by
  induction body with
  | nil => exact .pure
  | cons b rest ih =>
    have hb := hbody b List.mem_cons_self
    refine safe_nodeOf hs.tree hb fun e _ => ?_
    refine safe_ite (fun _ => safe_spanOf hs.tree hb fun _ => ?_) fun _ => ?_
    · cases form <;> exact .bind (.fail rfl) nofun
    · exact ih fun c hc => hbody c (List.mem_cons_of_mem _ hc)

theorem record_safe (hp : p.Faithful) (hl : p.Safe) (hs : s.Steady) {keyword : Token} :
    Safe (record p keyword) s := by
  refine safe_skip (safe_accept (fun _ => ?_) fun _ => safe_current safe_unexpected)
  refine safe_openFrame hs.past.next.nested fun frame s₁ hopen => safe_beginConstruct ?_
  have hopened : (s₁.inside .record).Opened := hopen.opened hs.past.next
  have hs₁ : (s₁.inside .record).Steady := (hs.past.next.opens hopen).inside nofun
  refine .bind (hl.sequence hs₁ hasExpr_empty) fun body s₂ hsequence => ?_
  obtain ⟨log, hread⟩ := hp.sequence hsequence
  have hs₂ : s₂.Steady := hs₁.reads hread hasExpr_empty True.intro
  have hbody : ∀ b ∈ body, s₂.tree.HasExpr b := hread.hasItems hasExpr_empty
  refine .bind (checkMembers_safe hs₂ hbody) fun _ _ hcheck => ?_
  obtain ⟨_, rfl⟩ := checkMembers_ok hcheck
  have hopened₂ : s₂.outside.Opened := hread.opened hopened
  exact safe_endConstruct
    (safe_closeFrame hs₂.nested hopened₂ fun _ _ => safe_previousSpan .push)

theorem member_safe (hs : s.Steady) {base : ExprId} {dot : Token} (hbase : s.tree.HasExpr base) :
    Safe (member base dot) s := by
  refine safe_accept (fun _ => ?_) fun _ => safe_current safe_unexpected
  have hs₁ := hs.next
  refine safe_typeOf hs₁.tree hbase fun type _ htype => ?_
  refine safe_entityOf hs₁.tree htype fun e he => ?_
  cases hrecord : e.recordFrame? with
  | none => exact safe_typeNameOf hs₁.tree htype fun _ => .fail rfl
  | some frame =>
    have hframe := hs₁.tree.recordFrame (hs₁.tree.hasRecords _ _ _ he hrecord)
    refine safe_frameOf hs₁.tree hframe fun x _ => ?_
    cases x.find? s.cursor.current.text with
    | none => exact safe_typeNameOf hs₁.tree htype fun _ => .fail rfl
    | some entity => exact safe_spanOf hs₁.tree hbase fun _ => .push

/-! ## One turn around the circles -/

theorem operand_safe (hp : p.Faithful) (hl : p.Safe) (hs : s.Steady) {left : Option ExprId}
    {token : Token} (hleft : ∀ l, left = some l → s.tree.HasExpr l) :
    Safe (operand p left token closing) s := by
  unfold operand
  generalize token.kind = kind
  cases kind with
  | name => exact nameOrDefinition_safe hp hl hs
  | decimal | binary | hexadecimal => exact integer_safe
  | float => exact float_safe
  | character => exact character_safe
  | text => exact textLiteral_safe
  | ifWord => exact branch_safe hp hl hs
  | forWord => exact loop_safe hp hl hs
  | returnWord => exact returns_safe hp hl hs
  | structWord | enumWord => exact record_safe hp hl hs
  | openParen =>
    cases left with
    | none => exact group_safe hp hl hs
    | some callee => exact call_safe hp hl hs (hleft _ rfl)
  | openBrace =>
    cases left with
    | none => exact scope_safe hp hl hs
    | some name => exact structLiteral_safe hp hl hs (hleft _ rfl)
  | dot =>
    cases left with
    | none => exact .fail rfl
    | some base => exact member_safe hs (hleft _ rfl)
  | _ => exact safe_unexpected

theorem stepFrom_safe (hp : p.Faithful) (hl : p.Safe) (hs : s.Steady) {left : Option ExprId}
    (hleft : ∀ l, left = some l → s.tree.HasExpr l) : Safe (stepFrom p left closing) s := by
  refine safe_accept (fun _ => ?_) fun _ => safe_current safe_unexpected
  refine safe_ite (fun _ => .pure) fun _ => safe_ite (fun _ => ?_) fun _ => ?_
  · exact .bind (binaryOperation_safe hp hl hs.next hleft) fun _ _ _ => .pure
  · refine safe_ite (fun _ => safe_unexpected) fun _ => ?_
    exact .bind (operand_safe hp hl hs.next hleft) fun _ _ _ => .pure

/-- What is read as a sign in front or behind stands in the table of such signs. -/
theorem stepTurn_safe (hp : p.Faithful) (hl : p.Safe) (hs : s.Steady) {left : Option ExprId}
    (hleft : ∀ l, left = some l → s.tree.HasExpr l) : Safe (stepTurn p left closing) s := by
  refine safe_isAt (safe_ite (fun _ => .pure) fun _ => ?_)
  cases left with
  | none =>
    refine safe_accept (fun hat => ?_) fun _ => stepFrom_safe hp hl hs hleft
    exact .bind (prefixOperation_safe hp hl hs.next hat) fun _ _ _ => .pure
  | some left =>
    refine safe_accept (fun hat => ?_) fun _ => stepFrom_safe hp hl hs hleft
    exact .bind (postfixOperation_safe hs.next hat (hleft _ rfl))
      fun _ _ _ => .pure

/-- Whether an expression ends before a brace is asked of the tree. -/
theorem safe_endsBeforeBrace (hs : s.Steady) {left : Option ExprId} {f : Bool → Parse α}
    (hleft : ∀ l, left = some l → s.tree.HasExpr l) (hf : ∀ b, Safe (f b) s) :
    Safe (endsBeforeBrace left >>= f) s := by
  cases left with
  | none => exact safe_asked .pure rfl (hf false)
  | some left =>
    refine safe_asked ?_ (endsBeforeBrace_run (some left) s) (hf _)
    rw [endsBeforeBrace_asks]
    refine safe_isAt (safe_ite (fun _ => ?_) fun _ => .pure)
    exact .ask (.namedStruct left) (f := fun found => pure found.isNone) hs.tree
      (named_inRange hs.tree (hleft _ rfl)) .pure

theorem extendTurn_safe (hp : p.Faithful) (hl : p.Safe) (hs : s.Steady) {left : Option ExprId}
    (hleft : ∀ l, left = some l → s.tree.HasExpr l) : Safe (extendTurn p left closing) s := by
  refine safe_isAt (safe_ite (fun _ => .pure) fun _ => safe_atEnd ?_)
  refine safe_ite (fun _ => ?_) fun _ => ?_
  · exact safe_refused
  refine safe_endsBeforeBrace hs hleft fun ends => safe_ite (fun _ => .pure) fun _ => ?_
  refine .bind (hl.step hs hleft) fun next s₁ hstep => ?_
  obtain ⟨log, hread⟩ := hp.step hstep
  have hs₁ : s₁.Steady := hs.reads hread hleft True.intro
  cases next with
  | none => exact hl.extend hs₁ fun l hl => hread.extends.hasExpr (hleft l hl)
  | some next => exact hl.extend hs₁ fun l hl => hread.hasExpr hleft hl

theorem sequenceTurn_safe (hp : p.Faithful) (hl : p.Safe) (hs : s.Steady) {body : Array ExprId}
    (hbody : ∀ b ∈ body, s.tree.HasExpr b) : Safe (sequenceTurn p body closing) s := by
  refine safe_skip (safe_accept (fun _ => .pure) fun _ => safe_atEnd ?_)
  refine safe_ite (fun _ => ?_) fun _ => ?_
  · exact safe_refused
  refine safe_expr hp hl hs.past fun item log s₁ hread hs₁ => ?_
  have hitems : ∀ b ∈ item.elim body body.push, s₁.tree.HasExpr b :=
    hasExpr_item (fun b hb => hread.extends.hasExpr (hbody b hb)) fun i hi => hread.made rfl hi
  cases item with
  | none => exact hl.sequence hs₁ hitems
  | some item => exact hl.sequence hs₁ hitems

/-! ## Whole sources -/

/-- The productions of every level are safe. -/
theorem safe_level (n : Nat) : (level n).Safe := by
  induction n with
  | zero => exact ⟨fun _ _ => .spent, fun _ _ => .spent, fun _ _ => .spent⟩
  | succ n ih =>
    have hp := faithful_level n
    exact ⟨fun hs hleft => stepTurn_safe hp ih hs hleft,
      fun hs hleft => extendTurn_safe hp ih hs hleft,
      fun hs hbody => sequenceTurn_safe hp ih hs hbody⟩

/-- Reading the tokens of a source is safe. -/
theorem program_safe (tokens : TokenList) : Safe program (.initial tokens) := by
  rw [program_asks]
  refine safe_current (.look (f := fun c _ => sourceFrom _ c.tokens.size) ?_)
  refine .bind ((safe_level _).sequence (steady_initial tokens) hasExpr_empty) fun _ _ _ => ?_
  exact safe_previousSpan (.bind .push fun _ _ _ => .mainScope)

end OnePass.Grammar

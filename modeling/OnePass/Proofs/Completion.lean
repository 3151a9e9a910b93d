import OnePass.Proofs.Ends

/-!
# Ends of the productions

Every production ends if the functions below it end (`Productions.Lasts`). The productions are
gone through one by one, as their runs were: whatever a production asks of the tree is there,
and whatever it asks of a function below it asks with fewer tokens left than the turn around
the circles began with.
-/

namespace OnePass.Grammar

variable {α : Type} {sound : Prop} {p : Productions} {s s₁ s' : State} {k : Nat}

/-! ## Operands of one token -/

theorem quotedValue_ends {token : Token} {f : List Char → Parse α}
    (hf : ∀ text, Ends sound (f text s)) : Ends sound ((quotedValue token >>= f) s) := by
  rw [bind_run, quotedValue_run]
  cases Lexicon.unescape (insideQuotes token.text) with
  | ok text => exact hf text
  | error e => exact True.intro

theorem character_ends {token : Token} : Ends sound (character token s) := by
  refine quotedValue_ends fun text => ?_
  match text with
  | [] => exact True.intro
  | [c] => exact ends_ite (fun _ => ends_push) fun _ => True.intro
  | _ :: _ :: _ => exact True.intro

theorem textLiteral_ends {token : Token} : Ends sound (textLiteral token s) :=
  quotedValue_ends fun _ => ends_push

theorem integer_ends {token : Token} : Ends sound (integer token s) := by
  unfold integer
  cases hdigits : Number.digitsValue? (digitsOf token).1 (digitsOf token).2 with
  | none =>
    simp only [hdigits]
    exact True.intro
  | some value =>
    simp only [hdigits]
    exact ends_ite (fun _ => ends_push) fun _ => True.intro

theorem float_ends {token : Token} : Ends sound (float token s) := by
  unfold float
  cases Number.Decimal.ofText? token.text.toList with
  | none => exact True.intro
  | some decimal => exact ends_push

theorem resolve_ends {name : Token} {f : EntityId → Parse α}
    (hf : ∀ entity, s.tree.find? name.text = some entity → Ends sound (f entity s)) :
    Ends sound ((resolve name >>= f) s) := by
  rw [bind_run, resolve_run]
  cases hfind : s.tree.find? name.text with
  | none => exact True.intro
  | some entity => exact hf entity hfind

theorem nameUse_ends {name : Token} : Ends sound (nameUse name s) :=
  resolve_ends fun _ _ => ends_push

/-- A name leads to an entity that is there, and then a type or a fault that names it. -/
theorem typeName_ends {after : Token} (hs : sound → s.tree.Sound) :
    Ends sound (typeName after s) := by
  refine ends_accept (fun _ => ?_) fun _ => ends_fail True.intro
  refine resolve_ends fun entity hfind => ?_
  refine ends_entityOf (fun hsound => (hs hsound).find? hfind) fun e _ => ?_
  exact ends_ite (fun _ => ends_pure) fun _ => ends_fail True.intro

/-! ## Operations -/

theorem unaryOp_ends {token : Token} {f : UnaryOp → Parse α} (hf : ∀ op, Ends sound (f op s)) :
    Ends sound ((unaryOp token >>= f) s) := by
  rw [bind_run, unaryOp_run]
  cases UnaryOp.ofToken? token.kind with
  | none => exact True.intro
  | some op => exact hf op

theorem atomicOperand_ends {token : Token} {op : UnaryOp} {operand : ExprId}
    {f : EntityId → Parse α} (hs : sound → s.tree.Sound)
    (hoperand : sound → s.tree.HasExpr operand) (hf : ∀ type, Ends sound (f type s)) :
    Ends sound ((atomicOperand token op operand >>= f) s) := by
  refine ends_bind ?_ fun type s₁ hrun => ?_
  · refine ends_typeOf hs hoperand fun type _ htype => ?_
    refine ends_entityOf htype fun e _ => ?_
    cases e.atom? with
    | some a => exact ends_pure
    | none => exact ends_typeNameOf hs htype fun _ => ends_fail True.intro
  · have hbind : (atomicOperand token op operand >>= pure) s = .ok type s₁ :=
      bind_ok.2 ⟨type, s₁, hrun, rfl⟩
    obtain ⟨_, _, hpure⟩ := atomicOperand_bind hbind
    obtain ⟨rfl, rfl⟩ := pure_ok.1 hpure
    exact hf _

theorem prefixOperation_ends (hp : p.Faithful) (hl : p.Lasts sound k) (hs : Ready sound 2 k s)
    {token : Token} {closing : TokenSet} : Ends sound (prefixOperation p token closing s) := by
  refine unaryOp_ends fun op => ?_
  refine ends_operand hp hl hs fun operand log s₁ hread hs₁ => ?_
  cases operand with
  | none => exact True.intro
  | some operand =>
    have hoperand := hread.made rfl rfl
    refine atomicOperand_ends hs₁.tree (fun _ => hoperand) fun type => ?_
    exact ends_spanOf (fun _ => hoperand) fun _ => ends_push

theorem postfixOperation_ends (hs : Ready sound 2 k s) {left : ExprId} {token : Token}
    (hleft : sound → s.tree.HasExpr left) : Ends sound (postfixOperation left token s) := by
  refine unaryOp_ends fun op => ?_
  refine atomicOperand_ends hs.tree hleft fun type => ?_
  exact ends_spanOf hleft fun _ => ends_push

/-- What may be assigned is an entity that the node refers to. -/
theorem isVariable_ends {node : Node} {f : Bool → Parse α}
    (hreferent : sound → ∀ m, node.referent? = some m → s.tree.HasEntity m)
    (hf : ∀ b, Ends sound (f b s)) : Ends sound ((isVariable node >>= f) s) := by
  unfold isVariable
  cases hnode : assignedEntity? node with
  | none => exact hf false
  | some entity =>
    have hentity : sound → s.tree.HasEntity entity := fun hsound =>
      hreferent hsound entity (Node.referent?_of_assigned hnode)
    rw [bind_assoc]
    exact ends_entityOf hentity fun e _ => hf e.isVar

theorem assignment_ends {token : Token} {left : ExprId} {l r : EntityId}
    (hs : sound → s.tree.Sound) (hleft : sound → s.tree.HasExpr left)
    (hl : sound → s.tree.HasEntity l) (hr : sound → s.tree.HasEntity r) :
    Ends sound (assignment token left l r s) := by
  refine ends_nodeOf hleft fun e he => ?_
  refine isVariable_ends (fun hsound => ((hs hsound).node he).referent) fun isVar => ?_
  cases isVar with
  | false => exact True.intro
  | true =>
    refine ends_converts hs hr hl fun implicit => ?_
    exact ends_ite (fun _ => ends_pure) fun _ =>
      ends_typeNames hs hr hl fun _ _ => ends_fail True.intro

theorem operationType_ends {token : Token} {op : BinaryOp} {left right : ExprId}
    (hs : sound → s.tree.Sound) (hleft : sound → s.tree.HasExpr left)
    (hright : sound → s.tree.HasExpr right) : Ends sound (operationType token op left right s) := by
  refine ends_typeOf hs hleft fun l _ hl => ?_
  refine ends_typeOf hs hright fun r _ hr => ?_
  have hnames : ∀ cause : String → String → Cause, (∀ a b, (cause a b).Allowed sound) →
      Ends sound
        ((do fail (cause (← typeNameOf l) (← typeNameOf r)) token.span : Parse EntityId) s) :=
    fun cause hcause => ends_typeNames hs hl hr fun a b => ends_fail (hcause a b)
  cases op.family with
  | assign => exact assignment_ends hs hleft hl hr
  | arithmetic =>
    refine ends_entityOf hl fun e _ => ends_entityOf hr fun f _ => ?_
    cases e.atom? with
    | none => exact hnames _ fun _ _ => True.intro
    | some a =>
      cases f.atom? with
      | none => exact hnames _ fun _ _ => True.intro
      | some b =>
        simp only [get_bind]
        cases s.tree.compose? (a.reading.join b.reading) (max a.size b.size) with
        | none => exact hnames _ fun _ _ => True.intro
        | some type => exact ends_pure
  | logic =>
    refine ends_entityOf hl fun e _ => ends_entityOf hr fun f _ => ?_
    cases e.atom? with
    | none => exact hnames _ fun _ _ => True.intro
    | some a =>
      cases f.atom? with
      | none => exact hnames _ fun _ _ => True.intro
      | some b => exact ends_pure

/-- The left operand is still there after the right one was read, which was made then. -/
theorem binaryOperation_ends (hp : p.Faithful) (hl : p.Lasts sound k) (hs : Ready sound 2 k s)
    {left : Option ExprId} {token : Token} {closing : TokenSet}
    (hleft : sound → ∀ l, left = some l → s.tree.HasExpr l) :
    Ends sound (binaryOperation p left token closing s) := by
  unfold binaryOperation
  cases BinaryOp.ofToken? token.kind with
  | none => exact True.intro
  | some op =>
    cases left with
    | none => exact True.intro
    | some left =>
      refine ends_expr hp hl hs fun right log s₁ hread hs₁ => ?_
      cases right with
      | none => exact True.intro
      | some right =>
        have hleft₁ : sound → s₁.tree.HasExpr left := fun hsound =>
          hread.extends.hasExpr (hleft hsound left rfl)
        have hright : sound → s₁.tree.HasExpr right := fun _ => hread.made rfl rfl
        refine ends_bind (operationType_ends hs₁.tree hleft₁ hright) fun type s₂ htype => ?_
        obtain ⟨_, rfl⟩ := operationType_ok htype
        exact ends_spanOf hleft₁ fun _ => ends_spanOf hright fun _ => ends_push

/-! ## Arguments -/

theorem missingArgument_ends {param : EntityId} (hparam : sound → s.tree.HasEntity param) :
    Ends sound ((missingArgument param : Parse α) s) :=
  ends_entityOf hparam fun _ _ => True.intro

/-- In a sound tree a parameter that is there has a type, and so has the argument. -/
theorem checkArgument_ends {param : EntityId} {argument : ExprId} (hs : sound → s.tree.Sound)
    (hparam : sound → s.tree.HasEntity param) (hargument : sound → s.tree.HasExpr argument) :
    Ends sound (checkArgument param argument s) := by
  refine ends_typeOf hs hargument fun source _ hsource => ?_
  refine ends_known ?_ fun target htarget => ?_
  · intro hsound
    obtain ⟨target, htarget, _⟩ := (hs hsound).entityType? (hparam hsound)
    exact ⟨target, htarget⟩
  · have hhas : sound → s.tree.HasEntity target := by
      intro hsound
      obtain ⟨found, hfound, histype, _⟩ := (hs hsound).entityType? (hparam hsound)
      obtain rfl := Option.some.inj (htarget.symm.trans hfound)
      exact histype.hasEntity
    refine ends_converts hs hsource hhas fun implicit => ?_
    refine ends_ite (fun _ => ?_) fun _ => ends_pure
    refine ends_typeNames hs hsource hhas fun _ _ => ?_
    exact ends_spanOf hargument fun _ => True.intro

theorem argumentSeparator_ends {rest : List EntityId} {closing : TokenSet}
    (hrest : sound → ∀ p ∈ rest, s.tree.HasEntity p) :
    Ends sound (argumentSeparator rest closing s) := by
  unfold argumentSeparator skipNewlines
  rw [skip_bind]
  refine ends_accept (fun _ => ?_) fun _ => ?_
  · cases rest with
    | nil => exact ends_ite (fun _ => True.intro) fun _ => ends_pure
    | cons param rest => exact ends_pure
  · cases rest with
    | nil => exact ends_pure
    | cons param rest =>
      exact missingArgument_ends fun hsound => hrest hsound param List.mem_cons_self

/-- By induction on the parameters: those that are left stay in the tree while the arguments
before them are read. -/
theorem arguments_ends (hp : p.Faithful) (hl : p.Lasts sound k) {closing : TokenSet}
    {params : List EntityId} (hs : Ready sound 2 k s)
    (hparams : sound → ∀ q ∈ params, s.tree.HasEntity q) :
    Ends sound (arguments p closing params s) := by
  induction params generalizing s with
  | nil =>
    unfold arguments skipNewlines
    rw [skip_bind]
    exact ends_accept (fun _ => ends_pure) fun _ => True.intro
  | cons param rest ih =>
    unfold arguments skipNewlines
    rw [skip_bind]
    refine ends_expr hp hl hs.past fun value log s₁ hread hs₁ => ?_
    have hparam : sound → s₁.tree.HasEntity param := fun hsound =>
      hread.extends.hasEntity (hparams hsound param List.mem_cons_self)
    have hrest : sound → ∀ q ∈ rest, s₁.tree.HasEntity q := fun hsound q hq =>
      hread.extends.hasEntity (hparams hsound q (List.mem_cons_of_mem _ hq))
    cases value with
    | none => exact missingArgument_ends hparam
    | some value =>
      have hvalue : sound → s₁.tree.HasExpr value := fun _ => hread.made rfl rfl
      refine ends_bind (checkArgument_ends hs₁.tree hparam hvalue) fun _ s₂ hcheck => ?_
      obtain ⟨_, rfl⟩ := checkArgument_ok hcheck
      refine ends_bind (argumentSeparator_ends hrest) fun _ s₂ hseparator => ?_
      have hseparates := argumentSeparator_ok hseparator
      have hs₂ : Ready sound 2 k s₂ := by
        cases hseparates with
        | last => exact hs₁.past
        | comma => exact hs₁.past.next
        | surplus => exact hs₁.past.next.past
      have hgrows := hseparates.trail.extends
      refine ends_bind (ih hs₂ fun hsound q hq => hgrows.hasEntity (hrest hsound q hq)) ?_
      intro next s₃ hnext
      obtain ⟨log', hread'⟩ := arguments_reads hp hnext
      refine ends_spanOf (fun hsound => ?_) fun _ => True.intro
      exact (hgrows.trans hread'.extends).hasExpr (hvalue hsound)

/-- The parameters are taken from the type of the callee, in the tree before the arguments. -/
theorem call_ends (hp : p.Faithful) (hl : p.Lasts sound k) (hs : Ready sound 2 k s)
    {callee : ExprId} {paren : Token} (hcallee : sound → s.tree.HasExpr callee) :
    Ends sound (call p callee paren s) := by
  refine ends_typeOf hs.tree hcallee fun function _ htype => ?_
  refine ends_entityOf htype fun e he => ?_
  cases hfunction : e.function? with
  | none => exact ends_typeNameOf hs.tree htype fun _ => True.intro
  | some found =>
    have hparams : sound → ∀ q ∈ found.1, s.tree.HasEntity q := fun hsound =>
      params_hasEntity (hs.tree hsound) he hfunction
    refine ends_bind (arguments_ends hp hl hs hparams) fun args s₁ hargs => ?_
    obtain ⟨log, hread⟩ := arguments_reads hp hargs
    exact ends_spanOf (fun hsound => hread.extends.hasExpr (hcallee hsound)) fun _ => ends_push

/-- The members are the variables in the frame of the structure, which a sound tree has. -/
theorem structLiteral_ends (hp : p.Faithful) (hl : p.Lasts sound k) (hs : Ready sound 2 k s)
    {name : ExprId} {brace : Token} (hname : sound → s.tree.HasExpr name) :
    Ends sound (structLiteral p name brace s) := by
  unfold structLiteral
  rw [get_bind]
  cases hstruct : namedStruct? s.tree name with
  | none => exact True.intro
  | some found =>
    obtain ⟨type, frame⟩ := found
    have hframe : sound → s.tree.HasFrame frame := by
      intro hsound
      obtain ⟨-, ⟨_, kind⟩, he, hkind⟩ := namedStruct?_ok hstruct
      cases kind with
      | struct =>
        cases hkind
        exact (hs.tree hsound).recordFrame ((hs.tree hsound).kind he).1
      | _ => cases hkind
    simp only [get_bind]
    refine ends_known (fun hsound => (hs.tree hsound).variables? (hframe hsound)) ?_
    intro members hmembers
    have hparams : sound → ∀ q ∈ members, s.tree.HasEntity q := fun hsound =>
      variables?_hasEntity (hs.tree hsound) hmembers
    refine ends_bind (arguments_ends hp hl hs hparams) fun args s₁ hargs => ?_
    obtain ⟨log, hread⟩ := arguments_reads hp hargs
    exact ends_spanOf (fun hsound => hread.extends.hasExpr (hname hsound)) fun _ => ends_push

/-! ## Scopes -/

theorem scopeBody_ends (hl : p.Lasts sound k) (hs : Ready sound 2 k s) {brace : Token}
    {frame : FrameId} : Ends sound (scopeBody p brace frame s) :=
  ends_bind (hl.sequence hs fun _ => hasExpr_empty) fun _ _ _ => ends_push

theorem scope_ends (hl : p.Lasts sound k) (hs : Ready sound 2 k s) {brace : Token} :
    Ends sound (scope p brace s) := by
  refine ends_openFrame fun frame s₁ hopen => ?_
  refine ends_bind (scopeBody_ends hl (hs.opens hopen)) fun _ _ _ => ?_
  exact ends_closeFrame fun _ _ => ends_pure

theorem scopeAfter_ends (hl : p.Lasts sound k) (hs : Ready sound 2 k s) {word : String}
    {keyword : Token} : Ends sound (scopeAfter p word keyword s) := by
  unfold scopeAfter skipNewlines
  rw [skip_bind]
  exact ends_accept (fun _ => scope_ends hl hs.past.next) fun _ => True.intro

/-! ## Branches, loops and returns -/

theorem condition_ends (hs : sound → s.tree.Sound) {anchor : Token} {expr : Option ExprId}
    (hexpr : sound → ∀ e, expr = some e → s.tree.HasExpr e) :
    Ends sound (condition anchor expr s) := by
  cases expr with
  | none => exact True.intro
  | some expr =>
    have hbool : sound → s.tree.HasEntity Builtin.bool.handle := fun hsound =>
      ((hs hsound).builtins.isType .bool).hasEntity
    refine ends_typeOf hs (fun hsound => hexpr hsound _ rfl) fun type _ htype => ?_
    refine ends_converts hs htype hbool fun implicit => ?_
    exact ends_ite (fun _ => ends_pure) fun _ => ends_typeNameOf hs htype fun _ => True.intro

theorem elseScope_ends (hl : p.Lasts sound k) (hs : Ready sound 2 k s) :
    Ends sound (elseScope p s) :=
  ends_accept (fun _ => ends_bind (scopeAfter_ends hl hs.next) fun _ _ _ => ends_pure)
    fun _ => ends_pure

theorem branch_ends (hp : p.Faithful) (hl : p.Lasts sound k) (hs : Ready sound 2 k s)
    {keyword : Token} : Ends sound (branch p keyword s) := by
  refine ends_openFrame fun frame s₁ hopen => ?_
  refine ends_expr hp hl (hs.opens hopen) fun first log s₂ hread hs₂ => ?_
  refine ends_bind (condition_ends hs₂.tree fun _ e he => hread.made rfl he) fun cond _ hcond => ?_
  obtain ⟨rfl, _, rfl⟩ := condition_ok hcond
  refine ends_bind (scopeAfter_ends hl hs₂) fun thenScope s₃ hthen => ?_
  obtain ⟨log', hread'⟩ := scopeAfter_reads hp hthen
  refine ends_bind (elseScope_ends hl (hs₂.reads hread' fun _ => True.intro)) fun _ _ _ => ?_
  exact ends_closeFrame fun _ _ => ends_push

/-- A condition that was left out has been made, so one is there to be checked either way. -/
theorem whileLoop_ends (hl : p.Lasts sound k) (hs : Ready sound 2 k s) {keyword : Token}
    {first : Option ExprId} {frame : FrameId}
    (hfirst : sound → ∀ e, first = some e → s.tree.HasExpr e) :
    Ends sound (whileLoop p keyword first frame s) := by
  refine ends_bind (s := s) ?_ fun cond s₁ hcond => ?_
  · cases first with
    | none => exact ends_push
    | some cond => exact ends_pure
  · have hs₁ : Ready sound 2 k s₁ ∧ (sound → s₁.tree.HasExpr cond) := by
      cases first with
      | none =>
        obtain ⟨rfl, rfl⟩ := push_ok.1 hcond
        refine ⟨hs.trail (.single .add) rfl fun hsound => ?_, fun _ => (Made.add .refl).2⟩
        exact (hs.tree hsound).pushExpr ⟨nofun, nofun, nofun, trivial⟩
      | some found =>
        obtain ⟨rfl, rfl⟩ := pure_ok.1 hcond
        exact ⟨hs, fun hsound => hfirst hsound _ rfl⟩
    refine ends_bind (condition_ends hs₁.1.tree ?_) fun checked _ hcheck => ?_
    · rintro hsound _ ⟨⟩
      exact hs₁.2 hsound
    · obtain ⟨_, _, rfl⟩ := condition_ok hcheck
      refine ends_bind (scopeAfter_ends hl hs₁.1) fun _ _ _ => ?_
      exact ends_closeFrame fun _ _ => ends_push

theorem countedLoop_ends (hp : p.Faithful) (hl : p.Lasts sound k) (hs : Ready sound 2 k s)
    {keyword semicolon : Token} {init : ExprId} {frame : FrameId} :
    Ends sound (countedLoop p keyword semicolon init frame s) := by
  refine ends_expr hp hl hs fun found log s₁ hread hs₁ => ?_
  refine ends_bind (condition_ends hs₁.tree fun _ e he => hread.made rfl he) fun cond _ hcheck => ?_
  obtain ⟨rfl, _, rfl⟩ := condition_ok hcheck
  refine ends_accept (fun _ => ?_) fun _ => True.intro
  refine ends_expr hp hl hs₁.next fun step _ s₃ _ hs₃ => ?_
  cases step with
  | none => exact True.intro
  | some step =>
    refine ends_bind (scopeAfter_ends hl hs₃) fun _ _ _ => ?_
    exact ends_closeFrame fun _ _ => ends_push

theorem loop_ends (hp : p.Faithful) (hl : p.Lasts sound k) (hs : Ready sound 2 k s)
    {keyword : Token} : Ends sound (loop p keyword s) := by
  refine ends_openFrame fun frame s₁ hopen => ?_
  refine ends_expr hp hl (hs.opens hopen) fun first log s₂ hread hs₂ => ?_
  rw [isAt_bind]
  refine ends_ite (fun _ => whileLoop_ends hl hs₂ fun _ e he => hread.made rfl he) fun _ => ?_
  refine ends_accept (fun _ => ?_) fun _ => True.intro
  cases first with
  | none => exact True.intro
  | some init => exact countedLoop_ends hp hl hs₂.next

theorem returnedType_ends (hs : sound → s.tree.Sound) {value : Option ExprId}
    {f : EntityId → Parse α} (hvalue : sound → ∀ e, value = some e → s.tree.HasExpr e)
    (hf : ∀ type, (sound → s.tree.HasEntity type) → Ends sound (f type s)) :
    Ends sound ((returnedType value >>= f) s) := by
  cases value with
  | none => exact hf _ fun hsound => ((hs hsound).builtins.isType .void).hasEntity
  | some value =>
    exact ends_typeOf hs (fun hsound => hvalue hsound _ rfl) fun type _ htype => hf type htype

theorem resultOf_hasEntity {t : Tree} (ht : t.Sound) {function : EntityId} {e : Entity}
    (he : t.entity? function = some e) : t.HasEntity (resultOf e) := by
  obtain ⟨name, kind⟩ := e
  have hkind := ht.kind he
  cases kind with
  | function => exact hkind.2.2.hasEntity
  | _ => exact (ht.builtins.isType .void).hasEntity

/-- The function around is one of the constructs of the state, which `Ready` keeps in the tree. -/
theorem returns_ends (hp : p.Faithful) (hl : p.Lasts sound k) (hs : Ready sound 2 k s)
    {keyword : Token} {closing : TokenSet} : Ends sound (returns p keyword closing s) := by
  unfold returns enclosingFunction?
  simp only [bind_assoc, get_bind]
  rcases hconstructs : s.constructs with _ | ⟨⟨function⟩ | _, rest⟩
  · exact True.intro
  · have hfunction : sound → s.tree.HasEntity function := fun hsound =>
      (hs.sound hsound).functions function (by rw [hconstructs]; exact List.mem_cons_self)
    refine ends_entityOf hfunction fun e he => ?_
    refine ends_expr hp hl hs fun value log s₁ hread hs₁ => ?_
    refine returnedType_ends hs₁.tree (fun _ e he => hread.made rfl he) fun source hsource => ?_
    have htarget : sound → s₁.tree.HasEntity (resultOf e) := fun hsound =>
      hread.extends.hasEntity (resultOf_hasEntity (hs.tree hsound) he)
    refine ends_converts hs₁.tree hsource htarget fun implicit => ?_
    refine ends_ite (fun _ => ?_) fun _ => ends_push
    exact ends_typeNames hs₁.tree hsource htarget fun _ _ => True.intro
  · exact True.intro

/-! ## Groups and functions -/

theorem isParameters_ends {content : Option ExprId}
    (hcontent : sound → ∀ c, content = some c → s.tree.HasExpr c) :
    Ends sound (isParameters content s) := by
  cases content with
  | none => exact ends_pure
  | some c =>
    refine ends_nodeOf (fun hsound => hcontent hsound c rfl) fun e _ => ?_
    cases e.node <;> exact ends_pure

theorem signature_ends (hs : sound → s.tree.Sound) {paren : Token} {params : Option ExprId}
    {frame : FrameId} : Ends sound (signature paren params frame s) := by
  refine ends_accept (fun _ => ?_) fun _ => ends_closeFrame fun _ _ => ends_push
  refine ends_bind (typeName_ends hs) fun _ _ _ => ?_
  exact ends_closeFrame fun _ _ => ends_push

/-- The frame of a group is closed in either case, by the signature or after the expression. -/
theorem group_ends (hp : p.Faithful) (hl : p.Lasts sound k) (hs : Ready sound 2 k s)
    {paren : Token} : Ends sound (group p paren s) := by
  refine ends_openFrame fun frame s₁ hopen => ?_
  refine ends_expr hp hl (hs.opens hopen) fun content log s₂ hread hs₂ => ?_
  refine ends_accept (fun _ => ?_) fun _ => True.intro
  refine ends_bind (isParameters_ends fun _ c hc => hread.made rfl hc) fun params s₃ hparams => ?_
  obtain ⟨_, _, rfl⟩ := isParameters_ok hparams
  refine ends_ite (fun _ => signature_ends hs₂.next.tree) fun _ => ?_
  refine ends_closeFrame fun _ _ => ?_
  cases content with
  | none => exact True.intro
  | some inner => exact ends_push

theorem bindCanonical_ends {canonical : String} {function : EntityId} :
    Ends sound (bindCanonical canonical function s) := by
  unfold bindCanonical
  rw [get_bind]
  exact ends_ite (fun _ => True.intro) fun _ => ends_pure

theorem bindBody_ends {name : Token} {function : EntityId} {body : ExprId} :
    Ends sound (bindBody name function body s) := by
  unfold bindBody
  rw [get_bind]
  cases s.tree.bindBody s.tree.currentFrame function body <;> exact True.intro

/-- The head makes the function and gives it its names. The body is read in the frame of the
signature, and begins in a state that is ready with the function as its construct. -/
theorem function_ends (hl : p.Lasts sound k) (hs : Ready sound 2 k s) {name : Token}
    {header : ExprId} (hheader : sound → s.tree.HasExpr header) :
    Ends sound (function p name header s) := by
  refine ends_nodeOf hheader fun e hexpr => ?_
  obtain ⟨node, span⟩ := e
  cases node with
  | signature params? result frame =>
    have hnode := fun hsound => (hs.tree hsound).node hexpr
    have hframe : sound → s.tree.HasFrame frame := fun hsound => (hnode hsound).own frame rfl
    have hresult : sound → s.tree.IsType result := fun hsound => (hnode hsound).typed
    simp only [get_bind]
    refine ends_known (fun hsound => (hs.tree hsound).variables? (hframe hsound)) ?_
    intro params hparams
    simp only [get_bind]
    refine ends_known (fun hsound => (hs.tree hsound).signatureName?
      (variables?_hasEntity (hs.tree hsound) hparams) (hresult hsound).hasEntity) ?_
    intro canonical _
    rw [pushEntity_bind, bindName_bind]
    refine ends_bind bindCanonical_ends fun _ s₁ hcanonical => ?_
    obtain rfl := bindCanonical_ok hcanonical
    refine ends_enterFrame fun s₂ henter => ?_
    have hhead := fun hsound => sound_enters (hs.tree hsound) hexpr hparams rfl henter
    have hs₂ : Ready sound 2 k s₂ := by
      have hname : Trail s [⟨s.tree.currentFrame, name.text, s.newEntity, 0⟩]
          ((s.addEntity ⟨canonical, .function params result⟩).bind name.text s.newEntity) :=
        .after .addEntity (.single .bind)
      have htrail := hname.trans (Trail.bindNew.trans (.single (.enters henter)))
      refine hs.trail htrail ?_ fun hsound => (hhead hsound).1
      exact henter.constructs.trans (State.bindNew_constructs _ _ _)
    have hs₃ : Ready sound 2 k (s₂.inside (.function s.newEntity)) := by
      refine hs₂.inside ?_
      rintro hsound _ ⟨⟩
      exact (hhead hsound).2.2
    rw [beginConstruct_bind]
    unfold skipNewlines
    rw [skip_bind]
    refine ends_accept (fun _ => ?_) fun _ => True.intro
    refine ends_bind (scopeBody_ends hl hs₃.past.next) fun _ _ _ => ?_
    rw [endConstruct_bind]
    refine ends_closeFrame fun _ _ => ?_
    exact ends_bind bindBody_ends fun _ _ _ => ends_push
  | _ => exact True.intro

/-! ## Definitions -/

theorem nextDefinition_ends (hp : p.Faithful) (hl : p.Lasts sound k) (hs : Ready sound 2 k s)
    {closing : TokenSet} : Ends sound (nextDefinition p closing s) := by
  refine ends_accept (fun _ => ?_) fun _ => ends_pure
  simp only [skipNewlines, skip_bind]
  refine ends_operand hp hl hs.next.past fun next log s₁ hread _ => ?_
  cases next with
  | none => exact True.intro
  | some next =>
    refine ends_nodeOf (fun _ => hread.made rfl rfl) fun e _ => ?_
    cases e.node <;> exact True.intro

theorem declaration_ends (hp : p.Faithful) (hl : p.Lasts sound k) (hs : Ready sound 2 k s)
    {name : Token} {op : DefOp} {init : Option ExprId} {type : EntityId} {closing : TokenSet}
    (htype : sound → s.tree.IsType type) :
    Ends sound (declaration p name op init type closing s) := by
  unfold declaration
  rw [install_bind]
  have htrail : Trail s [⟨s.tree.currentFrame, name.text, s.newEntity, 0⟩]
      (s.install (.var name.text type)) := .install rfl
  have hs₁ : Ready sound 2 k (s.install (.var name.text type)) := by
    refine hs.trail htrail rfl fun hsound => ?_
    exact (sound_named (e := .var name.text type) (hs.tree hsound)
      ⟨(htype hsound).hasEntity, htype hsound⟩ rfl).1
  exact ends_bind (nextDefinition_ends hp hl hs₁) fun _ _ _ => ends_push

theorem declaredType_ends (hs : sound → s.tree.Sound) {op : DefOp} {symbol : Token} :
    Ends sound (declaredType op symbol s) := by
  cases op with
  | constant => exact ends_pure
  | «variable» =>
    exact ends_ite (fun _ => ends_pure) fun _ =>
      ends_bind (typeName_ends hs) fun _ _ _ => ends_pure

theorem initializer_ends (hp : p.Faithful) (hl : p.Lasts sound k) (hs : Ready sound 2 k s)
    {after : Token} {closing : TokenSet} : Ends sound (initializer p after closing s) := by
  refine ends_expr hp hl hs fun value _ _ _ _ => ?_
  cases value <;> exact True.intro

theorem initialValue_ends (hp : p.Faithful) (hl : p.Lasts sound k) (hs : Ready sound 2 k s)
    {op : DefOp} {symbol : Token} {closing : TokenSet} :
    Ends sound (initialValue p op symbol closing s) := by
  cases op with
  | constant => exact ends_bind (initializer_ends hp hl hs) fun _ _ _ => ends_pure
  | «variable» =>
    refine ends_accept (fun _ => ?_) fun _ => ends_pure
    exact ends_bind (initializer_ends hp hl hs.next) fun _ _ _ => ends_pure

theorem definedType_ends (hs : sound → s.tree.Sound) {name symbol : Token}
    {type : Option EntityId} {init : Option ExprId}
    (htype : sound → ∀ d, type = some d → s.tree.IsType d)
    (hinit : sound → ∀ i, init = some i → s.tree.HasExpr i) :
    Ends sound (definedType name symbol type init s) := by
  cases type with
  | none =>
    cases init with
    | none => exact True.intro
    | some init =>
      have run : definedType name symbol none (some init) s = (typeOf init >>= pure) s := by
        rw [bind_pure]
        rfl
      rw [run]
      exact ends_typeOf hs (fun hsound => hinit hsound _ rfl) fun _ _ _ => ends_pure
  | some type =>
    cases init with
    | none => exact ends_pure
    | some init =>
      have htarget : sound → s.tree.HasEntity type := fun hsound =>
        (htype hsound _ rfl).hasEntity
      refine ends_typeOf hs (fun hsound => hinit hsound _ rfl) fun source _ hsource => ?_
      refine ends_converts hs hsource htarget fun implicit => ?_
      refine ends_ite (fun _ => ends_pure) fun _ => ?_
      exact ends_typeNames hs htarget hsource fun _ _ => True.intro

theorem typedef_ends {name : Token} {op : DefOp} {body : ExprId}
    (hbody : sound → s.tree.HasExpr body) : Ends sound (typedef name op body s) := by
  refine ends_nodeOf hbody fun e hexpr => ?_
  obtain ⟨node, span⟩ := e
  cases node with
  | record form members frame =>
    simp only [install_bind]
    exact ends_spanOf (fun hsound => Within.install.grows.hasExpr (hbody hsound)) fun _ =>
      ends_push
  | _ => exact True.intro

/-- The node of the value decides what is defined: a function, a type or a variable. Each begins
in the state after the value, in which the value is there. -/
theorem definition_ends (hp : p.Faithful) (hl : p.Lasts sound k) (hs : Ready sound 2 k s)
    {name symbol : Token} {closing : TokenSet} :
    Ends sound (definition p name symbol closing s) := by
  unfold definition
  rw [get_bind]
  refine ends_ite (fun _ => True.intro) fun _ => ?_
  dsimp only
  generalize (if symbol.kind = .declare then DefOp.constant else .variable) = op
  refine ends_bind (declaredType_ends hs.tree) fun type s₁ hrun => ?_
  have hdeclared := declaredType_ok hrun
  have hs₁ : Ready sound 2 k s₁ := by
    cases hdeclared with
    | constant | inferred => exact hs
    | named => exact hs.next
  refine ends_bind (initialValue_ends hp hl hs₁) fun init s₂ hinit => ?_
  obtain ⟨log, hread⟩ := initialValue_reads hp hinit
  have hs₂ := hs₁.reads hread fun _ => True.intro
  have htype : sound → ∀ d, type = some d → s₂.tree.IsType d := by
    rintro _ d rfl
    exact hdeclared.isType.mono hread.extends
  have hvalue : sound → ∀ i, init = some i → s₂.tree.HasExpr i := fun _ i hi =>
    hread.made rfl hi
  have hvariable : Ends sound ((definedType name symbol type init >>= fun type =>
      declaration p name op init type closing) s₂) := by
    refine ends_bind (definedType_ends hs₂.tree htype hvalue) fun defined _ hrun => ?_
    obtain ⟨hdefined, rfl⟩ := definedType_ok hrun
    exact declaration_ends hp hl hs₂ fun hsound =>
      (hdefined.fits (hs₂.tree hsound) (htype hsound) (hvalue hsound)).1
  cases init with
  | none => exact hvariable
  | some init =>
    have hinit : sound → s₂.tree.HasExpr init := fun hsound => hvalue hsound init rfl
    refine ends_bind ?_ fun node s₃ hnode => ?_
    · rw [map_eq_pure_bind]
      exact ends_nodeOf hinit fun _ _ => ends_pure
    · have hbind : ((some <$> nodeOf init) >>= pure) s₂ = .ok node s₃ :=
        bind_ok.2 ⟨node, s₃, hnode, rfl⟩
      obtain ⟨e, _, hpure⟩ := someNodeOf_bind hbind
      obtain ⟨rfl, rfl⟩ := pure_ok.1 hpure
      cases e.node with
      | signature => exact function_ends hl hs₂ hinit
      | record => exact typedef_ends hinit
      | _ => exact hvariable

theorem nameOrDefinition_ends (hp : p.Faithful) (hl : p.Lasts sound k) (hs : Ready sound 2 k s)
    {name : Token} {closing : TokenSet} : Ends sound (nameOrDefinition p name closing s) :=
  ends_accept (fun _ => definition_ends hp hl hs.next) fun _ => nameUse_ends

/-! ## Records -/

/-- By induction on the members, each of which was made by the reading of the body. -/
theorem checkMembers_ends {form : RecordForm} {body : List ExprId}
    (hbody : sound → ∀ b ∈ body, s.tree.HasExpr b) : Ends sound (checkMembers form body s) := by
  induction body with
  | nil => exact ends_pure
  | cons b rest ih =>
    have hb : sound → s.tree.HasExpr b := fun hsound => hbody hsound b List.mem_cons_self
    refine ends_nodeOf hb fun e _ => ?_
    refine ends_ite (fun _ => ends_spanOf hb fun _ => ?_) fun _ => ?_
    · cases form <;> exact True.intro
    · exact ih fun hsound c hc => hbody hsound c (List.mem_cons_of_mem _ hc)

theorem record_ends (hp : p.Faithful) (hl : p.Lasts sound k) (hs : Ready sound 2 k s)
    {keyword : Token} : Ends sound (record p keyword s) := by
  unfold record skipNewlines
  rw [skip_bind]
  refine ends_accept (fun _ => ?_) fun _ => True.intro
  refine ends_openFrame fun frame s₁ hopen => ?_
  rw [beginConstruct_bind]
  have hs₁ : Ready sound 2 k (s₁.inside .record) := by
    refine (hs.past.next.opens hopen).inside ?_
    rintro _ _ ⟨⟩
  refine ends_bind (hl.sequence hs₁ fun _ => hasExpr_empty) fun body s₂ hsequence => ?_
  obtain ⟨log, hread⟩ := hp.sequence hsequence
  have hbody : sound → ∀ b ∈ body, s₂.tree.HasExpr b := fun _ => hread.hasItems hasExpr_empty
  refine ends_bind (checkMembers_ends hbody) fun _ _ _ => ?_
  rw [endConstruct_bind]
  exact ends_closeFrame fun _ _ => ends_push

/-- A record that has a type also has a frame to look the name up in. -/
theorem member_ends (hs : Ready sound 2 k s) {base : ExprId} {dot : Token}
    (hbase : sound → s.tree.HasExpr base) : Ends sound (member base dot s) := by
  refine ends_accept (fun _ => ?_) fun _ => True.intro
  have hs₁ := hs.next
  refine ends_typeOf hs₁.tree hbase fun type _ htype => ?_
  refine ends_entityOf htype fun e he => ?_
  cases hrecord : e.recordFrame? with
  | none => exact ends_typeNameOf hs₁.tree htype fun _ => True.intro
  | some frame =>
    have hframe : sound → s.next.tree.HasFrame frame := fun hsound =>
      (hs₁.tree hsound).recordFrame ((hs₁.tree hsound).hasRecords _ _ _ he hrecord)
    refine ends_frameOf hframe fun x _ => ?_
    cases x.find? s.cursor.current.text with
    | none => exact ends_typeNameOf hs₁.tree htype fun _ => True.intro
    | some entity => exact ends_spanOf hbase fun _ => ends_push

/-! ## One turn around the circles -/

theorem operand_ends (hp : p.Faithful) (hl : p.Lasts sound k) (hs : Ready sound 2 k s)
    {left : Option ExprId} {token : Token} {closing : TokenSet}
    (hleft : sound → ∀ l, left = some l → s.tree.HasExpr l) :
    Ends sound (operand p left token closing s) := by
  unfold operand
  generalize token.kind = kind
  cases kind with
  | name => exact nameOrDefinition_ends hp hl hs
  | decimal | binary | hexadecimal => exact integer_ends
  | float => exact float_ends
  | character => exact character_ends
  | text => exact textLiteral_ends
  | ifWord => exact branch_ends hp hl hs
  | forWord => exact loop_ends hp hl hs
  | returnWord => exact returns_ends hp hl hs
  | structWord | enumWord => exact record_ends hp hl hs
  | openParen =>
    cases left with
    | none => exact group_ends hp hl hs
    | some callee => exact call_ends hp hl hs fun hsound => hleft hsound _ rfl
  | openBrace =>
    cases left with
    | none => exact scope_ends hl hs
    | some name => exact structLiteral_ends hp hl hs fun hsound => hleft hsound _ rfl
  | dot =>
    cases left with
    | none => exact True.intro
    | some base => exact member_ends hs fun hsound => hleft hsound _ rfl
  | _ => exact ends_unexpected

theorem stepFrom_ends (hp : p.Faithful) (hl : p.Lasts sound k) (hs : Ready sound 0 (k + 1) s)
    {left : Option ExprId} {closing : TokenSet}
    (hleft : sound → ∀ l, left = some l → s.tree.HasExpr l) :
    Ends sound (stepFrom p left closing s) := by
  refine ends_accept (fun hat => ?_) fun _ => True.intro
  have hs₁ := hs.read hat (by decide)
  refine ends_ite (fun _ => ends_pure) fun _ => ?_
  refine ends_ite (fun _ => ?_) fun _ => ?_
  · exact ends_bind (binaryOperation_ends hp hl hs₁ hleft) fun _ _ _ => ends_pure
  · refine ends_ite (fun _ => ends_unexpected) fun _ => ?_
    exact ends_bind (operand_ends hp hl hs₁ hleft) fun _ _ _ => ends_pure

theorem stepTurn_ends (hp : p.Faithful) (hl : p.Lasts sound k) (hs : Ready sound 0 (k + 1) s)
    {left : Option ExprId} {closing : TokenSet}
    (hleft : sound → ∀ l, left = some l → s.tree.HasExpr l) :
    Ends sound (stepTurn p left closing s) := by
  unfold stepTurn
  rw [isAt_bind]
  refine ends_ite (fun _ => ends_pure) fun _ => ?_
  cases left with
  | none =>
    refine ends_accept (fun hat => ?_) fun _ => stepFrom_ends hp hl hs hleft
    have hs₁ := hs.read hat (by decide)
    exact ends_bind (prefixOperation_ends hp hl hs₁) fun _ _ _ => ends_pure
  | some left =>
    refine ends_accept (fun hat => ?_) fun _ => stepFrom_ends hp hl hs hleft
    have hs₁ := hs.read hat (by decide)
    exact ends_bind (postfixOperation_ends hs₁ fun hsound => hleft hsound _ rfl) fun _ _ _ =>
      ends_pure

/-- Since the step has read a token, what is left fits the level below. -/
theorem extendTurn_ends (hp : p.Faithful) (hl : p.Lasts sound k) (hs : Ready sound 1 (k + 1) s)
    {left : Option ExprId} {closing : TokenSet}
    (hleft : sound → ∀ l, left = some l → s.tree.HasExpr l) :
    Ends sound (extendTurn p left closing s) := by
  unfold extendTurn
  rw [isAt_bind]
  refine ends_ite (fun _ => ends_pure) fun hclosing => ?_
  simp only [atEnd_bind]
  refine ends_ite (fun _ => True.intro) fun hend => ?_
  simp only [bind_run, endsBeforeBrace_run]
  refine ends_ite (fun _ => ends_pure) fun _ => ?_
  refine ends_bind (hl.step (hs.mono (by omega)) hleft) fun next s₁ hstep => ?_
  obtain ⟨log, hread⟩ := hp.step hstep
  have hkind : s.cursor.current.kind ≠ .eof := by simpa [Cursor.atEnd] using hend
  have hs₁ : Ready sound 2 k s₁ := hs.below (hs.reads hread hleft) hread.forward hkind
    (hread.advances (by simpa using hclosing))
  have hnext : sound → ∀ l, next.or left = some l → s₁.tree.HasExpr l := by
    intro hsound l hl
    cases next with
    | none => exact hread.extends.hasExpr (hleft hsound l hl)
    | some next => exact hread.hasExpr (hleft hsound) hl
  cases next with
  | none => exact hl.extend (hs₁.mono (by omega)) hnext
  | some next => exact hl.extend (hs₁.mono (by omega)) hnext

/-- An item takes at least one token, so that the rest of the sequence fits the level below. -/
theorem sequenceTurn_ends (hp : p.Faithful) (hl : p.Lasts sound k) (hs : Ready sound 2 (k + 1) s)
    {body : Array ExprId} {closing : TokenSet} (hbody : sound → ∀ b ∈ body, s.tree.HasExpr b) :
    Ends sound (sequenceTurn p body closing s) := by
  unfold sequenceTurn
  rw [skip_bind]
  refine ends_accept (fun _ => ends_pure) fun hclosing => ?_
  simp only [atEnd_bind]
  refine ends_ite (fun _ => True.intro) fun hend => ?_
  have hs₀ : Ready sound 2 (k + 1) (s.past separators) := hs.past
  have hready : Ready sound 1 k (s.past separators) := hs₀.mono (by omega)
  refine ends_bind (hl.extend hready fun _ => hasExpr_none) fun item s₁ hextend => ?_
  obtain ⟨log, hread⟩ := hp.extend hextend
  have hkind : (s.past separators).cursor.current.kind ≠ .eof := by
    simpa [Cursor.atEnd] using hend
  have hs₁ : Ready sound 2 k s₁ := hs₀.below (hs₀.reads hread fun _ => hasExpr_none)
    hread.forward hkind (hread.expr_advances (isAt_item hs.closed hclosing))
  have hitems : sound → ∀ b ∈ item.elim body body.push, s₁.tree.HasExpr b := fun hsound =>
    hasExpr_item (fun b hb => hread.extends.hasExpr (hbody hsound b hb)) fun i hi =>
      hread.made rfl hi
  cases item with
  | none => exact hl.sequence hs₁ hitems
  | some item => exact hl.sequence hs₁ hitems

end OnePass.Grammar

import OnePass.Proofs.References

/-!
# Soundness

Every reading leads from a sound tree to a sound tree, if what the production is given is in
the tree (`Reads.sound`). This goes through the rules of the grammar: each of them checks, when
it makes a node, what the typing rule of the node asks for. Whatever is checked before other
things are read still holds after them, since a sound tree evolves (`Reads.evolves`). So the
tree of an accepted source is sound, and all its nodes are typed (`accepted_nodes_typed`).
-/

namespace OnePass.Grammar

variable {s s₁ s₂ s' : State} {t t' : Tree} {frame : FrameId} {log : List Binding} {φ : Phrase}

/-! ## What productions are given -/

/-- What the production is given is in the tree. -/
def Phrase.Fits (t : Tree) : Phrase → Prop
  | step left .. | extend left .. | operand left .. | binaryOperation left .. =>
    ∀ l, left = some l → t.HasExpr l
  | sequence body .. => ∀ b ∈ body, t.HasExpr b
  | postfixOperation left .. => t.HasExpr left
  | call callee .. => t.HasExpr callee
  | structLiteral base .. | member base .. => t.HasExpr base
  | arguments _ params _ => ∀ p ∈ params, t.HasEntity p
  | function _ header _ => t.HasExpr header
  | typedef _ _ body _ => t.HasExpr body
  | declaration _ _ init type _ _ =>
    t.IsType type ∧ ∀ i, init = some i → t.HasExpr i ∧ t.Fills i type
  | _ => True

theorem Begins.fits {token : Token} {closing : TokenSet} {id : ExprId} {left : Option ExprId}
    (h : Begins token closing id left φ) (hleft : ∀ l, left = some l → t.HasExpr l) :
    φ.Fits t := by
  cases h <;> first | trivial | exact hleft _ rfl

/-- What a production answers is in the tree. -/
theorem Reads.hasExpr (h : Reads φ s log s') (hfits : φ.Fits s.tree) {id : ExprId}
    (hid : φ.answer? = some id) : s'.tree.HasExpr id := by
  rcases h.answer hid with hleft | hmade
  · refine h.extends.hasExpr ?_
    cases φ <;> first | exact hfits _ hleft | cases hleft
  · exact hmade.2

/-- The same of productions that are given nothing. -/
theorem Reads.made (h : Reads φ s log s') {id : ExprId} (hleft : φ.left? = none)
    (hid : φ.answer? = some id) : s'.tree.HasExpr id := by
  rcases h.answer hid with hid | hmade
  · rw [hleft] at hid
    cases hid
  · exact hmade.2

theorem Reads.made_toList (h : Reads φ s log s') (hleft : φ.left? = none) :
    ∀ c ∈ φ.answer?.toList, s'.tree.HasExpr c :=
  fun _ hc => h.made hleft (Option.mem_toList.1 hc)

theorem hasExpr_none : ∀ l, (none : Option ExprId) = some l → t.HasExpr l :=
  fun _ hl => absurd hl.symm (Option.some_ne_none _)

theorem hasExpr_empty : ∀ b ∈ (#[] : Array ExprId), t.HasExpr b :=
  fun b hb => absurd hb (Array.not_mem_empty b)

theorem hasExpr_item {body : Array ExprId} {item : Option ExprId}
    (hbody : ∀ b ∈ body, t.HasExpr b) (hitem : ∀ i, item = some i → t.HasExpr i) :
    ∀ b ∈ item.elim body body.push, t.HasExpr b := by
  cases item with
  | none => exact hbody
  | some item =>
    intro b hb
    rcases Array.mem_push.1 hb with hb | rfl
    · exact hbody b hb
    · exact hitem _ rfl

/-- The expressions of a sequence are in the tree. -/
theorem Reads.hasItems {body : Array ExprId} {closing : TokenSet} {answer : List ExprId}
    (h : Reads (.sequence body closing answer) s log s') (hbody : ∀ b ∈ body, s.tree.HasExpr b) :
    ∀ b ∈ answer, s'.tree.HasExpr b := by
  generalize hφ : Phrase.sequence body closing answer = φ at h
  induction h generalizing body with
  | sequenceClosing =>
    cases hφ
    exact fun b hb => hbody b (Array.mem_toList_iff.1 hb)
  | sequenceItem _ _ hitem _ _ ih =>
    cases hφ
    refine ih (hasExpr_item (fun b hb => hitem.extends.hasExpr (hbody b hb)) ?_) rfl
    rintro _ rfl
    exact hitem.made rfl rfl
  | _ => cases hφ

/-! ## Frames that are nobody's -/

theorem DeclaredType.isType {op : DefOp} {type : EntityId}
    (h : DeclaredType op s (some type) s') : s'.tree.IsType type := by
  cases h with
  | named _ hnames => exact hnames.isType

theorem DeclaredType.tree {op : DefOp} {type : Option EntityId} (h : DeclaredType op s type s') :
    s'.tree = s.tree := by
  cases h <;> rfl

theorem ResultType.tree {type : EntityId} (h : ResultType s type s') : s'.tree = s.tree := by
  cases h <;> rfl

theorem ResultType.isType {type : EntityId} (h : ResultType s type s')
    (hb : s.tree.HasBuiltins) : s'.tree.IsType type := by
  cases h with
  | nothing => exact hb.isType .void
  | named _ hnames => exact hnames.isType

theorem Separates.tree {rest : List EntityId} {closing : TokenSet}
    (h : Separates rest closing s s') : s'.tree = s.tree := by
  cases h <;> rfl

/-- A frame that was opened and closed again is nobody's. -/
theorem Opens.unowned (hopen : Opens s frame s₁) (hclose : Closes s₂ s') (hs : s.tree.Sound)
    (h : Within s₁.tree s₂.tree) : s'.tree.Unowned frame := by
  have hstack := (hopen.leaves hclose h).stack
  obtain ⟨rfl, hsize, rfl⟩ := hopen.eq
  obtain ⟨_, rfl⟩ := hclose.eq
  have hnew : ¬s.tree.HasFrame ⟨s.tree.frames.size⟩ := Nat.lt_irrefl _
  have hchild : s.tree.withChild.HasFrame ⟨s.tree.frames.size⟩ := by
    unfold Tree.HasFrame Tree.withChild
    rw [Array.size_push]
    exact Nat.lt_succ_self _
  refine ⟨h.grows.hasFrame hchild, ?_, ?_⟩
  · intro hmem
    rw [hstack] at hmem
    exact hnew (hs.framed.stack _ hmem)
  · intro id e he hown
    rcases h.owned he hown with hid | hframe
    · have hold : s.tree.expr? id = some e := (h.grows.expr_eq hid).symm.trans he
      exact hnew ((hs.node hold).own _ hown)
    · exact hframe hchild

/-! ## Evolution of a reading -/

/-- No production changes the frame of a record. -/
theorem Reads.evolves (h : Reads φ s log s') (hs : s.tree.Sound) : s.tree.Evolves s'.tree := by
  refine ⟨h.extends, ?_⟩
  intro f hf
  refine h.leaves.frames f (hs.recordFrame hf) ?_
  intro htouches
  have hcurrent : f ≠ s.tree.currentFrame := fun heq => hs.current (heq ▸ hf)
  cases φ <;> first
    | exact htouches.elim
    | exact hcurrent htouches
    | skip
  -- what is left is a function, with the frame of its signature
  rcases htouches with heq | ⟨e, he, hsignature⟩
  · exact hcurrent heq
  · exact hs.apart hf he hsignature

theorem Opens.sound (h : Opens s frame s') (hs : s.tree.Sound) : s'.tree.Sound := by
  obtain ⟨rfl, hsize, rfl⟩ := h.eq
  have hnew : ¬s.tree.withChild.IsRecordFrame ⟨s.tree.frames.size⟩ :=
    fun hrecord => Nat.lt_irrefl _ (hs.recordFrame hrecord)
  exact hs.withChild.onTop (by simp [Tree.HasFrame, Tree.withChild]) hnew hsize

theorem Closes.sound (h : Closes s s') (hs : s.tree.Sound) : s'.tree.Sound := by
  obtain ⟨hsize, rfl⟩ := h.eq
  exact hs.offTop hsize

theorem Closes.evolves (h : Closes s s') : s.tree.Evolves s'.tree := by
  obtain ⟨_, rfl⟩ := h.eq
  exact Tree.offTop_evolves

/-- A node that has no frame of its own and fits before a frame is closed may be added after
it. -/
theorem Closes.push (h : Closes s s') (hs : s.tree.Sound) {node : Node} {span : Span}
    (hfits : s.tree.Fits node) (hown : node.ownFrame? = none) : (s'.add node span).tree.Sound := by
  have hevolves := h.evolves
  refine (h.sound hs).pushExpr ⟨?_, ?_, ?_, ?_⟩
  · exact fun c hc => hevolves.toExtends.hasExpr (hfits.children c hc)
  · exact fun m hm => hevolves.toExtends.hasEntity (hfits.referent m hm)
  · intro f hf
    exact absurd (hown.symm.trans hf) nofun
  · exact hfits.typed.mono hevolves hs.builtins hs.hasRecords

theorem Enters.sound (h : Enters s frame s') (hs : s.tree.Sound)
    (hrecord : ¬s.tree.IsRecordFrame frame) : s'.tree.Sound := by
  have hframe := h.hasFrame
  obtain ⟨_, hsize, rfl⟩ := h.eq
  exact hs.onTop hframe hrecord hsize

theorem Enters.evolves (h : Enters s frame s') : s.tree.Evolves s'.tree := by
  obtain ⟨_, hsize, rfl⟩ := h.eq
  exact Tree.onTop_evolves hsize

/-! ## Rules are checked -/

/-- A type that an expression has converts into itself. -/
theorem fills_self {id : ExprId} {type : EntityId} (htype : t.exprType? id = some type)
    (histype : t.IsType type) : t.Fills id type := by
  refine ⟨type, htype, .same, ?_, rfl⟩
  unfold Tree.cast?
  rw [Tree.castWithin?_succ, histype.entityType?, Option.bind_some, Option.bind_some, if_pos rfl]

theorem exprType?_isType (hs : t.Sound) {id : ExprId} {type : EntityId}
    (htype : t.exprType? id = some type) (hid : t.HasExpr id) : t.IsType type := by
  obtain ⟨found, hfound, histype⟩ := hs.exprType? hid
  obtain rfl := Option.some.inj (htype.symm.trans hfound)
  exact histype

theorem AtomicType.typed {operand : ExprId} {type : EntityId} (h : AtomicType t operand type)
    (op : UnaryOp) (side : Side) : (Node.unary op side type operand).Typed t := by
  obtain ⟨htype, e, a, he, ha⟩ := h
  exact ⟨htype, a, type, e, htype, he, ha⟩

theorem OperationType.typed {op : BinaryOp} {left right : ExprId} {type : EntityId}
    (h : OperationType t op left right type) (hb : t.HasBuiltins) :
    (Node.binary op type left right).Typed t := by
  unfold Node.Typed
  cases h with
  | assignment hfamily hleftType hrightType hnode hassigned hentity hisVar hconverts =>
    simp only [hfamily]
    exact ⟨⟨_, _, _, hnode, hassigned, hentity, hisVar⟩, hleftType, _, hrightType, hconverts⟩
  | @arithmetic _ _ _ _ _ a b hfamily hleftType hrightType hleft hright ha hb' hcomposed =>
    simp only [hfamily]
    refine ⟨a, b, ⟨_, _, hleftType, hleft, ha⟩, ⟨_, _, hrightType, hright, hb'⟩, ?_⟩
    obtain ⟨c, hc, hhandle, hkind⟩ := Tree.compose?_eq_some hb hcomposed
    rw [Reading.dominant_join] at hkind
    exact ⟨c, hc, hhandle, hkind⟩
  | @logic _ _ _ _ a b hfamily hleftType hrightType hleft hright ha hb' =>
    simp only [hfamily]
    exact ⟨⟨a, _, _, hleftType, hleft, ha⟩, ⟨b, _, _, hrightType, hright, hb'⟩, trivial⟩

/-- The type of what is defined is a type, into which the value converts. -/
theorem DefinedType.fits {declared : Option EntityId} {init : Option ExprId} {type : EntityId}
    (h : DefinedType t declared init type) (hs : t.Sound)
    (hdeclared : ∀ d, declared = some d → t.IsType d)
    (hinit : ∀ i, init = some i → t.HasExpr i) :
    t.IsType type ∧ ∀ i, init = some i → t.HasExpr i ∧ t.Fills i type := by
  cases h with
  | declared => exact ⟨hdeclared _ rfl, nofun⟩
  | inferred htype =>
    have histype := exprType?_isType hs htype (hinit _ rfl)
    refine ⟨histype, ?_⟩
    rintro _ ⟨⟩
    exact ⟨hinit _ rfl, fills_self htype histype⟩
  | checked hsource hconverts =>
    refine ⟨hdeclared _ rfl, ?_⟩
    rintro _ ⟨⟩
    exact ⟨hinit _ rfl, _, hsource, hconverts⟩

/-- What names a structure is the use of a name, which stands for the structure. -/
theorem namedStruct?_ok {id : ExprId} {type : EntityId} {members : FrameId}
    (h : namedStruct? t id = some (type, members)) :
    (∃ name span, t.expr? id = some ⟨.name name (some type), span⟩) ∧
      ∃ e, t.entity? type = some e ∧ e.structFrame? = some members := by
  unfold namedStruct? at h
  obtain ⟨⟨node, span⟩, he, h⟩ := Option.bind_eq_some_iff.1 h
  cases node with
  | name name entity =>
    cases entity with
    | none => cases h
    | some entity =>
      obtain ⟨e, hentity, h⟩ := Option.bind_eq_some_iff.1 h
      obtain ⟨found, hstruct, h⟩ := Option.bind_eq_some_iff.1 h
      cases h
      exact ⟨⟨name, span, he⟩, e, hentity, hstruct⟩
  | _ => cases h

theorem isType_of_structFrame? {e : Entity} {members : FrameId}
    (h : e.structFrame? = some members) : e.isType = true := by
  obtain ⟨name, kind⟩ := e
  cases kind with
  | struct => rfl
  | _ => cases h

theorem variables?_hasEntity (hs : t.Sound) {members : FrameId} {vars : List EntityId}
    (h : t.variables? members = some vars) : ∀ v ∈ vars, t.HasEntity v := by
  obtain ⟨f, hf, hvars⟩ := Option.bind_eq_some_iff.1 h
  exact fun v hv => hs.names hf v ((Tree.variablesAmong?_spec hvars).1.subset hv)

/-! ## Entities that are made -/

/-- A new entity and a name for it. -/
theorem sound_named {e : Entity} {name : String} (hs : s.tree.Sound)
    (hkind : s.tree.KindSound s.newEntity e.kind)
    (h : s₁ = (s.addEntity e).bind name s.newEntity) :
    s₁.tree.Sound ∧ s.tree.Evolves s₁.tree ∧ s₁.tree.entity? s.newEntity = some e := by
  subst h
  have hpush := hs.pushEntity hkind
  have hfound : (s.tree.pushEntity e).2.entity? s.newEntity = some e := by
    rw [Tree.entity?_pushEntity]
    exact if_pos rfl
  have hhas := Tree.hasEntity_iff.2 ⟨_, hfound⟩
  exact ⟨hpush.bind hhas, (s.tree.pushEntity_evolves e).trans hpush.bind_evolves, hfound⟩

theorem sound_bindNew {n : String} {entity : EntityId} (hs : s.tree.Sound)
    (hentity : s.tree.HasEntity entity) :
    (s.bindNew n entity).tree.Sound ∧ s.tree.Evolves (s.bindNew n entity).tree := by
  unfold State.bindNew
  split
  · exact ⟨hs.bind hentity, hs.bind_evolves⟩
  · exact ⟨hs, .refl⟩

/-- A function is named, and the frame of its signature is entered for its body. -/
theorem sound_enters {header : ExprId} {params? : Option ExprId} {result : EntityId} {span : Span}
    {params : List EntityId} {canonical name : String} (hs : s.tree.Sound)
    (hexpr : s.tree.expr? header = some ⟨.signature params? result frame, span⟩)
    (hparams : s.tree.variables? frame = some params)
    (hnamed : s₁ = (s.addEntity ⟨canonical, .function params result⟩).bind name s.newEntity)
    (henter : Enters (s₁.bindNew canonical s.newEntity) frame s₂) :
    s₂.tree.Sound ∧ s.tree.Evolves s₂.tree ∧ s₂.tree.HasEntity s.newEntity := by
  have hresult : s.tree.IsType result := (hs.node hexpr).typed
  have hkind : s.tree.KindSound s.newEntity (.function params result) :=
    ⟨variables?_hasEntity hs hparams, hresult.hasEntity, hresult⟩
  obtain ⟨hs₁, hevolves₁, hentity⟩ := sound_named (e := ⟨canonical, _⟩) hs hkind hnamed
  have hhas := Tree.hasEntity_iff.2 ⟨_, hentity⟩
  obtain ⟨hs₁', hevolves₁'⟩ := sound_bindNew (n := canonical) hs₁ hhas
  have hhead := hevolves₁.trans hevolves₁'
  have hafter := hevolves₁'.trans henter.evolves
  refine ⟨?_, hevolves₁.trans hafter, hafter.toExtends.hasEntity hhas⟩
  exact henter.sound hs₁' fun hrecord => hs₁'.apart hrecord (hhead.toExtends.expr hexpr) rfl

/-- The parameters of a function are there. -/
theorem params_hasEntity (hs : t.Sound) {function : EntityId} {e : Entity}
    {params : List EntityId} {result : EntityId} (he : t.entity? function = some e)
    (hfunction : e.function? = some (params, result)) : ∀ p ∈ params, t.HasEntity p := by
  obtain ⟨name, kind⟩ := e
  cases kind with
  | function =>
    cases hfunction
    exact fun p hp => Nat.lt_trans ((hs.kind he).1 p hp) (Tree.hasEntity_iff.2 ⟨_, he⟩)
  | _ => cases hfunction

theorem recordEntity_kindSound (hs : t.Sound) {body : ExprId} {form : RecordForm}
    {members : List ExprId} {span : Span} (name : String)
    (hexpr : t.expr? body = some ⟨.record form members frame, span⟩) :
    t.KindSound ⟨t.entities.size⟩ (recordEntity name form frame).kind := by
  have hframe : t.IsRecordFrame frame := ⟨body, form, members, span, hexpr⟩
  cases form <;> exact ⟨hframe, fun f hf => hs.names hf⟩

theorem Literal.fits {token : Token} {node : Node} (h : Literal token node) : t.Fits node := by
  cases h <;> exact ⟨nofun, nofun, nofun, trivial⟩

/-! ## One production after the other -/

/-- The phrase leads from a sound tree to a sound tree, if what it is given is in the tree. -/
def KeepsSound (φ : Phrase) (s s' : State) : Prop :=
  s.tree.Sound → φ.Fits s.tree → s'.tree.Sound

section Productions

variable {s₃ s₄ s₅ : State} {log' log'' log₁ log₂ log₃ log₄ : List Binding} {closing : TokenSet}
  {keyword paren : Token} {cond scope : ExprId} {span : Span}

theorem sound_argumentsCons {param : EntityId} {rest : List EntityId} {value : ExprId}
    {next : Option ExprId} {e : Expr}
    (hvalue : Known KeepsSound (.extend none ({.comma} ∪ closing) (some value))
      (s.past {.newline}) log s₁)
    (hseparates : Separates rest closing s₁ s₂)
    (hrest : Known KeepsSound (.arguments closing rest next) s₂ log' s')
    (hexpr : s'.tree.expr? value = some e) :
    KeepsSound (.arguments closing (param :: rest) (some s'.newExpr)) s
      (s'.add (.argument value next) span) := by
  intro hs hfits
  have hs₁ := hvalue.holds hs nofun
  have hgrows := hvalue.read.extends.trans hseparates.trail.extends
  have hs₂ := hrest.holds (hseparates.tree ▸ hs₁) fun p hp =>
    hgrows.hasEntity (hfits p (List.mem_cons_of_mem _ hp))
  refine hs₂.pushExpr ⟨?_, nofun, nofun, trivial⟩
  exact List.forall_mem_cons.2 ⟨Tree.hasExpr_iff.2 ⟨_, hexpr⟩, hrest.read.made_toList rfl⟩

theorem sound_call {callee : ExprId} {function : EntityId} {f : Entity} {params : List EntityId}
    {result : EntityId} {args : Option ExprId} {e : Expr}
    (hentity : s.tree.entity? function = some f) (hfunction : f.function? = some (params, result))
    (hargs : Known KeepsSound (.arguments {.closeParen} params args) s log s')
    (hexpr : s'.tree.expr? callee = some e) :
    KeepsSound (.call callee paren s'.newExpr) s (s'.add (.call callee function args) span) := by
  intro hs _
  have hs' := hargs.holds hs (params_hasEntity hs hentity hfunction)
  refine hs'.pushExpr ⟨?_, ?_, nofun, trivial⟩
  · exact List.forall_mem_cons.2 ⟨Tree.hasExpr_iff.2 ⟨_, hexpr⟩, hargs.read.made_toList rfl⟩
  · rintro _ ⟨⟩
    exact hargs.read.extends.hasEntity (Tree.hasEntity_iff.2 ⟨_, hentity⟩)

/-- The condition of a branch still converts into a truth value when its scopes have been read. -/
theorem sound_branch {thenScope : ExprId} {elseScope : Option ExprId} (hopen : Opens s frame s₁)
    (hcond : Known KeepsSound (.extend none {.openBrace} (some cond)) s₁ log s₂)
    (htype : Condition s₂.tree cond)
    (hthen : Known KeepsSound (.scopeAfter "if" keyword thenScope) s₂ log' s₃)
    (helse : Known KeepsSound (.elseScope elseScope) s₃ log'' s₄) (hclose : Closes s₄ s') :
    KeepsSound (.branch keyword s'.newExpr) s
      (s'.add (.branch cond thenScope elseScope frame) span) := by
  intro hs _
  have hs₂ := hcond.holds (hopen.sound hs) nofun
  have hs₃ := hthen.holds hs₂ trivial
  have hs₄ := helse.holds hs₃ trivial
  have hevolves := (hthen.read.evolves hs₂).trans (helse.read.evolves hs₃)
  refine hclose.push hs₄ ⟨?_, nofun, nofun, ?_⟩ rfl
  · refine List.forall_mem_cons.2 ⟨hevolves.toExtends.hasExpr (hcond.read.made rfl rfl), ?_⟩
    exact List.forall_mem_cons.2 ⟨helse.read.extends.hasExpr (hthen.read.made rfl rfl),
      helse.read.made_toList rfl⟩
  · exact Tree.Fills.mono htype hevolves hs₂.builtins hs₂.hasRecords

/-- A loop over a condition, be it read or made up. -/
theorem sound_whileLoop (hs : s.tree.Sound) (hcond : s.tree.HasExpr cond)
    (htype : Condition s.tree cond)
    (hscope : Known KeepsSound (.scopeAfter "for" keyword scope) s log s₁)
    (hclose : Closes s₁ s') : (s'.add (.whileLoop cond scope frame) span).tree.Sound := by
  refine hclose.push (hscope.holds hs trivial) ⟨?_, nofun, nofun, ?_⟩ rfl
  · exact List.forall_mem_cons.2 ⟨hscope.read.extends.hasExpr hcond,
      List.forall_mem_singleton.2 (hscope.read.made rfl rfl)⟩
  · exact Tree.Fills.mono htype (hscope.read.evolves hs) hs.builtins hs.hasRecords

theorem sound_loopCounted {init step : ExprId} (hopen : Opens s frame s₁)
    (hinit : Known KeepsSound (.extend none {.semicolon, .openBrace} (some init)) s₁ log₁ s₂)
    (hcond : Known KeepsSound (.extend none {.semicolon} (some cond)) s₂.next log₂ s₃)
    (htype : Condition s₃.tree cond)
    (hstep : Known KeepsSound (.extend none {.openBrace} (some step)) s₃.next log₃ s₄)
    (hscope : Known KeepsSound (.scopeAfter "for" keyword scope) s₄ log₄ s₅)
    (hclose : Closes s₅ s') :
    KeepsSound (.loop keyword s'.newExpr) s
      (s'.add (.loop init cond step scope frame) span) := by
  intro hs _
  have hs₂ := hinit.holds (hopen.sound hs) nofun
  have hs₃ := hcond.holds hs₂ nofun
  have hs₄ := hstep.holds hs₃ nofun
  have hs₅ := hscope.holds hs₄ trivial
  have hevolves := (hstep.read.evolves hs₃).trans (hscope.read.evolves hs₄)
  refine hclose.push hs₅ ⟨?_, nofun, nofun, ?_⟩ rfl
  · refine List.forall_mem_cons.2 ⟨?_, List.forall_mem_cons.2 ⟨?_, List.forall_mem_cons.2
      ⟨?_, List.forall_mem_singleton.2 ?_⟩⟩⟩
    · exact (hcond.read.extends.trans hevolves.toExtends).hasExpr (hinit.read.made rfl rfl)
    · exact hevolves.toExtends.hasExpr (hcond.read.made rfl rfl)
    · exact hscope.read.extends.hasExpr (hstep.read.made rfl rfl)
    · exact hscope.read.made rfl rfl
  · exact Tree.Fills.mono htype hevolves hs₃.builtins hs₃.hasRecords

/-- The frame of a signature is nobody's when the parentheses are closed. -/
theorem sound_groupParameters {content : Option ExprId} {result : EntityId}
    (hopen : Opens s frame s₁)
    (hcontent : Known KeepsSound (.extend none {.closeParen} content) s₁ log s₂)
    (hresult : ResultType s₂.next result s₃) (hclose : Closes s₃ s') :
    KeepsSound (.group paren s'.newExpr) s (s'.add (.signature content result frame) span) := by
  intro hs _
  have hs₂ := hcontent.holds (hopen.sound hs) nofun
  have hs₃ := hresult.tree.symm ▸ hs₂
  have hcloses := hclose.evolves.toExtends
  refine (hclose.sound hs₃).pushExpr ⟨?_, nofun, ?_, ?_⟩
  · intro c hc
    exact (hresult.trail.extends.trans hcloses).hasExpr (hcontent.read.made_toList rfl c hc)
  · rintro _ ⟨⟩
    exact hopen.unowned hclose hs (Within.trans hcontent.read.leaves hresult.leaves)
  · exact (hresult.isType hs₂.builtins).mono hcloses

theorem sound_function {name : Token} {header body : ExprId} {params? : Option ExprId}
    {params : List EntityId} {result : EntityId} {canonical : String} {span' : Span} {tree : Tree}
    (hexpr : s.tree.expr? header = some ⟨.signature params? result frame, span⟩)
    (hparams : s.tree.variables? frame = some params)
    (hnamed : s₁ = (s.addEntity ⟨canonical, .function params result⟩).bind name.text s.newEntity)
    (henter : Enters (s₁.bindNew canonical s.newEntity) frame s₂)
    (hbody : Known KeepsSound
      (.scopeBody ((s₂.inside (.function s.newEntity)).past {.newline}).cursor.current frame body)
      ((s₂.inside (.function s.newEntity)).past {.newline}).next log s₃)
    (hclose : Closes s₃.outside s₄)
    (hbind : s₄.tree.bindBody s₄.tree.currentFrame s.newEntity body = .ok tree) :
    KeepsSound (.function name header ⟨tree.exprs.size⟩) s
      (State.add { s₄ with tree } (.function name.text s.newEntity header body) span') := by
  intro hs hfits
  obtain ⟨hs₂, hevolves, hentity⟩ := sound_enters hs hexpr hparams hnamed henter
  have hs₃ := hbody.holds hs₂ trivial
  have hs₄ := (hclose.sound hs₃).bindBody hbind
  have htail := hclose.evolves.toExtends.trans (Step.bindBody hbind).extends
  have hafter := hbody.read.extends.trans htail
  refine hs₄.pushExpr ⟨?_, ?_, nofun, trivial⟩
  · refine List.forall_mem_cons.2 ⟨?_, List.forall_mem_singleton.2 ?_⟩
    · exact (hevolves.toExtends.trans hafter).hasExpr hfits
    · exact htail.hasExpr (hbody.read.made rfl rfl)
  · rintro _ ⟨⟩
    exact hafter.hasEntity hentity

/-- The value of a variable still fills its type when the definitions behind it have been read. -/
theorem sound_declaration {name : Token} {op : DefOp} {init next : Option ExprId}
    {type : EntityId}
    (hnext : Known KeepsSound (.nextDefinition closing next) (s.install (.var name.text type)) log
      s') :
    KeepsSound (.declaration name op init type closing s'.newExpr) s
      (s'.add (.definition name.text op init s.newEntity next) span) := by
  intro hs hfits
  obtain ⟨hs₁, hevolves, hentity⟩ := sound_named (e := .var name.text type) hs
    (And.intro hfits.1.hasEntity hfits.1) rfl
  have hs' := hnext.holds hs₁ trivial
  have hall := hevolves.trans (hnext.read.evolves hs₁)
  refine hs'.pushExpr ⟨?_, ?_, nofun, ?_⟩
  · intro c hc
    rcases List.mem_append.1 hc with hc | hc
    · exact hall.toExtends.hasExpr (hfits.2 c (Option.mem_toList.1 hc)).1
    · exact hnext.read.made_toList rfl c hc
  · rintro _ ⟨⟩
    exact hnext.read.extends.hasEntity (Tree.hasEntity_iff.2 ⟨_, hentity⟩)
  · cases init with
    | none => trivial
    | some init =>
      refine ⟨_, type, 0, 0, hnext.read.extends.entity hentity, rfl, ?_⟩
      exact (hfits.2 init rfl).2.mono hall hs.builtins hs.hasRecords

theorem sound_record {body : List ExprId} {form : RecordForm}
    (hopen : Opens (s.past {.newline}).next frame s₁)
    (hbody : Known KeepsSound (.sequence #[] {.closeBrace} body) (s₁.inside .record) log s₂)
    (hclose : Closes s₂.outside s') :
    KeepsSound (.record keyword s'.newExpr) s (s'.add (.record form body frame) span) := by
  intro hs _
  have hs₂ := hbody.holds (hopen.sound hs) hasExpr_empty
  refine (hclose.sound hs₂).pushExpr ⟨?_, nofun, ?_, trivial⟩
  · intro c hc
    exact hclose.evolves.toExtends.hasExpr (hbody.read.hasItems hasExpr_empty c hc)
  · rintro _ ⟨⟩
    exact hopen.unowned hclose hs hbody.read.leaves

end Productions

/-! ## Readings -/

/-- Readings keep the tree sound. -/
theorem Reads.sound (h : Reads φ s log s') (hs : s.tree.Sound) (hfits : φ.Fits s.tree) :
    s'.tree.Sound := by
  induction h with
  | stepClosing | stepNewline | extendClosing | extendBrace | sequenceClosing | typeName
  | argumentsNil | elseNone | nextNone | initialNone => exact hs
  | stepPrefix _ _ _ ih | scopeAfter _ _ ih | elseSome _ _ ih | nameDefinition _ _ ih
  | nameAlone _ _ ih => exact ih hs trivial
  | nextSome _ _ _ _ ih | initialSome _ _ ih | initialConstant _ ih => exact ih hs nofun
  | stepPostfix _ _ _ ih => exact ih hs (hfits _ rfl)
  | stepOperator _ _ _ _ ih | stepOperand _ _ _ _ _ _ _ ih => exact ih hs hfits
  | operand hbegins _ ih => exact ih hs (hbegins.fits hfits)
  | @extendStep left _ next _ _ _ _ _ _ _ _ _ hstep _ ih ih' =>
    refine ih' (ih hs hfits) ?_
    intro l hl
    cases next with
    | none => exact hstep.extends.hasExpr (hfits l hl)
    | some next => exact hstep.hasExpr hfits hl
  | sequenceItem _ _ hitem _ ih ih' =>
    refine ih' (ih hs nofun) (hasExpr_item (fun b hb => hitem.extends.hasExpr (hfits b hb)) ?_)
    rintro _ rfl
    exact hitem.made rfl rfl
  | literal hnode => exact hs.pushExpr hnode.fits
  | nameUse hfind =>
    refine hs.pushExpr ⟨nofun, ?_, nofun, trivial⟩
    rintro _ ⟨⟩
    exact hs.find? hfind
  | prefixOperation _ hstep htype _ ih =>
    refine (ih hs nofun).pushExpr ⟨?_, nofun, nofun, htype.typed _ _⟩
    exact List.forall_mem_singleton.2 (hstep.made rfl rfl)
  | postfixOperation _ htype _ =>
    exact hs.pushExpr ⟨List.forall_mem_singleton.2 hfits, nofun, nofun, htype.typed _ _⟩
  | binaryOperation _ hright htype hl hr ih =>
    have hs' := ih hs nofun
    refine hs'.pushExpr ⟨?_, nofun, nofun, htype.typed hs'.builtins⟩
    exact List.forall_mem_cons.2 ⟨Tree.hasExpr_iff.2 ⟨_, hl⟩,
      List.forall_mem_singleton.2 (Tree.hasExpr_iff.2 ⟨_, hr⟩)⟩
  | argumentsCons hvalue _ _ _ hseparates hrest hexpr ih ih' =>
    exact sound_argumentsCons ⟨hvalue, ih⟩ hseparates ⟨hrest, ih'⟩ hexpr hs hfits
  | call _ hentity hfunction hargs hexpr ih =>
    exact sound_call hentity hfunction ⟨hargs, ih⟩ hexpr hs hfits
  | structLiteral hstruct hmembers hargs _ ih =>
    have hs' := ih hs (variables?_hasEntity hs hmembers)
    obtain ⟨-, e, hentity, hframe⟩ := namedStruct?_ok hstruct
    refine hs'.pushExpr ⟨hargs.made_toList rfl, nofun, nofun, ?_⟩
    exact ⟨e, hargs.extends.entity hentity, isType_of_structFrame? hframe⟩
  | scopeBody hbody ih =>
    exact (ih hs hasExpr_empty).pushExpr ⟨hbody.hasItems hasExpr_empty, nofun, nofun, trivial⟩
  | scope hopen _ hclose ih => exact hclose.sound (ih (hopen.sound hs) trivial)
  | branch hopen hcond htype hthen helse hclose ih ih' ih'' =>
    exact sound_branch hopen ⟨hcond, ih⟩ htype ⟨hthen, ih'⟩ ⟨helse, ih''⟩ hclose hs hfits
  | @loopEndless keyword _ _ _ _ _ _ s₂ _ _ hopen _ _ htype hscope hclose ih ih' =>
    have hs₂ : (s₂.add (.bool true) keyword.span).tree.Sound :=
      (ih (hopen.sound hs) nofun).pushExpr ⟨nofun, nofun, nofun, trivial⟩
    exact sound_whileLoop hs₂ (Made.add .refl).2 htype ⟨hscope, ih'⟩ hclose
  | loopWhile hopen hfirst _ htype hscope hclose ih ih' =>
    exact sound_whileLoop (ih (hopen.sound hs) nofun) (hfirst.made rfl rfl) htype ⟨hscope, ih'⟩
      hclose
  | loopCounted hopen hinit _ _ hcond htype _ hstep hscope hclose ih₁ ih₂ ih₃ ih₄ =>
    exact sound_loopCounted hopen ⟨hinit, ih₁⟩ ⟨hcond, ih₂⟩ htype ⟨hstep, ih₃⟩ ⟨hscope, ih₄⟩ hclose
      hs hfits
  | returns _ hentity hvalue _ _ ih =>
    refine (ih hs nofun).pushExpr ⟨hvalue.made_toList rfl, ?_, nofun, trivial⟩
    rintro _ ⟨⟩
    exact hvalue.extends.hasEntity (Tree.hasEntity_iff.2 ⟨_, hentity⟩)
  | groupParameters hopen hcontent _ _ hresult hclose ih =>
    exact sound_groupParameters hopen ⟨hcontent, ih⟩ hresult hclose hs hfits
  | groupExpression hopen hcontent _ _ _ hclose ih =>
    have hs₂ := ih (hopen.sound hs) nofun
    refine hclose.push hs₂ ⟨?_, nofun, nofun, trivial⟩ rfl
    exact List.forall_mem_singleton.2 (hcontent.made rfl rfl)
  | function hexpr hparams _ hnamed henter _ hbody hclose hbind ih =>
    exact sound_function hexpr hparams hnamed henter ⟨hbody, ih⟩ hclose hbind hs hfits
  | declaration hnext ih => exact sound_declaration ⟨hnext, ih⟩ hs hfits
  | definitionFunction _ _ htype hinit _ _ _ _ ih ih' =>
    exact ih' (ih (htype.tree.symm ▸ hs) trivial) (hinit.made rfl rfl)
  | definitionRecord _ _ htype hinit _ _ _ _ ih ih' =>
    exact ih' (ih (htype.tree.symm ▸ hs) trivial) (hinit.made rfl rfl)
  | definitionVariable _ _ htype hinit _ hdefined _ _ ih ih' =>
    have hs₂ := ih (htype.tree.symm ▸ hs) trivial
    refine ih' hs₂ (hdefined.fits hs₂ ?_ fun i hi => hinit.made rfl hi)
    rintro d rfl
    exact htype.isType.mono hinit.extends
  | record _ hopen hbody _ hclose ih => exact sound_record hopen ⟨hbody, ih⟩ hclose hs hfits
  | @typedef name op body form members frame span within s hexpr =>
    obtain ⟨hs₁, hevolves, hentity⟩ := sound_named hs
      (recordEntity_kindSound hs name.text hexpr) rfl
    refine hs₁.pushExpr ⟨?_, ?_, nofun, trivial⟩
    · exact List.forall_mem_singleton.2 (hevolves.toExtends.hasExpr hfits)
    · rintro _ ⟨⟩
      exact Tree.hasEntity_iff.2 ⟨_, hentity⟩
  | member _ _ _ _ hframe hfind _ =>
    refine hs.pushExpr ⟨List.forall_mem_singleton.2 hfits, ?_, nofun, trivial⟩
    rintro _ ⟨⟩
    exact hs.names hframe _ (Frame.mem_entities.2 (Assoc.mem_values_of_lookup hfind))

/-- The tree of a list of tokens that is accepted is sound. -/
theorem sound_of_parse {tokens : TokenList} {tree : Tree} (h : parse tokens = .ok tree) :
    tree.Sound := by
  obtain ⟨body, log, s, hread, rfl⟩ := parse_reads h
  have hs := hread.sound Tree.sound_withBuiltins hasExpr_empty
  let scope : Expr :=
    ⟨.scope body Tree.mainFrame, (Cursor.start tokens).current.span.merge s.cursor.previousSpan⟩
  have hscope : (s.tree.pushExpr scope).2.Sound :=
    hs.pushExpr ⟨hread.hasItems hasExpr_empty, nofun, nofun, trivial⟩
  exact hscope.setMainScope (some s.newExpr)

/-- Every node of an accepted source satisfies its typing rule, asked in the final tree, and
the type of a variable is a type. -/
theorem accepted_nodes_typed {source : String} {tree : Tree} (h : parseSource source = .ok tree) :
    (∀ id e, tree.expr? id = some e → e.node.Typed tree) ∧
      ∀ id e type start stop, tree.entity? id = some e → e.kind = .var type start stop →
        tree.IsType type := by
  obtain ⟨tokens, _, hparse⟩ := parseSource_ok h
  have hs := sound_of_parse hparse
  refine ⟨fun id e he => (hs.node he).typed, ?_⟩
  intro id e type start stop he hkind
  have hsound := hs.kind he
  rw [hkind] at hsound
  exact hsound.2

/-- A loop with operations of all three families, in a source that is accepted. -/
theorem accepted_nodes_typed_loop :
    ∃ tree, parseSource "n := 1\nfor n < 3 { n = n + -n }\n" = .ok tree ∧
      (∀ id e, tree.expr? id = some e → e.node.Typed tree) ∧
      ∀ id e type start stop, tree.entity? id = some e → e.kind = .var type start stop →
        tree.IsType type := by
  have haccepted : (parseSource "n := 1\nfor n < 3 { n = n + -n }\n").isOk = true := by
    decide +kernel
  cases hparse : parseSource "n := 1\nfor n < 3 { n = n + -n }\n" with
  | error fault =>
    rw [hparse] at haccepted
    cases haccepted
  | ok tree => exact ⟨tree, rfl, accepted_nodes_typed hparse⟩

end OnePass.Grammar

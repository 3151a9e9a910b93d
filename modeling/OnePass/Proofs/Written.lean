import OnePass.Proofs.Names
import OnePass.Proofs.Building
import OnePass.Proofs.Progress

/-!
# Definitions as written

Every definition of a tree was written as one: there is a reading of a name, a symbol and what
follows them that made it (`Written`), in which the declared type and the value can be looked
up. Each definition defines an entity of its own, and each variable has a definition, so a
variable has exactly one (`variable_defined_once`).

`Accounts` says this of what a reading makes, apart from the node that a production is about to
hand to the definition around it (`Phrase.pending?`). It composes, and `Reads.accounts` goes
through the rules. Of a whole source it says that every definition was written as one
(`written_of_parse`).
-/

namespace OnePass

namespace Tree

variable {t t' : Tree}

/-- The name and the entity that an expression defines. -/
def defined? (t : Tree) (id : ExprId) : Option (String × EntityId) :=
  (t.expr? id).bind (·.node.defined?)

/-- The expression is the definition of a variable or constant. -/
def Defines (t : Tree) (id : ExprId) (entity : EntityId) : Prop :=
  ∃ name op init next span, t.expr? id = some ⟨.definition name op init entity next, span⟩

/-- The expression is such a definition, with this value. -/
def HasValue (t : Tree) (id value : ExprId) : Prop :=
  ∃ name op entity next span, t.expr? id = some ⟨.definition name op (some value) entity next, span⟩

theorem defined?_eq_some {id : ExprId} {d : String × EntityId} :
    t.defined? id = some d ↔ ∃ e, t.expr? id = some e ∧ e.node.defined? = some d :=
  Option.bind_eq_some_iff

theorem hasExpr_of_defined? {id : ExprId} {d : String × EntityId} (h : t.defined? id = some d) :
    t.HasExpr id := by
  obtain ⟨e, he, _⟩ := defined?_eq_some.1 h
  exact hasExpr_iff.2 ⟨e, he⟩

theorem Extends.defined?_eq (h : t.Extends t') {id : ExprId} (hid : t.HasExpr id) :
    t'.defined? id = t.defined? id :=
  congrArg (Option.bind · _) (h.expr_eq hid)

theorem defined?_congr (h : t'.exprs = t.exprs) (id : ExprId) : t'.defined? id = t.defined? id := by
  unfold defined? expr?
  rw [h]

theorem defined?_pushExpr (t : Tree) (e : Expr) (id : ExprId) :
    (t.pushExpr e).2.defined? id =
      if id.index = t.exprs.size then e.node.defined? else t.defined? id := by
  unfold defined?
  rw [expr?_pushExpr]
  split <;> rfl

theorem Defines.mono {id : ExprId} {entity : EntityId} (h : t.Defines id entity)
    (hgrows : t.Extends t') : t'.Defines id entity := by
  obtain ⟨name, op, init, next, span, he⟩ := h
  exact ⟨name, op, init, next, span, hgrows.expr he⟩

theorem HasValue.child {id value : ExprId} (h : t.HasValue id value) :
    ∃ e, t.expr? id = some e ∧ value ∈ e.node.children := by
  obtain ⟨name, op, entity, next, span, he⟩ := h
  exact ⟨_, he, List.mem_append_left _ List.mem_cons_self⟩

theorem HasValue.mono {id value : ExprId} (h : t.HasValue id value) (hgrows : t.Extends t') :
    t'.HasValue id value := by
  obtain ⟨name, op, entity, next, span, he⟩ := h
  exact ⟨name, op, entity, next, span, hgrows.expr he⟩

theorem defines_of_isDefinition {id : ExprId} {e : Expr} {name : String} {entity : EntityId}
    (he : t.expr? id = some e) (hnode : Grammar.isDefinition e.node = true)
    (hdefined : e.node.defined? = some (name, entity)) : t.Defines id entity := by
  obtain ⟨node, span⟩ := e
  cases node with
  | definition =>
    cases hdefined
    exact ⟨_, _, _, _, _, he⟩
  | _ => cases hnode

theorem Defines.defined? {id : ExprId} {entity : EntityId} (h : t.Defines id entity) :
    ∃ name, t.defined? id = some (name, entity) := by
  obtain ⟨name, op, init, next, span, he⟩ := h
  exact ⟨name, defined?_eq_some.2 ⟨_, he, rfl⟩⟩

end Tree

namespace Grammar

variable {s s₁ s₂ s' : State} {t t' : Tree} {frame : FrameId} {log log' : List Binding}
  {φ : Phrase} {id : ExprId} {pending : Option ExprId} {tokens : TokenList}

/-! ## What was written -/

/-- The expression was read as a definition among the tokens, in a tree from which `t` has
grown. -/
inductive Written (tokens : TokenList) (t : Tree) (id : ExprId) : Prop where
  | read {name symbol : Token} {closing : TokenSet} {s s' : State} {log : List Binding}
      (hread : Reads (.definition name symbol closing id) s log s') (hs : s.tree.Sound)
      (htokens : s.cursor.tokens = tokens) (hevolves : s'.tree.Evolves t) : Written tokens t id

theorem Written.mono (h : Written tokens t id) (hevolves : t.Evolves t') :
    Written tokens t' id := by
  cases h with
  | read hread hs htokens hthen => exact .read hread hs htokens (hthen.trans hevolves)

/-! ## Accounts -/

/-- The definition that the production has made of a value that was read before, for the
definition around it. -/
def Phrase.pending? : Phrase → Option ExprId
  | function _ _ answer | declaration _ _ _ _ _ answer | typedef _ _ _ answer => some answer
  | _ => none

/-- What was made between two states: each definition was written as one, but for the pending
one, and defines an entity that was made too, each another; each variable has a definition, and
is bound under its own name. -/
structure Accounts (pending : Option ExprId) (s : State) (log : List Binding) (s' : State) :
    Prop where
  evolves : s.tree.Evolves s'.tree
  tokens : s'.cursor.tokens = s.cursor.tokens
  written : ∀ {id d}, s'.tree.defined? id = some d →
    s.tree.HasExpr id ∨ pending = some id ∨ Written s'.cursor.tokens s'.tree id
  fresh : ∀ {id name entity}, s'.tree.defined? id = some (name, entity) → s.tree.HasExpr id ∨
    ¬s.tree.HasEntity entity ∧ s'.tree.HasEntity entity
  once : ∀ {i j name name' entity}, s'.tree.defined? i = some (name, entity) →
    s'.tree.defined? j = some (name', entity) → ¬s.tree.HasExpr i → ¬s.tree.HasExpr j → i = j
  defining : ∀ {v x}, s'.tree.entity? v = some x → x.isVar = true → s.tree.HasEntity v ∨
    ∃ d, ¬s.tree.HasExpr d ∧ s'.tree.Defines d v
  bound : ∀ b ∈ log, ∃ x, s'.tree.entity? b.entity = some x ∧ (x.isVar = true → x.name = b.name)

/-- An entity was made and given the names of the log, and no expression. -/
structure Introduces (x : Entity) (s : State) (log : List Binding) (s' : State) : Prop where
  evolves : s.tree.Evolves s'.tree
  tokens : s'.cursor.tokens = s.cursor.tokens
  exprs : s'.tree.exprs = s.tree.exprs
  entities : s'.tree.entities = s.tree.entities.push x
  names : ∀ b ∈ log, b.entity = s.newEntity ∧ (x.isVar = true → x.name = b.name)

namespace Introduces

variable {x : Entity}

theorem entity? (h : Introduces x s log s') : s'.tree.entity? s.newEntity = some x := by
  unfold Tree.entity? State.newEntity
  rw [h.entities, Array.getElem?_push_size]

theorem hasExpr (h : Introduces x s log s') (hid : s'.tree.HasExpr id) : s.tree.HasExpr id := by
  unfold Tree.HasExpr at hid ⊢
  rwa [h.exprs] at hid

theorem eq_or_old (h : Introduces x s log s') {v : EntityId} (hv : s'.tree.HasEntity v) :
    v = s.newEntity ∨ s.tree.HasEntity v := by
  unfold Tree.HasEntity at hv ⊢
  rw [h.entities, Array.size_push] at hv
  exact (Nat.lt_succ_iff_lt_or_eq.1 hv).symm.imp_left (congrArg EntityId.mk)

end Introduces

namespace Accounts

/-- Nothing was made. -/
theorem still (hevolves : s.tree.Evolves s'.tree) (htokens : s'.cursor.tokens = s.cursor.tokens)
    (hexprs : s'.tree.exprs = s.tree.exprs) (hentities : s'.tree.entities = s.tree.entities) :
    Accounts none s [] s' := by
  have hold : ∀ {id d}, s'.tree.defined? id = some d → s.tree.HasExpr id := fun h =>
    Tree.hasExpr_of_defined? ((Tree.defined?_congr hexprs _).symm.trans h)
  refine ⟨hevolves, htokens, fun h => .inl (hold h), fun h => .inl (hold h), ?_, ?_, nofun⟩
  · exact fun h _ hi _ => absurd (hold h) hi
  · intro v x hx _
    unfold Tree.entity? at hx
    rw [hentities] at hx
    exact .inl (Tree.hasEntity_iff.2 ⟨x, hx⟩)

theorem refl : Accounts none s [] s := still .refl rfl rfl rfl

theorem trans (h : Accounts none s log s₁) (h' : Accounts pending s₁ log' s') :
    Accounts pending s (log ++ log') s' := by
  have hgrows := h'.evolves.toExtends
  have hold : ∀ {id}, ¬s.tree.HasExpr id → ¬s₁.tree.HasExpr id ∨
      s₁.tree.HasExpr id ∧ s'.tree.defined? id = s₁.tree.defined? id := by
    intro id _
    by_cases hid : s₁.tree.HasExpr id
    · exact .inr ⟨hid, hgrows.defined?_eq hid⟩
    · exact .inl hid
  refine ⟨h.evolves.trans h'.evolves, h'.tokens.trans h.tokens, ?_, ?_, ?_, ?_, ?_⟩
  · intro id d hd
    rcases h'.written hd with hid | hlater
    · rw [hgrows.defined?_eq hid] at hd
      rcases h.written hd with hbefore | hpending | hwritten
      · exact .inl hbefore
      · cases hpending
      · exact .inr (.inr (h'.tokens ▸ hwritten.mono h'.evolves))
    · exact .inr hlater
  · intro id name entity hd
    rcases h'.fresh hd with hid | ⟨hnew, hthere⟩
    · rw [hgrows.defined?_eq hid] at hd
      exact (h.fresh hd).imp_right fun hentity => ⟨hentity.1, hgrows.hasEntity hentity.2⟩
    · exact .inr ⟨fun hbefore => hnew (h.evolves.toExtends.hasEntity hbefore), hthere⟩
  · -- an entity is defined in one of the two parts only
    have hapart : ∀ {i j name name' entity}, s₁.tree.defined? i = some (name, entity) →
        s'.tree.defined? j = some (name', entity) → ¬s.tree.HasExpr i → s₁.tree.HasExpr j := by
      intro i j name name' entity hi hj hinew
      rcases h'.fresh hj with hjold | ⟨hentity, _⟩
      · exact hjold
      · exact absurd ((h.fresh hi).resolve_left hinew).2 hentity
    intro i j name name' entity hi hj hinew hjnew
    rcases hold hinew with hi₁ | ⟨hi₁, hieq⟩ <;> rcases hold hjnew with hj₁ | ⟨hj₁, hjeq⟩
    · exact h'.once hi hj hi₁ hj₁
    · exact absurd (hapart (hjeq ▸ hj) hi hjnew) hi₁
    · exact absurd (hapart (hieq ▸ hi) hj hinew) hj₁
    · exact h.once (hieq ▸ hi) (hjeq ▸ hj) hinew hjnew
  · intro v x hx hvar
    rcases h'.defining hx hvar with hv | ⟨d, hnew, hd⟩
    · rw [hgrows.entity_eq hv] at hx
      exact (h.defining hx hvar).imp_right fun ⟨d, hnew, hd⟩ => ⟨d, hnew, hd.mono hgrows⟩
    · exact .inr ⟨d, fun hold => hnew (h.evolves.toExtends.hasExpr hold), hd⟩
  · intro b hb
    rcases List.mem_append.1 hb with hb | hb
    · obtain ⟨x, hx, hname⟩ := h.bound b hb
      exact ⟨x, hgrows.entity hx, hname⟩
    · exact h'.bound b hb

/-- Nothing was made before. -/
theorem after (h : Accounts none s [] s₁) (h' : Accounts pending s₁ log s') :
    Accounts pending s log s' := h.trans h'

/-- Nothing was made after. -/
theorem snoc (h : Accounts none s log s₁) (h' : Accounts none s₁ [] s') :
    Accounts none s log s' := List.append_nil log ▸ h.trans h'

theorem next : Accounts none s [] s.next :=
  still .refl (Step.forward .next).tokens rfl rfl

theorem past {wanted : TokenSet} : Accounts none s [] (s.past wanted) :=
  still .refl (Step.forward .past).tokens rfl rfl

theorem opens (h : Opens s frame s') (hs : s.tree.Sound) : Accounts none s [] s' := by
  have hevolves := h.evolves hs
  obtain ⟨rfl, hsize, rfl⟩ := h.eq
  exact still hevolves rfl rfl rfl

theorem closes (h : Closes s s') : Accounts none s [] s' := by
  have hevolves := h.evolves
  obtain ⟨_, rfl⟩ := h.eq
  exact still hevolves rfl rfl rfl

/-- What was made in a frame that was opened before and is closed now. -/
theorem framed (hs : s.tree.Sound) (hopen : Opens s frame s₁) (h : Accounts none s₁ log s₂)
    (hclose : Closes s₂ s') : Accounts none s log s' :=
  .after (.opens hopen hs) (h.snoc (.closes hclose))

theorem inside {c : Construct} : Accounts none s [] (s.inside c) := still .refl rfl rfl rfl

theorem outside : Accounts none s [] s.outside := still .refl rfl rfl rfl

theorem bindBody {function : EntityId} {body : ExprId} {tree : Tree} (hs : s.tree.Sound)
    (hbind : s.tree.bindBody s.tree.currentFrame function body = .ok tree) :
    Accounts none s [] { s with tree := tree } := by
  obtain rfl := Tree.bindBody_ok hbind
  exact still (Tree.modifyFrame_evolves (fun _ => rfl) (fun _ => rfl) hs.current) rfl rfl rfl

/-- One more expression, which defines nothing. -/
theorem add {node : Node} {span : Span} (h : Accounts none s log s₁)
    (hnode : node.defined? = none) : Accounts none s log (s₁.add node span) := by
  have hgrows := s₁.tree.pushExpr_evolves ⟨node, span⟩
  have hdefined : ∀ {id d}, (s₁.add node span).tree.defined? id = some d →
      s₁.tree.defined? id = some d := by
    intro id d hd
    have hd' := (s₁.tree.defined?_pushExpr ⟨node, span⟩ id).symm.trans hd
    split at hd'
    · exact absurd (hnode.symm.trans hd') nofun
    · exact hd'
  refine ⟨h.evolves.trans hgrows, h.tokens, ?_, fun hd => h.fresh (hdefined hd),
    fun hi hj => h.once (hdefined hi) (hdefined hj), ?_, h.bound⟩
  · intro id d hd
    exact (h.written (hdefined hd)).imp_right (Or.imp_right fun hwritten => hwritten.mono hgrows)
  · intro v x hx hvar
    exact (h.defining hx hvar).imp_right
      fun ⟨d, hnew, hd⟩ => ⟨d, hnew, hd.mono hgrows.toExtends⟩

/-- A definition: its entity and names for that, whatever is made then, and the node. -/
theorem define {x : Entity} {node : Node} {span : Span} {name : String}
    (hnew : Introduces x s log s₁) (h : Accounts none s₁ log' s')
    (hnode : node.defined? = some (name, s.newEntity))
    (hvar : x.isVar = true → isDefinition node = true) :
    Accounts (some s'.newExpr) s (log ++ log') (s'.add node span) := by
  have hgrows := h.evolves.toExtends
  have hpush := s'.tree.pushExpr_evolves ⟨node, span⟩
  have hthere : s₁.tree.HasEntity s.newEntity := Tree.hasEntity_iff.2 ⟨x, hnew.entity?⟩
  -- a definition is the new one, or it was made while `log'` was
  have hcases : ∀ {id d}, (s'.add node span).tree.defined? id = some d →
      id = s'.newExpr ∧ d = (name, s.newEntity) ∨ s'.tree.defined? id = some d := by
    intro id d hd
    have hd' := (s'.tree.defined?_pushExpr ⟨node, span⟩ id).symm.trans hd
    split at hd'
    · rename_i hid
      exact .inl ⟨congrArg ExprId.mk hid, Option.some.inj (hd'.symm.trans hnode)⟩
    · exact .inr hd'
  have hother : ∀ {id name'}, s'.tree.defined? id = some (name', s.newEntity) →
      s.tree.HasExpr id := fun hd =>
    hnew.hasExpr ((h.fresh hd).resolve_right fun hentity => hentity.1 hthere)
  refine ⟨(hnew.evolves.trans h.evolves).trans hpush, h.tokens.trans hnew.tokens, ?_, ?_, ?_, ?_,
    ?_⟩
  · intro id d hd
    rcases hcases hd with ⟨rfl, _⟩ | hd
    · exact .inr (.inl rfl)
    · rcases h.written hd with hid | hpending | hwritten
      · exact .inl (hnew.hasExpr hid)
      · cases hpending
      · exact .inr (.inr (hwritten.mono hpush))
  · intro id name' entity hd
    rcases hcases hd with ⟨rfl, heq⟩ | hd
    · cases heq
      exact .inr ⟨Nat.lt_irrefl _, hgrows.hasEntity hthere⟩
    · refine (h.fresh hd).imp hnew.hasExpr fun hentity => ⟨fun hold => ?_, hentity.2⟩
      exact hentity.1 (hnew.evolves.toExtends.hasEntity hold)
  · intro i j name' name'' entity hi hj hinew hjnew
    rcases hcases hi with ⟨rfl, hieq⟩ | hi <;> rcases hcases hj with ⟨rfl, hjeq⟩ | hj
    · rfl
    · cases hieq
      exact absurd (hother hj) hjnew
    · cases hjeq
      exact absurd (hother hi) hinew
    · exact h.once hi hj (hinew ∘ hnew.hasExpr) (hjnew ∘ hnew.hasExpr)
  · intro v y hy hyvar
    rcases h.defining hy hyvar with hv | ⟨d, hdnew, hd⟩
    · refine (hnew.eq_or_old hv).symm.imp id ?_
      rintro rfl
      obtain rfl := Option.some.inj ((hgrows.entity hnew.entity?).symm.trans hy)
      exact ⟨s'.newExpr, Nat.not_lt.2 (hnew.exprs ▸ hgrows.exprs_le),
        Tree.defines_of_isDefinition (expr?_newExpr s' node span) (hvar hyvar) hnode⟩
    · refine .inr ⟨d, fun hold => hdnew ?_, hd.mono hpush.toExtends⟩
      exact hnew.evolves.toExtends.hasExpr hold
  · intro b hb
    rcases List.mem_append.1 hb with hb | hb
    · obtain ⟨hentity, hname⟩ := hnew.names b hb
      exact ⟨x, hentity ▸ hgrows.entity hnew.entity?, hname⟩
    · exact h.bound b hb

/-- The pending definition was written as one. -/
theorem settle (h : Accounts (some id) s log s')
    (hwritten : Written s'.cursor.tokens s'.tree id) : Accounts none s log s' := by
  refine ⟨h.evolves, h.tokens, ?_, h.fresh, h.once, h.defining, h.bound⟩
  intro i d hd
  rcases h.written hd with hold | hpending | hi
  · exact .inl hold
  · cases hpending
    exact .inr (.inr hwritten)
  · exact .inr (.inr hi)

end Accounts

theorem Begins.pending? {token : Token} {closing : TokenSet} {left : Option ExprId}
    (h : Begins token closing id left φ) : φ.pending? = none := by
  cases h <;> rfl

theorem DeclaredType.accounts {op : DefOp} {type : Option EntityId}
    (h : DeclaredType op s type s') : Accounts none s [] s' := by
  cases h with
  | constant | inferred => exact .refl
  | named => exact .next

theorem ResultType.accounts {type : EntityId} (h : ResultType s type s') :
    Accounts none s [] s' := by
  cases h with
  | nothing => exact .refl
  | named => exact .after .next .next

theorem Separates.accounts {rest : List EntityId} {closing : TokenSet}
    (h : Separates rest closing s s') : Accounts none s [] s' := by
  cases h with
  | last => exact .past
  | comma => exact .after .past .next
  | surplus => exact .after .past (.after .next .past)

theorem recordEntity_isVar (name : String) (form : RecordForm) (frame : FrameId) :
    (recordEntity name form frame).isVar = false := by
  cases form <;> rfl

/-- Names for a function and an open frame make no expression and no entity. -/
theorem Enters.same {name : String} {entity : EntityId}
    (h : Enters (s.bindNew name entity) frame s') : s'.cursor = s.cursor ∧
      s'.tree.exprs = s.tree.exprs ∧ s'.tree.entities = s.tree.entities := by
  obtain ⟨_, hsize, rfl⟩ := h.eq
  unfold State.bindNew
  split <;> exact ⟨rfl, rfl, rfl⟩

theorem entity_newBinding {name : String} {entity : EntityId} :
    ∀ b ∈ newBinding s name entity, b.entity = entity := by
  intro b hb
  unfold newBinding at hb
  split at hb
  · obtain rfl := List.mem_singleton.1 hb
    rfl
  · cases hb

/-! ## Every phrase -/

/-- A function accounts for itself: it has its names before the body is read. -/
theorem accounts_function {s₃ s₄ : State} {name : Token} {header body : ExprId}
    {params? : Option ExprId} {params : List EntityId} {result : EntityId} {canonical : String}
    {span span' : Span} {within : Nat} {tree : Tree} (hs : s.tree.Sound)
    (hexpr : s.tree.expr? header = some ⟨.signature params? result frame, span⟩)
    (hparams : s.tree.variables? frame = some params)
    (hnamed : s₁ = (s.addEntity ⟨canonical, .function params result⟩).bind name.text s.newEntity)
    (henter : Enters (s₁.bindNew canonical s.newEntity) frame s₂)
    (hbody : Reads (.scopeBody ((s₂.inside (.function s.newEntity)).past {.newline}).cursor.current
      frame body) ((s₂.inside (.function s.newEntity)).past {.newline}).next log s₃)
    (ih : s₂.tree.Sound →
      Accounts none ((s₂.inside (.function s.newEntity)).past {.newline}).next log s₃)
    (hclose : Closes s₃.outside s₄)
    (hbind : s₄.tree.bindBody s₄.tree.currentFrame s.newEntity body = .ok tree) :
    Accounts (some ⟨tree.exprs.size⟩) s
      (⟨s.tree.currentFrame, name.text, s.newEntity, within⟩ ::
        (newBinding s₁ canonical s.newEntity ++ log))
      (State.add { s₄ with tree } (.function name.text s.newEntity header body) span') := by
  obtain ⟨hs₂, hevolves, -⟩ := sound_enters hs hexpr hparams hnamed henter
  have hs₄ := hclose.sound (s := s₃.outside) (hbody.sound hs₂ True.intro)
  have hscope := Accounts.after .inside (.after .past (.after .next (ih hs₂)))
  have hclosed := (hscope.snoc .outside).snoc (.closes hclose)
  obtain ⟨hcursor, hexprs, hentities⟩ := henter.same
  subst hnamed
  exact Accounts.define ⟨hevolves, congrArg Cursor.tokens hcursor, hexprs, hentities,
      List.forall_mem_cons.2 ⟨⟨rfl, nofun⟩, fun b hb => ⟨entity_newBinding b hb, nofun⟩⟩⟩
    (hclosed.snoc (.bindBody hs₄ hbind)) rfl nofun

/-- What a definition hands over was written as one. -/
theorem accounts_definition {name symbol : Token} {closing : TokenSet} {op : DefOp}
    {type : Option EntityId} (hs : s.tree.Sound) (htype : DeclaredType op s type s₁)
    (hinit : Accounts none s₁ log s₂) (hmade : Accounts (some id) s₂ log' s')
    (hread : Reads (.definition name symbol closing id) s (log ++ log') s') :
    Accounts none s (log ++ log') s' := by
  have hboth := (Accounts.after htype.accounts hinit).trans hmade
  exact hboth.settle (.read hread hs hboth.tokens.symm .refl)

/-- A production accounts for all that it defines. -/
theorem Reads.accounts (h : Reads φ s log s') (hs : s.tree.Sound) (hfits : φ.Fits s.tree) :
    Accounts φ.pending? s log s' := by
  induction h with
  | stepClosing | extendClosing | extendBrace | elseNone | nextNone | initialNone => exact .refl
  | stepNewline | typeName => exact .next
  | stepPrefix _ _ _ ih | elseSome _ _ ih | nameDefinition _ _ ih =>
    exact .after .next (ih hs True.intro)
  | stepPostfix _ _ _ ih => exact .after .next (ih hs (hfits _ rfl))
  | stepOperator _ _ _ _ ih | stepOperand _ _ _ _ _ _ _ ih => exact .after .next (ih hs hfits)
  | operand hbegins _ ih =>
    have haccounts := ih hs (hbegins.fits hfits)
    rwa [hbegins.pending?] at haccounts
  | @extendStep left _ next _ _ _ _ _ _ _ _ _ hstep _ ih ih' =>
    refine (ih hs hfits).trans (ih' (hstep.sound hs hfits) ?_)
    intro l hl
    cases next with
    | none => exact hstep.extends.hasExpr (hfits l hl)
    | some next => exact hstep.hasExpr hfits hl
  | sequenceClosing => exact .after .past .next
  | sequenceItem _ _ hitem _ ih ih' =>
    refine .after .past ((ih hs nofun).trans (ih' (hitem.sound hs nofun) ?_))
    refine hasExpr_item (fun b hb => hitem.extends.hasExpr (hfits b hb)) ?_
    rintro _ rfl
    exact hitem.made rfl rfl
  | literal hnode => exact Accounts.refl.add (by cases hnode <;> rfl)
  | nameUse | postfixOperation => exact Accounts.refl.add rfl
  | member => exact Accounts.next.add rfl
  | prefixOperation _ _ _ _ ih | binaryOperation _ _ _ _ _ ih | returns _ _ _ _ _ ih =>
    exact (ih hs nofun).add rfl
  | argumentsNil => exact .after .past .next
  | argumentsCons hvalue _ _ _ hseparates _ _ ih ih' =>
    have hs₁ := hvalue.sound hs nofun
    have hgrows := hvalue.extends.trans hseparates.trail.extends
    have hrest := ih' (hseparates.tree ▸ hs₁) fun p hp =>
      hgrows.hasEntity (hfits p (List.mem_cons_of_mem _ hp))
    exact (Accounts.after .past ((ih hs nofun).trans (.after hseparates.accounts hrest))).add rfl
  | call _ hentity hfunction _ _ ih =>
    exact (ih hs (params_hasEntity hs hentity hfunction)).add rfl
  | structLiteral _ hmembers _ _ ih =>
    exact (ih hs (variables?_hasEntity hs hmembers)).add rfl
  | scopeBody _ ih => exact (ih hs hasExpr_empty).add rfl
  | scope hopen _ hclose ih => exact .framed hs hopen (ih (hopen.sound hs) True.intro) hclose
  | scopeAfter _ _ ih => exact .after .past (.after .next (ih hs True.intro))
  | branch hopen hcond _ hthen _ hclose ih ih' ih'' =>
    have hs₁ := hopen.sound hs
    have hs₂ := hcond.sound hs₁ nofun
    have hs₃ := hthen.sound hs₂ True.intro
    have hscopes := ((ih hs₁ nofun).trans (ih' hs₂ True.intro)).trans (ih'' hs₃ True.intro)
    exact (Accounts.framed hs hopen hscopes hclose).add rfl
  | @loopEndless keyword _ _ _ _ _ _ s₂ _ _ hopen hfirst _ _ _ hclose ih ih' =>
    have hs₁ := hopen.sound hs
    have hs₂ : (s₂.add (.bool true) keyword.span).tree.Sound :=
      (hfirst.sound hs₁ nofun).pushExpr ⟨nofun, nofun, nofun, trivial⟩
    have hscope := ((ih hs₁ nofun).add rfl).trans (ih' hs₂ True.intro)
    exact (Accounts.framed hs hopen hscope hclose).add rfl
  | loopWhile hopen hfirst _ _ _ hclose ih ih' =>
    have hs₁ := hopen.sound hs
    have hs₂ := hfirst.sound hs₁ nofun
    have hscope := (ih hs₁ nofun).trans (ih' hs₂ True.intro)
    exact (Accounts.framed hs hopen hscope hclose).add rfl
  | loopCounted hopen hinit _ _ hcond _ _ hstep _ hclose ih₁ ih₂ ih₃ ih₄ =>
    have hs₁ := hopen.sound hs
    have hs₂ := hinit.sound hs₁ nofun
    have hs₃ := hcond.sound hs₂ nofun
    have hs₄ := hstep.sound hs₃ nofun
    have hcond' := ((ih₁ hs₁ nofun).snoc .next).trans (ih₂ hs₂ nofun)
    have hscope := ((hcond'.snoc .next).trans (ih₃ hs₃ nofun)).trans (ih₄ hs₄ True.intro)
    exact (Accounts.framed hs hopen hscope hclose).add rfl
  | groupParameters hopen _ _ _ hresult hclose ih =>
    have hcontent := ((ih (hopen.sound hs) nofun).snoc .next).snoc hresult.accounts
    exact (Accounts.framed hs hopen hcontent hclose).add rfl
  | groupExpression hopen _ _ _ _ hclose ih =>
    exact (Accounts.framed hs hopen ((ih (hopen.sound hs) nofun).snoc .next) hclose).add rfl
  | function hexpr hparams _ hnamed henter _ hbody hclose hbind ih =>
    exact accounts_function hs hexpr hparams hnamed henter hbody (ih · True.intro) hclose hbind
  | @declaration name _ _ type _ _ _ _ _ _ _ ih =>
    obtain ⟨hs₁, hevolves, _⟩ := sound_named (e := .var name.text type) hs
      (And.intro hfits.1.hasEntity hfits.1) rfl
    exact Accounts.define ⟨hevolves, rfl, rfl, rfl, List.forall_mem_singleton.2 ⟨rfl, fun _ => rfl⟩⟩
      (ih hs₁ True.intro) rfl fun _ => rfl
  | nextSome _ _ _ _ ih => exact .after .next (.after .past (ih hs nofun))
  | initialConstant _ ih => exact ih hs nofun
  | initialSome _ _ ih => exact .after .next (ih hs nofun)
  | nameAlone _ _ ih => exact ih hs True.intro
  | definitionFunction hnew hop htype hinit hexpr hnode hfunction hwithin ih ih' =>
    have hread := Reads.definitionFunction hnew hop htype hinit hexpr hnode hfunction hwithin
    have hs₁ := htype.tree.symm ▸ hs
    have hmade := ih' (hinit.sound hs₁ True.intro) (hinit.made rfl rfl)
    exact accounts_definition hs htype (ih hs₁ True.intro) hmade hread
  | definitionRecord hnew hop htype hinit hexpr hnode htypedef hwithin ih ih' =>
    have hread := Reads.definitionRecord hnew hop htype hinit hexpr hnode htypedef hwithin
    have hs₁ := htype.tree.symm ▸ hs
    have hmade := ih' (hinit.sound hs₁ True.intro) (hinit.made rfl rfl)
    exact accounts_definition hs htype (ih hs₁ True.intro) hmade hread
  | definitionVariable hnew hop htype hinit hnode hdefined hdeclaration hwithin ih ih' =>
    have hread := Reads.definitionVariable hnew hop htype hinit hnode hdefined hdeclaration hwithin
    have hs₁ := htype.tree.symm ▸ hs
    have hs₂ := hinit.sound hs₁ True.intro
    have hfits := hdefined.fits hs₂ (fun d hd => (hd ▸ htype).isType.mono hinit.extends)
      fun i hi => hinit.made rfl hi
    exact accounts_definition hs htype (ih hs₁ True.intro) (ih' hs₂ hfits) hread
  | record _ hopen _ _ hclose ih =>
    have hinner := Accounts.after .inside (ih (hopen.sound hs) hasExpr_empty)
    have hbody := (Accounts.after (.opens hopen hs) hinner).snoc .outside
    exact (Accounts.after .past (.after .next (hbody.snoc (.closes hclose)))).add rfl
  | @typedef name op body form members frame span within s hexpr =>
    obtain ⟨_, hevolves, _⟩ := sound_named hs (recordEntity_kindSound hs name.text hexpr) rfl
    have hnever : (recordEntity name.text form frame).isVar ≠ true :=
      Bool.eq_false_iff.1 (recordEntity_isVar _ _ _)
    exact Accounts.define ⟨hevolves, rfl, rfl, rfl,
      List.forall_mem_singleton.2 ⟨rfl, fun hvar => absurd hvar hnever⟩⟩ .refl rfl
      fun hvar => absurd hvar hnever

/-! ## The node of a definition -/

/-- The definition of a variable: its node, and the entity with its type. -/
theorem Reads.declares {name : Token} {op : DefOp} {init : Option ExprId} {type : EntityId}
    {closing : TokenSet} (h : Reads (.declaration name op init type closing id) s log s') :
    ∃ next span, s'.tree.expr? id = some ⟨.definition name.text op init s.newEntity next, span⟩ ∧
      s'.tree.entity? s.newEntity = some (.var name.text type) := by
  cases h with
  | declaration hnext =>
    refine ⟨_, _, expr?_newExpr _ _ _, ?_⟩
    have hentity : (s.install (.var name.text type)).tree.entity? s.newEntity =
        some (.var name.text type) := (Tree.entity?_pushEntity _ _ _).trans (if_pos rfl)
    exact (hnext.extends.trans Step.add.extends).entity hentity

/-- The definition of a function: its node. -/
theorem Reads.defines_function {name : Token} {header : ExprId}
    (h : Reads (.function name header id) s log s') :
    ∃ body span, s'.tree.expr? id = some ⟨.function name.text s.newEntity header body, span⟩ := by
  cases h with
  | function => exact ⟨_, _, expr?_newExpr _ _ _⟩

/-- The entity of a function: its parameters are the variables in the frame of its signature. -/
theorem Reads.function_entity {name : Token} {header : ExprId}
    (h : Reads (.function name header id) s log s') :
    ∃ first result frame span params canonical,
      s.tree.expr? header = some ⟨.signature first result frame, span⟩ ∧
        s.tree.variables? frame = some params ∧
        s'.tree.entity? s.newEntity = some ⟨canonical, .function params result⟩ := by
  cases h with
  | @function _ _ _ result _ _ params canonical _ _ _ _ _ s₁ _ _ _ hexpr hparams _ hnamed henter _
      hbody hclose hbind =>
    refine ⟨_, _, _, _, params, canonical, hexpr, hparams, ?_⟩
    have hentity : s₁.tree.entity? s.newEntity = some ⟨canonical, .function params result⟩ := by
      rw [hnamed]
      exact (Tree.entity?_pushEntity _ _ _).trans (if_pos rfl)
    have hentered := Trail.bindNew.extends.trans (Step.enters henter).extends
    have hclosed := hbody.extends.trans (Step.closes hclose).extends
    have hfound := hclosed.trans (Step.bindBody hbind).extends
    exact (hentered.trans (hfound.trans Step.add.extends)).entity hentity

/-- The definition of a record: its node. -/
theorem Reads.defines_record {name : Token} {op : DefOp} {body : ExprId}
    (h : Reads (.typedef name op body id) s log s') :
    ∃ span, s'.tree.expr? id = some ⟨.typedef name.text op body s.newEntity, span⟩ := by
  cases h with
  | typedef => exact ⟨_, expr?_newExpr _ _ _⟩

/-- What has the node of a function was read by the rule for functions. -/
theorem Reads.of_function {name symbol : Token} {closing : TokenSet} {defined : String}
    {function : EntityId} {header body : ExprId} {span : Span}
    (h : Reads (.definition name symbol closing id) s log s')
    (he : s'.tree.expr? id = some ⟨.function defined function header body, span⟩) :
    ∃ op type s₁ s₂ before after, log = before ++ after ∧ DeclaredType op s type s₁ ∧
      Reads (.initialValue op symbol (closing ∪ {.comma}) (some header)) s₁ before s₂ ∧
      Reads (.function name header id) s₂ after s' ∧ function = s₂.newEntity := by
  cases h with
  | definitionFunction _ _ htype hinit _ _ hfunction =>
    obtain ⟨_, _, hfound⟩ := hfunction.defines_function
    cases he.symm.trans hfound
    exact ⟨_, _, _, _, _, _, rfl, htype, hinit, hfunction, rfl⟩
  | definitionRecord _ _ _ _ _ _ htypedef =>
    obtain ⟨_, hfound⟩ := htypedef.defines_record
    cases he.symm.trans hfound
  | definitionVariable _ _ _ _ _ _ hdeclaration =>
    obtain ⟨_, _, hfound, _⟩ := hdeclaration.declares
    cases he.symm.trans hfound

/-! ## Whole sources -/

/-- The main scope, which is made last, defines nothing. -/
theorem accounts_of_parse {tokens : TokenList} {tree : Tree} (h : parse tokens = .ok tree) :
    ∃ (log : List Binding) (s : State), Accounts none (.initial tokens) log s ∧ s.tree = tree := by
  obtain ⟨body, log, s, hread, rfl⟩ := parse_reads h
  have haccounts := hread.accounts Tree.sound_withBuiltins hasExpr_empty
  let span := (Cursor.start tokens).current.span
  have hlast : Accounts none (s.add (.scope body Tree.mainFrame)
      (span.merge s.cursor.previousSpan)) [] (s.finished span body) :=
    .still (setMainScope_evolves _) rfl rfl rfl
  exact ⟨log, _, (haccounts.add rfl).snoc hlast, rfl⟩

/-- Every definition of an accepted source was written as one among its tokens. -/
theorem written_of_parse {tokens : TokenList} {tree : Tree} (h : parse tokens = .ok tree)
    {d : String × EntityId} (hd : tree.defined? id = some d) : Written tokens tree id := by
  obtain ⟨log, s, haccounts, rfl⟩ := accounts_of_parse h
  rcases haccounts.written hd with hold | hpending | hwritten
  · exact absurd hold (Nat.not_lt_zero _)
  · cases hpending
  · rw [haccounts.tokens] at hwritten
    exact hwritten

theorem not_isVar_withBuiltins : ∀ x ∈ Tree.withBuiltins.entities, x.isVar = false := by
  decide +kernel

/-- In an accepted source no entity has two definitions. -/
theorem defines_unique_of_parse {tokens : TokenList} {tree : Tree} (h : parse tokens = .ok tree)
    {d d' : ExprId} {v : EntityId} (hd : tree.Defines d v) (hd' : tree.Defines d' v) : d = d' := by
  obtain ⟨log, s, haccounts, rfl⟩ := accounts_of_parse h
  have hfirst : ∀ d, ¬(State.initial tokens).tree.HasExpr d := fun d => Nat.not_lt_zero _
  obtain ⟨name, hname⟩ := hd.defined?
  obtain ⟨name', hname'⟩ := hd'.defined?
  exact haccounts.once hname hname' (hfirst d) (hfirst d')

/-- Every variable of an accepted source has exactly one definition. -/
theorem variable_defined_once {tokens : TokenList} {tree : Tree} (h : parse tokens = .ok tree)
    {v : EntityId} {x : Entity} (hx : tree.entity? v = some x) (hvar : x.isVar = true) :
    ∃! d, tree.Defines d v := by
  obtain ⟨log, s, haccounts, rfl⟩ := accounts_of_parse h
  rcases haccounts.defining hx hvar with hold | ⟨d, _, hd⟩
  · obtain ⟨y, hy⟩ := Tree.hasEntity_iff.1 hold
    obtain rfl := Option.some.inj ((haccounts.evolves.entity hy).symm.trans hx)
    have hfalse := not_isVar_withBuiltins y (Array.mem_of_getElem? hy)
    exact absurd (hfalse.symm.trans hvar) nofun
  · exact ⟨d, hd, fun d' hd' => defines_unique_of_parse h hd' hd⟩

end Grammar

end OnePass

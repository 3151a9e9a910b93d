import OnePass.Proofs.Postorder
import OnePass.Proofs.Soundness

/-!
# Origins

What a production checks when it makes an expression is known of the expression for ever.
`Origin t id e` keeps the reading that made it, from one sound tree to another from which `t`
has grown; only the condition that an endless loop is given was not read. What the rules of the
grammar say of an expression is then found by cases on its reading (`Origin.call`,
`Origin.structLiteral`, `Origin.hasFrame`).

A production makes a forest of what it is given and what it reads (`Tree.Forest`): it takes up
each expression just once. A tree grows (`Grows`) if that is so of all that is new in it, and if
all that is new has an origin.
-/

namespace OnePass

/-- The frame in which the parts of a scope, a branch or a loop are read. -/
def Node.innerFrame? : Node → Option FrameId
  | .scope _ frame | .branch _ _ _ frame | .loop _ _ _ _ frame | .whileLoop _ _ frame => some frame
  | _ => none

/-- With the constructs `c` around it, a node is made of what is loose and begins no construct.
A `return` belongs to the function innermost among them. -/
def Node.Plain (c : List Grammar.Construct) : Node → Prop
  | .function .. | .record .. | .structLiteral .. => False
  | .result _ entity => c.head? = some (.function entity)
  | _ => True

theorem Node.Plain.heads {c : List Grammar.Construct} {node : Node} (h : node.Plain c) (t : Tree)
    (lo : Nat) : t.Heads lo node lo := by
  cases node with
  | structLiteral => exact h.elim
  | _ => rfl

namespace Grammar

variable {s s₁ s₂ s' : State} {t t₁ t' : Tree} {frame : FrameId} {log : List Binding}
  {φ : Phrase} {lo : Nat} {id : ExprId} {e : Expr} {roots roots' : List ExprId}

/-! ## What productions take and leave -/

namespace Phrase

/-- The expressions that the production is given to make something of them. -/
def loose : Phrase → List ExprId
  | step left .. | extend left .. | operand left .. | binaryOperation left .. => left.toList
  | sequence body .. => body.toList
  | postfixOperation left .. => [left]
  | call callee .. => [callee]
  | structLiteral base .. | member base .. => [base]
  | function _ header _ => [header]
  | typedef _ _ body _ => [body]
  | declaration _ _ init .. => init.toList
  | _ => []

/-- The expressions that are there, instead of those, when the production is through. -/
def answers : Phrase → List ExprId
  | step left _ answer => (answer.or left).toList
  | sequence _ _ answer => answer
  | φ => φ.answer?.toList

/-- The expression that the production itself makes, of what it is given and what it reads. -/
def made? : Phrase → Option ExprId
  | step .. | extend .. | sequence .. | operand .. | scope .. | scopeAfter .. | elseScope ..
  | nextDefinition .. | initialValue .. | definition .. | nameOrDefinition .. | typeName .. => none
  | φ => φ.answer?

/-- The production begins where it may: a scope in its own frame, and an operand after a left
part only with a token that goes on with that. -/
def Placed (s : State) : Phrase → Prop
  | scopeBody _ frame _ => s.tree.currentFrame = frame
  | operand left token .. => left.isSome = true → token.kind ∉ operandStart
  | _ => True

end Phrase

theorem literals_operandStart :
    ∀ kind ∈ TokenSet.literals, kind ∈ operandStart := by
  intro kind h
  cases kind <;> first | exact (by decide) | exact absurd h (by decide)

/-- What a token begins takes the left part. -/
theorem Begins.placed {token : Token} {closing : TokenSet} {left : Option ExprId}
    (h : Begins token closing id left φ)
    (hplaced : left.isSome = true → token.kind ∉ operandStart) :
    φ.loose = left.toList ∧ φ.answers = [id] ∧ φ.Placed s := by
  have hnone (hstart : token.kind ∈ operandStart) : left = none := by
    cases left with
    | none => rfl
    | some => exact absurd hstart (hplaced rfl)
  cases h with
  | name hkind | branch hkind | loop hkind | returns hkind =>
    rw [hnone (by rw [hkind]; decide)]
    exact ⟨rfl, rfl, trivial⟩
  | literal hkind =>
    rw [hnone (literals_operandStart _ hkind)]
    exact ⟨rfl, rfl, trivial⟩
  | record hkind =>
    rw [hnone (by rcases hkind with hkind | hkind <;> rw [hkind] <;> decide)]
    exact ⟨rfl, rfl, trivial⟩
  | _ => exact ⟨rfl, rfl, trivial⟩

/-! ## Origins -/

theorem Opens.hasFrame (h : Opens s frame s') : s'.tree.HasFrame frame := by
  obtain ⟨rfl, hsize, rfl⟩ := h.eq
  simp [Tree.HasFrame, Tree.withChild, Tree.onTop]

/-- The expression was made by a production in a tree from which `t` has grown, or else it is
the condition of an endless loop. -/
inductive Origin (t : Tree) (id : ExprId) : Expr → Prop where
  | endless {span : Span} : Origin t id ⟨.bool true, span⟩
  | made {φ : Phrase} {s s' : State} {log : List Binding} {e : Expr} (hread : Reads φ s log s')
      (hs : s.tree.Sound) (hfits : φ.Fits s.tree) (hplaced : φ.Placed s)
      (hmade : φ.made? = some id) (hexpr : s'.tree.expr? id = some e)
      (hevolves : s'.tree.Evolves t) : Origin t id e

theorem Origin.mono (h : Origin t id e) (hevolves : t.Evolves t') : Origin t' id e := by
  cases h with
  | endless => exact .endless
  | made hread hs hfits hplaced hmade hexpr hthen =>
    exact .made hread hs hfits hplaced hmade hexpr (hthen.trans hevolves)

theorem expr?_newExpr (s : State) (node : Node) (span : Span) :
    (s.add node span).tree.expr? s.newExpr = some ⟨node, span⟩ :=
  s.tree.expr?_pushExpr_new ⟨node, span⟩

theorem eq_of_newExpr {node : Node} {span : Span}
    (h : (s.add node span).tree.expr? s.newExpr = some e) : e = ⟨node, span⟩ :=
  Option.some.inj (h.symm.trans (expr?_newExpr s node span))

/-- A call was made of arguments for the parameters of the function called. -/
theorem Origin.call {callee : ExprId} {function : EntityId} {args : Option ExprId} {span : Span}
    (h : Origin t id ⟨.call callee function args, span⟩) :
    ∃ (s s' : State) (f : Entity) (params : List EntityId) (result : EntityId)
      (log : List Binding), s.tree.exprType? callee = some function ∧
        s.tree.entity? function = some f ∧ f.function? = some (params, result) ∧
        Reads (.arguments {.closeParen} params args) s log s' ∧ s.tree.Sound ∧
        s'.tree.Evolves t := by
  cases h with
  | made hread hs hfits hplaced hmade hexpr hevolves =>
    cases hread with
    | call htype hentity hfunction hargs =>
      cases hmade
      cases eq_of_newExpr hexpr
      exact ⟨_, _, _, _, _, _, htype, hentity, hfunction, hargs, hs,
        (Tree.pushExpr_evolves _ _).trans hevolves⟩
    | literal hnode =>
      cases hmade
      cases eq_of_newExpr hexpr
      cases hnode
    | _ => cases hmade <;> cases eq_of_newExpr hexpr

/-- A literal of a structure was made of arguments for the variables of the structure. -/
theorem Origin.structLiteral {type : EntityId} {args : Option ExprId} {span : Span}
    (h : Origin t id ⟨.structLiteral type args, span⟩) :
    ∃ (s s' : State) (f : Entity) (frame : FrameId) (members : List EntityId)
      (log : List Binding), s.tree.entity? type = some f ∧ f.structFrame? = some frame ∧
        s.tree.variables? frame = some members ∧
        Reads (.arguments {.closeBrace} members args) s log s' ∧ s.tree.Sound ∧
        s'.tree.Evolves t := by
  cases h with
  | made hread hs hfits hplaced hmade hexpr hevolves =>
    cases hread with
    | structLiteral hstruct hmembers hargs =>
      cases hmade
      cases eq_of_newExpr hexpr
      obtain ⟨-, f, hentity, hframe⟩ := namedStruct?_ok hstruct
      exact ⟨_, _, _, _, _, _, hentity, hframe, hmembers, hargs, hs,
        (Tree.pushExpr_evolves _ _).trans hevolves⟩
    | literal hnode =>
      cases hmade
      cases eq_of_newExpr hexpr
      cases hnode
    | _ => cases hmade <;> cases eq_of_newExpr hexpr

/-- A record was made where it was read. -/
theorem Origin.record {form : RecordForm} {body : List ExprId} {span : Span}
    (h : Origin t id ⟨.record form body frame, span⟩) :
    ∃ (keyword : Token) (s s' : State) (log : List Binding), Reads (.record keyword id) s log s' ∧
      s.tree.Sound ∧ s'.tree.expr? id = some ⟨.record form body frame, span⟩ ∧
      s'.tree.Evolves t := by
  cases h with
  | made hread hs hfits hplaced hmade hexpr hevolves =>
    cases hread with
    | record hat hopen hbody hmembers hclose =>
      cases hmade
      exact ⟨_, _, _, _, .record hat hopen hbody hmembers hclose, hs, hexpr, hevolves⟩
    | literal hnode =>
      cases hmade
      cases eq_of_newExpr hexpr
      cases hnode
    | _ => cases hmade <;> cases eq_of_newExpr hexpr

/-- The frame of a scope, a branch or a loop is there. -/
theorem Origin.hasFrame (h : Origin t id e) {f : FrameId} (hf : e.node.innerFrame? = some f) :
    t.HasFrame f := by
  cases h with
  | endless => cases hf
  | made hread hs hfits hplaced hmade hexpr hevolves =>
    refine hevolves.toExtends.hasFrame ?_
    cases hread with
    | scopeBody hbody =>
      cases hmade
      cases eq_of_newExpr hexpr
      cases hf
      exact hbody.extends.hasFrame (hplaced ▸ hs.framed.current)
    | branch hopen hcond _ hthen helse hclose =>
      cases hmade
      cases eq_of_newExpr hexpr
      cases hf
      have hthere := hcond.extends.trans (hthen.extends.trans helse.extends)
      exact (Step.closes hclose).extends.hasFrame (hthere.hasFrame hopen.hasFrame)
    | loopEndless hopen hfirst _ _ hscope hclose =>
      cases hmade
      cases eq_of_newExpr hexpr
      cases hf
      have hthere := hfirst.extends.trans (Step.add.extends.trans hscope.extends)
      exact (Step.closes hclose).extends.hasFrame (hthere.hasFrame hopen.hasFrame)
    | loopWhile hopen hfirst _ _ hscope hclose =>
      cases hmade
      cases eq_of_newExpr hexpr
      cases hf
      have hthere := hfirst.extends.trans hscope.extends
      exact (Step.closes hclose).extends.hasFrame (hthere.hasFrame hopen.hasFrame)
    | loopCounted hopen hinit _ _ hcond _ _ hstep hscope hclose =>
      cases hmade
      cases eq_of_newExpr hexpr
      cases hf
      have hthere := (hinit.extends.trans hcond.extends).trans (hstep.extends.trans hscope.extends)
      exact (Step.closes hclose).extends.hasFrame (hthere.hasFrame hopen.hasFrame)
    | literal hnode =>
      cases hmade
      cases eq_of_newExpr hexpr
      cases hnode <;> cases hf
    | _ =>
      cases hmade <;> cases eq_of_newExpr hexpr <;> cases hf

/-! ## Steps that make no expression -/

/-- No expression has been made, and no body has been found. -/
structure Quiet (t t' : Tree) : Prop where
  exprs : t'.exprs = t.exprs
  bodies : ∀ {id f}, t'.frame? id = some f → ∀ b ∈ f.bodies.entries,
    ∃ f', t.frame? id = some f' ∧ b ∈ f'.bodies.entries

namespace Quiet

theorem refl : Quiet t t := ⟨rfl, fun hf _ hb => ⟨_, hf, hb⟩⟩

theorem trans (h : Quiet t t₁) (h' : Quiet t₁ t') : Quiet t t' := by
  refine ⟨h'.exprs.trans h.exprs, ?_⟩
  intro id f hf b hb
  obtain ⟨f', hf', hb'⟩ := h'.bodies hf b hb
  exact h.bodies hf' b hb'

theorem pushEntity {entity : Entity} : Quiet t (t.pushEntity entity).2 :=
  ⟨rfl, fun hf _ hb => ⟨_, hf, hb⟩⟩

theorem bind {name : String} {entity : EntityId} : Quiet t (t.bind name entity) := by
  refine ⟨rfl, ?_⟩
  intro id f hf b hb
  unfold Tree.bind at hf
  rw [Tree.frame?_modifyFrame] at hf
  split at hf
  · obtain ⟨f', hf', rfl⟩ := Option.map_eq_some_iff.1 hf
    exact ⟨f', hf', hb⟩
  · exact ⟨f, hf, hb⟩

theorem named {entity : Entity} {name : String}
    (h : s₁ = (s.addEntity entity).bind name s.newEntity) : Quiet s.tree s₁.tree := by
  subst h
  exact pushEntity.trans bind

theorem bindNew {name : String} {entity : EntityId} :
    Quiet s.tree (s.bindNew name entity).tree := by
  unfold State.bindNew
  split
  · exact bind
  · exact refl

end Quiet

theorem Opens.quiet (h : Opens s frame s') : Quiet s.tree s'.tree := by
  obtain ⟨rfl, hsize, rfl⟩ := h.eq
  refine ⟨rfl, ?_⟩
  intro id f hf b hb
  have hf' : s.tree.withChild.frame? id = some f := hf
  rw [Tree.frame?_withChild] at hf'
  split at hf'
  · cases hf'
    cases hb
  · exact ⟨f, hf', hb⟩

theorem Enters.quiet (h : Enters s frame s') : Quiet s.tree s'.tree := by
  obtain ⟨_, hsize, rfl⟩ := h.eq
  exact ⟨rfl, fun hf _ hb => ⟨_, hf, hb⟩⟩

theorem Closes.quiet (h : Closes s s') : Quiet s.tree s'.tree := by
  obtain ⟨_, rfl⟩ := h.eq
  exact ⟨rfl, fun hf _ hb => ⟨_, hf, hb⟩⟩

theorem Opens.evolves (h : Opens s frame s') (hs : s.tree.Sound) : s.tree.Evolves s'.tree := by
  obtain ⟨rfl, hsize, rfl⟩ := h.eq
  exact (Tree.withChild_evolves hs).trans (Tree.onTop_evolves hsize)

theorem Opens.current (h : Opens s frame s') : s'.tree.currentFrame = frame := by
  obtain ⟨rfl, hsize, rfl⟩ := h.eq
  exact @currentFrame_onTop _ _ hsize

theorem Enters.current (h : Enters s frame s') : s'.tree.currentFrame = frame := by
  obtain ⟨_, hsize, rfl⟩ := h.eq
  exact @currentFrame_onTop _ _ hsize

/-! ## Growth of a tree by a reading -/

/-- Between the two trees expressions were made of the loose ones, which leaves others loose.
All that is new has an origin, and the bodies that were found are there. -/
structure Grows (t : Tree) (roots : List ExprId) (t' : Tree) (roots' : List ExprId) : Prop where
  evolves : t.Evolves t'
  forest : ∀ {lo}, t.Forest lo roots t.exprs.size → t'.Forest lo roots' t'.exprs.size
  origin : ∀ {id e}, t'.expr? id = some e → t.expr? id = some e ∨ Origin t' id e
  bodies : ∀ {id f}, t'.frame? id = some f → ∀ b ∈ f.bodies.entries,
    (∃ f', t.frame? id = some f' ∧ b ∈ f'.bodies.entries) ∨ t'.HasEntity b.1 ∧ t'.HasExpr b.2

namespace Grows

theorem refl : Grows t roots t roots := ⟨.refl, id, .inl, fun hf _ hb => .inl ⟨_, hf, hb⟩⟩

theorem trans {roots₁ : List ExprId} (h : Grows t roots t₁ roots₁)
    (h' : Grows t₁ roots₁ t' roots') : Grows t roots t' roots' := by
  refine ⟨h.evolves.trans h'.evolves, fun hforest => h'.forest (h.forest hforest), ?_, ?_⟩
  · intro id e he
    rcases h'.origin he with he | horigin
    · exact (h.origin he).imp (fun hold => hold) fun horigin => horigin.mono h'.evolves
    · exact .inr horigin
  · intro id f hf b hb
    rcases h'.bodies hf b hb with ⟨f', hf', hb'⟩ | hnew
    · refine (h.bodies hf' b hb').imp (fun hold => hold) ?_
      rintro ⟨hentity, hexpr⟩
      exact ⟨h'.evolves.toExtends.hasEntity hentity, h'.evolves.toExtends.hasExpr hexpr⟩
    · exact .inr hnew

/-- What was loose stays so while others are made. -/
theorem more {roots₁ : List ExprId} (h : Grows t roots t₁ roots₁) (h' : Grows t₁ [] t' roots') :
    Grows t roots t' (roots₁ ++ roots') := by
  refine h.trans ⟨h'.evolves, ?_, h'.origin, h'.bodies⟩
  exact fun hforest => (hforest.mono h'.evolves.toExtends).append (h'.forest .nil)

theorem quiet (h : Quiet t t') (hevolves : t.Evolves t') : Grows t roots t' roots := by
  refine ⟨hevolves, ?_, ?_, fun hf b hb => .inl (h.bodies hf b hb)⟩
  · intro lo hforest
    rw [h.exprs]
    exact hforest.mono hevolves.toExtends
  · intro id e he
    exact .inl ((Tree.expr?_congr h.exprs id).symm.trans he)

/-- The body of a function is found. -/
theorem bindBody {function : EntityId} {body : ExprId} (hs : t.Sound)
    (hbind : t.bindBody t.currentFrame function body = .ok t') (hfunction : t.HasEntity function)
    (hbody : t.HasExpr body) : Grows t roots t' roots := by
  obtain rfl := Tree.bindBody_ok hbind
  have hevolves : t.Evolves (t.modifyFrame t.currentFrame (·.setBody function body)) :=
    Tree.modifyFrame_evolves (fun _ => rfl) (fun _ => rfl) hs.current
  refine ⟨hevolves, fun hforest => hforest.mono hevolves.toExtends, .inl, ?_⟩
  intro id f hf b hb
  rw [Tree.frame?_modifyFrame] at hf
  split at hf
  · obtain ⟨f', hf', rfl⟩ := Option.map_eq_some_iff.1 hf
    rcases Assoc.mem_replace hb with hold | rfl
    · exact .inl ⟨f', hf', hold⟩
    · exact .inr ⟨hfunction, hbody⟩
  · exact .inl ⟨f, hf, hb⟩

/-- One more expression, made of the loose ones. -/
theorem push (h : Grows t roots t₁ roots') {e : Expr}
    (hforest : ∀ {lo}, t₁.Forest lo roots' t₁.exprs.size →
      (t₁.pushExpr e).2.Forest lo [⟨t₁.exprs.size⟩] (t₁.exprs.size + 1))
    (horigin : Origin (t₁.pushExpr e).2 ⟨t₁.exprs.size⟩ e) :
    Grows t roots (t₁.pushExpr e).2 [⟨t₁.exprs.size⟩] := by
  have hpush : Grows t₁ roots' (t₁.pushExpr e).2 [⟨t₁.exprs.size⟩] := by
    refine ⟨t₁.pushExpr_evolves e, ?_, ?_, fun hf b hb => .inl ⟨_, hf, hb⟩⟩
    · intro lo hloose
      have hsize : (t₁.pushExpr e).2.exprs.size = t₁.exprs.size + 1 := Array.size_push e
      rw [hsize]
      exact hforest hloose
    · intro id x hx
      rcases Tree.of_expr?_pushExpr hx with hold | ⟨rfl, rfl⟩
      · exact .inl hold
      · exact .inr horigin
  exact h.trans hpush

end Grows

/-- The origin of what a production makes at last. -/
theorem Reads.origin {node : Node} {span : Span} (h : Reads φ s log (s'.add node span))
    (hs : s.tree.Sound) (hfits : φ.Fits s.tree) (hplaced : φ.Placed s)
    (hmade : φ.made? = some s'.newExpr) :
    Origin (s'.add node span).tree s'.newExpr ⟨node, span⟩ :=
  .made h hs hfits hplaced hmade (expr?_newExpr s' node span) .refl

theorem toList_item (body : Array ExprId) (item : Option ExprId) :
    (item.elim body body.push).toList = body.toList ++ item.toList := by
  cases item with
  | none => exact (List.append_nil _).symm
  | some item => exact Array.toList_push

end Grammar

end OnePass

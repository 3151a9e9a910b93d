import OnePass.Proofs.Building
import OnePass.Proofs.Progress

/-!
# Left operands

Operators group to the right: no operation on two operands is the left operand of another one
(`Tree.Combed`). Only what has been read before an operator can become its left operand, and an
operation that has been read is never followed by an operator. Its right operand was read with the
closing tokens of the expression around it, so that the cursor stands where that expression stops
too (`Reads.step_halts`).
-/

namespace OnePass

/-- The left operand of an operation on two operands. -/
def Node.leftOperand? : Node → Option ExprId
  | .binary _ _ left _ => some left
  | _ => none

namespace Tree

variable {t t' : Tree} {id : ExprId}

/-- The expression is there and no operation on two operands. -/
def Single (t : Tree) (id : ExprId) : Prop :=
  ∃ e, t.expr? id = some e ∧ e.node.leftOperand? = none

/-- No operation on two operands is the left operand of another. -/
def Combed (t : Tree) : Prop :=
  ∀ id e left, t.expr? id = some e → e.node.leftOperand? = some left → t.Single left

theorem Single.mono (h : t.Single id) (hextends : t.Extends t') : t'.Single id := by
  obtain ⟨e, he, hnode⟩ := h
  exact ⟨e, hextends.expr he, hnode⟩

namespace Combed

theorem congr (h : t.Combed) (hexprs : t'.exprs = t.exprs) : t'.Combed := by
  intro id e left he hleft
  rw [expr?_congr hexprs] at he
  obtain ⟨l, hl, hnode⟩ := h id e left he hleft
  exact ⟨l, (expr?_congr hexprs left).trans hl, hnode⟩

/-- One more expression, the left operand of which is single if it has one. -/
theorem pushExpr (h : t.Combed) {e : Expr} (he : ∀ left, e.node.leftOperand? = some left →
    t.Single left) : (t.pushExpr e).2.Combed := by
  have hextends := (t.pushExpr_evolves e).toExtends
  intro id x left hx hleft
  rcases of_expr?_pushExpr hx with hold | ⟨-, rfl⟩
  · exact (h id x left hold hleft).mono hextends
  · exact (he left hleft).mono hextends

end Combed

end Tree

namespace Grammar

variable {φ : Phrase} {s s₁ s' : State} {log : List Binding} {id : ExprId} {closing : TokenSet}
  {left next : Option ExprId}

/-! ## Operands -/

/-- What a production answers that reads no operation on two operands. -/
def Phrase.single? : Phrase → Option ExprId
  | .step .. | .extend .. | .sequence .. | .binaryOperation .. | .arguments .. | .typeName ..
  | .elseScope .. | .nextDefinition .. | .initialValue .. => none
  | φ => φ.answer?

theorem single_newExpr (s : State) {node : Node} {span : Span} (hnode : node.leftOperand? = none) :
    (s.add node span).tree.Single s.newExpr :=
  ⟨_, expr?_newExpr s node span, hnode⟩

theorem Begins.single? {token : Token} (h : Begins token closing id left φ) :
    φ.single? = some id := by
  cases h <;> rfl

/-- An operand is no operation on two operands. -/
theorem Reads.single (h : Reads φ s log s') (hφ : φ.single? = some id) : s'.tree.Single id := by
  induction h with
  | stepClosing | stepPrefix | stepPostfix | stepNewline | stepOperator | stepOperand
  | extendClosing | extendBrace | extendStep | sequenceClosing | sequenceItem | binaryOperation
  | argumentsNil | argumentsCons | typeName | elseNone | elseSome | nextNone | nextSome
  | initialConstant | initialSome | initialNone => cases hφ
  | operand hbegins _ ih =>
    cases hφ
    exact ih hbegins.single?
  | literal hnode =>
    cases hφ
    exact single_newExpr _ (by cases hnode <;> rfl)
  | scope _ _ hclose ih =>
    cases hφ
    exact (ih rfl).mono hclose.evolves.toExtends
  | scopeAfter _ _ ih | definitionFunction _ _ _ _ _ _ _ _ _ ih
  | definitionRecord _ _ _ _ _ _ _ _ _ ih | definitionVariable _ _ _ _ _ _ _ _ _ ih
  | nameDefinition _ _ ih | nameAlone _ _ ih =>
    cases hφ
    exact ih rfl
  | _ =>
    cases hφ
    exact single_newExpr _ rfl

/-! ## Where an expression stops -/

/-- An expression that has an operand stops here. -/
def Halts (s : State) (closing : TokenSet) : Prop :=
  s.cursor.isAt closing = true ∨ s.cursor.isAt {.openBrace} = true

/-- What a step has read is no operation on two operands, or the expression stops behind it. -/
theorem Reads.step_halts (h : Reads (.step left closing next) s log s')
    (hleft : ∀ l, left = some l → s.tree.Single l) :
    ∀ l, next.or left = some l → s'.tree.Single l ∨ s'.tree.HasExpr l ∧ Halts s' closing := by
  intro l hl
  cases h with
  | stepClosing => exact .inl (hleft l hl)
  | stepNewline =>
    refine .inl (hleft l ?_)
    cases left <;> exact hl
  | stepPrefix _ _ hread | stepPostfix _ _ hread | stepOperand _ _ _ _ _ _ hread =>
    cases hl
    exact .inl (hread.single rfl)
  | stepOperator _ _ _ hread =>
    cases hl
    refine .inr ⟨hread.made rfl rfl, ?_⟩
    cases hread with
    | binaryOperation _ hright => exact hright.stops.imp_right And.right

/-! ## The whole grammar -/

/-- What a production is given before an operator can come is no operation on two operands. -/
def Phrase.Ready (s : State) : Phrase → Prop
  | .step left .. | .binaryOperation left .. => ∀ l, left = some l → s.tree.Single l
  | .extend left closing _ =>
    ∀ l, left = some l → s.tree.Single l ∨ s.tree.HasExpr l ∧ Halts s closing
  | _ => True

theorem Begins.ready {token : Token} (h : Begins token closing id left φ) : φ.Ready s := by
  cases h <;> exact True.intro

/-- An expression that goes on has no operation on two operands as its left part. -/
theorem single_of_going (hready : ∀ l, left = some l →
      s.tree.Single l ∨ s.tree.HasExpr l ∧ Halts s closing)
    (hclosing : s.cursor.isAt closing = false)
    (hbrace : ∀ l, left = some l → s.cursor.isAt {.openBrace} = true →
      (namedStruct? s.tree l).isSome = true) :
    ∀ l, left = some l → s.tree.Single l := by
  intro l hl
  rcases hready l hl with hsingle | ⟨-, hat | hat⟩
  · exact hsingle
  · rw [hclosing] at hat
    cases hat
  · obtain ⟨⟨type, members⟩, hstruct⟩ := Option.isSome_iff_exists.1 (hbrace l hl hat)
    obtain ⟨⟨name, span, he⟩, -⟩ := namedStruct?_ok hstruct
    exact ⟨_, he, rfl⟩

/-- Whatever is read, operations on two operands group to the right. -/
theorem Reads.combed (h : Reads φ s log s') (hready : φ.Ready s) (hs : s.tree.Combed) :
    s'.tree.Combed := by
  have hadd {s : State} {node : Node} {span : Span} (hs : s.tree.Combed)
      (hnode : node.leftOperand? = none) : (s.add node span).tree.Combed :=
    hs.pushExpr fun left hleft => by rw [hnode] at hleft; cases hleft
  induction h with
  | stepClosing | extendClosing | extendBrace | sequenceClosing | typeName | argumentsNil
  | elseNone | nextNone | initialNone | stepNewline => exact hs
  | stepOperator _ _ _ _ ih => exact ih hready hs
  | stepPrefix _ _ _ ih | stepPostfix _ _ _ ih | stepOperand _ _ _ _ _ _ _ ih | scopeAfter _ _ ih
  | elseSome _ _ ih | nameDefinition _ _ ih | nameAlone _ _ ih => exact ih True.intro hs
  | operand hbegins _ ih => exact ih hbegins.ready hs
  | nextSome _ _ _ _ ih | initialSome _ _ ih | initialConstant _ ih => exact ih nofun hs
  | extendStep hclosing _ hbrace hstep _ ih ih' =>
    have hleft := single_of_going hready hclosing hbrace
    exact ih' (hstep.step_halts hleft) (ih hleft hs)
  | sequenceItem _ _ _ _ ih ih' => exact ih' True.intro (ih nofun hs)
  | literal hnode => exact hadd hs (by cases hnode <;> rfl)
  | nameUse | postfixOperation | member => exact hadd hs rfl
  | prefixOperation _ _ _ _ ih | returns _ _ _ _ _ ih => exact hadd (ih nofun hs) rfl
  | call _ _ _ _ _ ih | structLiteral _ _ _ _ ih | scopeBody _ ih =>
    exact hadd (ih True.intro hs) rfl
  | @binaryOperation _ _ _ _ op type _ _ _ _ _ _ hright _ _ _ ih =>
    refine (ih nofun hs).pushExpr fun l hl => ?_
    exact (hready l hl).mono hright.extends
  | argumentsCons _ _ _ _ hseparates _ _ ih ih' =>
    exact hadd (ih' True.intro ((ih nofun hs).congr (congrArg Tree.exprs hseparates.tree))) rfl
  | scope hopen _ hclose ih =>
    exact (ih True.intro (hs.congr hopen.exprs)).congr hclose.exprs
  | branch hopen _ _ _ _ hclose ih ih' ih'' =>
    have hbody := ih'' True.intro (ih' True.intro (ih nofun (hs.congr hopen.exprs)))
    exact hadd (hbody.congr hclose.exprs) rfl
  | loopEndless hopen _ _ _ _ hclose ih ih' =>
    have hbody := ih' True.intro (hadd (ih nofun (hs.congr hopen.exprs)) rfl)
    exact hadd (hbody.congr hclose.exprs) rfl
  | loopWhile hopen _ _ _ _ hclose ih ih' =>
    have hbody := ih' True.intro (ih nofun (hs.congr hopen.exprs))
    exact hadd (hbody.congr hclose.exprs) rfl
  | loopCounted hopen _ _ _ _ _ _ _ _ hclose ih₁ ih₂ ih₃ ih₄ =>
    have hhead := ih₃ nofun (ih₂ nofun (ih₁ nofun (hs.congr hopen.exprs)))
    exact hadd ((ih₄ True.intro hhead).congr hclose.exprs) rfl
  | groupParameters hopen _ _ _ hresult hclose ih =>
    have hcontent := ih nofun (hs.congr hopen.exprs)
    have hheader := hcontent.congr (congrArg Tree.exprs hresult.tree)
    exact hadd (hheader.congr hclose.exprs) rfl
  | groupExpression hopen _ _ _ _ hclose ih =>
    exact hadd ((ih nofun (hs.congr hopen.exprs)).congr hclose.exprs) rfl
  | function _ _ _ hnamed henter _ _ hclose hbind ih =>
    have hquiet := (Quiet.named hnamed).trans (Quiet.bindNew.trans henter.quiet)
    have hbody := (ih True.intro (hs.congr hquiet.exprs)).congr hclose.exprs
    obtain rfl := Tree.bindBody_ok hbind
    exact hadd (hbody.congr rfl) rfl
  | declaration _ ih => exact hadd (ih True.intro (hs.congr (Quiet.named rfl).exprs)) rfl
  | definitionFunction _ _ htype _ _ _ _ _ ih ih' | definitionRecord _ _ htype _ _ _ _ _ ih ih'
  | definitionVariable _ _ htype _ _ _ _ _ ih ih' =>
    exact ih' True.intro (ih True.intro (hs.congr (congrArg Tree.exprs htype.tree)))
  | record _ hopen _ _ hclose ih =>
    exact hadd ((ih True.intro (hs.congr hopen.exprs)).congr hclose.exprs) rfl
  | typedef => exact hadd (hs.congr (Quiet.named rfl).exprs) rfl

/-- In a source that is accepted operations on two operands group to the right. -/
theorem combed_of_parse {tokens : TokenList} {t : Tree} (h : parse tokens = .ok t) : t.Combed := by
  obtain ⟨body, log, s, hread, rfl⟩ := parse_reads h
  have hsequence : s.tree.Combed := hread.combed True.intro fun _ _ _ he => by cases he
  exact (hsequence.pushExpr (e := ⟨.scope body Tree.mainFrame, _⟩) nofun).congr rfl

end Grammar

end OnePass

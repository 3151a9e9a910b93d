import OnePass.Proofs.Course
import OnePass.Proofs.Building

/-!
# Names in nodes

A node that keeps a name, as it was written, was made with a token that is that name. The tokens
stay the same from state to state, and so it is enough that every node that is made on the way keeps
no name or one of the tokens (`Spells`). The phrases that make nodes with names are given the name
as a token, or else find it before them.
-/

namespace OnePass

/-- The name that a node keeps as it was written. -/
def Node.name? : Node → Option String
  | .name word _ | .definition word _ _ _ _ | .function word _ _ _ | .typedef word _ _ _
  | .member _ word _ => some word
  | _ => none

/-- The node keeps no name but one of the tokens. -/
def Node.Called (tokens : TokenList) (node : Node) : Prop :=
  ∀ name, node.name? = some name → tokens.Names name

namespace Grammar

variable {s s₁ s₂ s' : State} {log : List Binding} {frame : FrameId} {node : Node} {span : Span}
  {id : ExprId} {φ : Phrase}

/-- The tokens stay, and the nodes that are made keep names of them. -/
structure Spells (s s' : State) : Prop where
  tokens : s'.cursor.tokens = s.cursor.tokens
  names : ∀ e ∈ s'.tree.exprs, e ∈ s.tree.exprs ∨ e.node.Called s.cursor.tokens

namespace Spells

theorem refl : Spells s s := ⟨rfl, fun _ => .inl⟩

theorem trans (h : Spells s s₁) (h' : Spells s₁ s') : Spells s s' := by
  refine ⟨h'.tokens.trans h.tokens, fun e he => ?_⟩
  rcases h'.names e he with hold | hnew
  · exact h.names e hold
  · exact .inr (h.tokens ▸ hnew)

theorem still (hstep : Step s log s') (hexprs : s'.tree.exprs = s.tree.exprs) : Spells s s' :=
  ⟨hstep.forward.tokens, fun _ he => .inl (hexprs ▸ he)⟩

theorem next : Spells s s.next := .still .next rfl

theorem past {wanted : TokenSet} : Spells s (s.past wanted) := .still .past rfl

theorem opens (h : Opens s frame s') : Spells s s' := .still (.opens h) h.exprs

theorem closes (h : Closes s s') : Spells s s' := .still (.closes h) h.exprs

/-- What is read in a frame of its own. -/
theorem within (hopen : Opens s frame s₁) (h : Spells s₁ s₂) (hclose : Closes s₂ s') :
    Spells s s' :=
  (Spells.opens hopen).trans (h.trans (.closes hclose))

theorem install {entity : Entity} : Spells s (s.install entity) :=
  .trans (.still .addEntity rfl) (.still (@Step.bind _ _ _ 0) rfl)

theorem add (hnode : node.Called s.cursor.tokens) : Spells s (s.add node span) := by
  refine ⟨rfl, fun e he => ?_⟩
  rcases Array.mem_push.1 he with hold | rfl
  · exact .inl hold
  · exact .inr hnode

/-- A node that keeps no name. -/
theorem made (h : Spells s s') (hnode : node.name? = none) : Spells s (s'.add node span) :=
  h.trans (.add fun name hname => by rw [hnode] at hname; cases hname)

theorem mem {token : Token} (h : Spells s s') (htoken : token ∈ s.cursor.tokens.toList) :
    token ∈ s'.cursor.tokens.toList := by
  rwa [h.tokens]

/-- A node that keeps the name that a token is. -/
theorem named {token : Token} (h : Spells s s')
    (htoken : token ∈ s.cursor.tokens.toList ∧ token.kind = .name)
    (hnode : node.name? = some token.text) : Spells s (s'.add node span) :=
  h.trans (.add fun _ hname =>
    ⟨token, h.mem htoken.1, htoken.2, Option.some.inj (hnode.symm.trans hname)⟩)

end Spells

theorem DeclaredType.spells {op : DefOp} {type : Option EntityId}
    (h : DeclaredType op s type s') : Spells s s' := by
  cases h with
  | constant | inferred => exact .refl
  | named => exact .next

theorem ResultType.spells {type : EntityId} (h : ResultType s type s') : Spells s s' := by
  cases h with
  | nothing => exact .refl
  | named => exact Spells.next.trans .next

theorem Separates.spells {rest : List EntityId} {closing : TokenSet}
    (h : Separates rest closing s s') : Spells s s' := by
  cases h with
  | last => exact .past
  | comma => exact Spells.past.trans .next
  | surplus => exact (Spells.past.trans .next).trans .past

/-- The names that the phrase is given are among the tokens. -/
def Phrase.Worded (tokens : TokenList) : Phrase → Prop
  | nameUse name _ => name ∈ tokens.toList ∧ name.kind = .name
  | φ => φ.Spelt tokens

theorem Begins.worded {token : Token} {closing : TokenSet} {left : Option ExprId}
    {tokens : TokenList} (h : Begins token closing id left φ) (htoken : token ∈ tokens.toList) :
    φ.Worded tokens := by
  cases h with
  | name hkind => exact ⟨htoken, hkind⟩
  | _ => exact True.intro

/-- Every phrase keeps to the names of the source. -/
theorem Reads.spells (h : Reads φ s log s') (hworded : φ.Worded s.cursor.tokens) :
    Spells s s' := by
  induction h with
  | stepClosing | extendClosing | extendBrace | elseNone | nextNone | initialNone => exact .refl
  | stepNewline | typeName => exact .next
  | stepPrefix _ _ _ ih | stepPostfix _ _ _ ih | stepOperator _ _ _ _ ih | initialSome _ _ ih
  | elseSome _ _ ih => exact Spells.next.trans (ih trivial)
  | stepOperand _ _ _ _ _ _ _ ih =>
    exact Spells.next.trans (ih (Spells.next.mem (TokenList.get_mem _ _)))
  | nameDefinition _ _ ih =>
    exact Spells.next.trans (ih ⟨Spells.next.mem hworded.1, hworded.2⟩)
  | nameAlone _ _ ih => exact ih hworded
  | operand hbegins _ ih => exact ih (hbegins.worded hworded)
  | initialConstant _ ih => exact ih trivial
  | extendStep _ _ _ _ _ ih ih' => exact (ih trivial).trans (ih' trivial)
  | sequenceClosing | argumentsNil => exact Spells.past.trans .next
  | sequenceItem _ _ _ _ ih ih' => exact Spells.past.trans ((ih trivial).trans (ih' trivial))
  | literal hnode => cases hnode <;> exact Spells.refl.made rfl
  | nameUse => exact Spells.refl.named hworded rfl
  | postfixOperation => exact Spells.refl.made rfl
  | prefixOperation _ _ _ _ ih | binaryOperation _ _ _ _ _ ih | returns _ _ _ _ _ ih
  | call _ _ _ _ _ ih | structLiteral _ _ _ _ ih | scopeBody _ ih => exact (ih trivial).made rfl
  | argumentsCons _ _ _ _ hseparates _ _ ih ih' =>
    have hvalue := Spells.past.trans (ih trivial)
    exact (hvalue.trans (hseparates.spells.trans (ih' trivial))).made rfl
  | scope hopen _ hclose ih => exact .within hopen (ih trivial) hclose
  | scopeAfter _ _ ih => exact Spells.past.trans (Spells.next.trans (ih trivial))
  | branch hopen _ _ _ _ hclose ih ih' ih'' =>
    have hinner := (ih trivial).trans ((ih' trivial).trans (ih'' trivial))
    exact (Spells.within hopen hinner hclose).made rfl
  | loopEndless hopen _ _ _ _ hclose ih ih' =>
    have hinner := ((ih trivial).made rfl).trans (ih' trivial)
    exact (Spells.within hopen hinner hclose).made rfl
  | loopWhile hopen _ _ _ _ hclose ih ih' =>
    have hinner := (ih trivial).trans (ih' trivial)
    exact (Spells.within hopen hinner hclose).made rfl
  | loopCounted hopen _ _ _ _ _ _ _ _ hclose ih₁ ih₂ ih₃ ih₄ =>
    have hcond := ((ih₁ trivial).trans .next).trans (ih₂ trivial)
    have hinner := ((hcond.trans .next).trans (ih₃ trivial)).trans (ih₄ trivial)
    exact (Spells.within hopen hinner hclose).made rfl
  | groupParameters hopen _ _ _ hresult hclose ih =>
    have hinner := ((ih trivial).trans .next).trans hresult.spells
    exact (Spells.within hopen hinner hclose).made rfl
  | groupExpression hopen _ _ _ _ hclose ih =>
    have hinner := (ih trivial).trans .next
    exact (Spells.within hopen hinner hclose).made rfl
  | @function name _ _ _ _ _ _ canonical _ _ _ tree s s₁ s₂ s₃ s₄ _ _ _ hnamed henter _ _ hclose
      hbind ih =>
    have hheader : Spells s s₂ := by
      obtain ⟨log, htrail⟩ := @Trail.named _ _ _ _ canonical hnamed
      refine ⟨(htrail.snoc (.enters henter)).forward.tokens, fun e he => .inl ?_⟩
      rwa [henter.exprs, Quiet.bindNew.exprs, (Quiet.named hnamed).exprs] at he
    have hbody := Spells.past.trans (Spells.next.trans (ih trivial))
    have hinner := (Spells.still .inside rfl).trans (hbody.trans (.still .outside rfl))
    have hclosed := hheader.trans (hinner.trans (.closes hclose))
    have hall := hclosed.trans (.still (.bindBody hbind) (by
      obtain rfl := Tree.bindBody_ok hbind
      rfl))
    exact hall.named hworded rfl
  | nextSome _ _ _ _ ih => exact Spells.next.trans (Spells.past.trans (ih trivial))
  | declaration _ ih => exact (Spells.install.trans (ih trivial)).named hworded rfl
  | definitionFunction _ _ htype _ _ _ _ _ ih ih' | definitionRecord _ _ htype _ _ _ _ _ ih ih'
  | definitionVariable _ _ htype _ _ _ _ _ ih ih' =>
    have hinitial := htype.spells.trans (ih trivial)
    exact hinitial.trans (ih' ⟨hinitial.mem hworded.1, hworded.2⟩)
  | record _ hopen _ _ hclose ih =>
    have hinner := (Spells.still .inside rfl).trans ((ih trivial).trans (.still .outside rfl))
    exact ((Spells.past.trans .next).trans (.within hopen hinner hclose)).made rfl
  | typedef => exact Spells.install.named hworded rfl
  | member hat =>
    exact Spells.next.named ⟨TokenList.get_mem _ _, TokenSet.mem_singleton.1 hat⟩ rfl

/-- In a source that is accepted, nodes keep names of the source. -/
theorem called_of_parse {tokens : TokenList} {tree : Tree} (h : parse tokens = .ok tree) :
    ∀ id e, tree.expr? id = some e → e.node.Called tokens := by
  obtain ⟨body, log, s, hread, rfl⟩ := parse_reads h
  intro id e he
  have hspells := (hread.spells trivial).names
  rcases Array.mem_push.1 (Array.mem_of_getElem? he) with hold | rfl
  · rcases hspells e hold with hnone | hcalled
    · exact absurd hnone (Array.not_mem_empty e)
    · exact hcalled
  · intro name hname
    cases hname

end Grammar

end OnePass

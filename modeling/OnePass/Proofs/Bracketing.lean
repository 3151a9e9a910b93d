import Mathlib.Data.List.Basic
import OnePass.Proofs.Faithful
import OnePass.Proofs.Growth

/-!
# Bracketing

A production leaves the open frames and the constructs as it found them. Of the frames that
were there it changes the innermost open one at most; what opens a frame of its own and
closes it again changes none (`Phrase.Touches`). The exception is a function, whose body is
read in the frame of its signature. A definition is none, though it reads functions: the
signature is new then, and with it its frame.

`Leaves T s s'` says all this of two states, with `T` the frames that may have changed. It
composes, so that `Reads.leaves` goes through the rules one by one. The rules for functions
and definitions want to know where the frame of a signature comes from, so `Leaves` also keeps
that the signatures and records made on the way have frames made on the way.
-/

namespace OnePass

/-- The frame in which the parameters of a signature or the members of a record live. -/
def Node.ownFrame? : Node → Option FrameId
  | .signature _ _ frame => some frame
  | .record _ _ frame => some frame
  | _ => none

/-- The frame in which the parameters of a signature live. -/
def Node.signatureFrame? : Node → Option FrameId
  | .signature _ _ frame => some frame
  | _ => none

theorem Node.ownFrame?_of_signatureFrame? {node : Node} {frame : FrameId}
    (h : node.signatureFrame? = some frame) : node.ownFrame? = some frame := by
  cases node with
  | signature => exact h
  | _ => cases h

namespace Tree

variable {t t' : Tree}

/-! ## Look-up in unchanged frames -/

theorem chainWithin_congr (ht : t.Framed) (hframes : ∀ f, t.HasFrame f → t'.frame? f = t.frame? f)
    (steps : Nat) {id : FrameId} (hid : t.HasFrame id) :
    t'.chainWithin steps id = t.chainWithin steps id ∧
      ∀ f ∈ t.chainWithin steps id, t.HasFrame f := by
  induction steps generalizing id with
  | zero => exact ⟨rfl, nofun⟩
  | succ steps ih =>
    unfold chainWithin
    rw [hframes id hid]
    cases hparent : (t.frame? id).bind Frame.parent with
    | none => exact ⟨rfl, by simpa using hid⟩
    | some parent =>
      obtain ⟨f, hf, hfparent⟩ := Option.bind_eq_some_iff.1 hparent
      have hlt : parent.index < id.index := ht.parent hf hfparent
      have hhas : t.HasFrame parent := Nat.lt_trans hlt hid
      obtain ⟨heq, hmem⟩ := ih hhas
      refine ⟨by simp only [heq], ?_⟩
      intro g hg
      rcases List.mem_cons.1 hg with rfl | hg
      · exact hid
      · exact hmem g hg

/-- A search along frames that have not changed finds the same. -/
theorem searchFrom_congr {α : Type} (ht : t.Framed)
    (hframes : ∀ f, t.HasFrame f → t'.frame? f = t.frame? f) {id : FrameId} (hid : t.HasFrame id)
    (answer : Frame → Option α) : t'.searchFrom id answer = t.searchFrom id answer := by
  obtain ⟨heq, hmem⟩ := chainWithin_congr ht hframes (id.index + 1) hid
  unfold searchFrom chain
  rw [heq, ← List.head?_filterMap, ← List.head?_filterMap]
  refine congrArg List.head? (List.filterMap_congr ?_)
  intro f hf
  rw [hframes f (hmem f hf)]

theorem currentFrame_congr (hstack : t'.stack = t.stack) : t'.currentFrame = t.currentFrame := by
  unfold currentFrame
  rw [hstack]

theorem find?_congr (ht : t.Framed) (hframes : ∀ f, t.HasFrame f → t'.frame? f = t.frame? f)
    (hstack : t'.stack = t.stack) (name : String) : t'.find? name = t.find? name := by
  unfold find? findFrom?
  rw [currentFrame_congr hstack]
  exact searchFrom_congr ht hframes ht.current _

end Tree

namespace Grammar

variable {s s₁ s₂ s' : State} {t t₁ t' : Tree} {frame : FrameId} {log : List Binding}
  {T T' : FrameId → Prop}

/-! ## What a production leaves -/

/-- Between the two trees the frames in `T` may have changed and no other thing that was
there; the signatures and records made between them have frames made between them. -/
structure Leaves (T : FrameId → Prop) (t t' : Tree) : Prop where
  stack : t'.stack = t.stack
  grows : t.Extends t'
  frames : ∀ f, t.HasFrame f → ¬T f → t'.frame? f = t.frame? f
  owned : ∀ {id e f}, t'.expr? id = some e → e.node.ownFrame? = some f →
    t.HasExpr id ∨ ¬t.HasFrame f

/-- Only the innermost open frame may have changed. -/
abbrev Within (t t' : Tree) : Prop := Leaves (fun f => f = t.currentFrame) t t'

namespace Leaves

theorem current (h : Leaves T t t') : t'.currentFrame = t.currentFrame :=
  Tree.currentFrame_congr h.stack

theorem mono (h : Leaves T t t') (hT : ∀ f, t.HasFrame f → T f → T' f) : Leaves T' t t' := by
  refine ⟨h.stack, h.grows, ?_, h.owned⟩
  intro f hf hnot
  exact h.frames f hf fun hTf => hnot (hT f hf hTf)

/-- What changes nothing changes at most the innermost frame. -/
theorem within (h : Leaves (fun _ => False) t t') : Within t t' := h.mono fun _ _ => False.elim

theorem trans (h : Leaves T t t₁) (h' : Leaves T t₁ t') : Leaves T t t' := by
  refine ⟨h'.stack.trans h.stack, h.grows.trans h'.grows, ?_, ?_⟩
  · intro f hf hnot
    rw [h'.frames f (h.grows.hasFrame hf) hnot, h.frames f hf hnot]
  · intro id e f he hown
    rcases h'.owned he hown with hid | hf
    · rw [h'.grows.expr_eq hid] at he
      exact h.owned he hown
    · exact .inr fun hold => hf (h.grows.hasFrame hold)

theorem refl : Leaves T t t :=
  ⟨rfl, .refl, fun _ _ _ => rfl, fun he _ => .inl (Tree.hasExpr_iff.2 ⟨_, he⟩)⟩

/-- One more expression; a signature or record has a frame that was not there before. -/
theorem add (h : Leaves T t t₁) {e : Expr}
    (hown : ∀ f, e.node.ownFrame? = some f → ¬t.HasFrame f) : Leaves T t (t₁.pushExpr e).2 := by
  refine ⟨h.stack, h.grows.trans (t₁.pushExpr_extends e), h.frames, ?_⟩
  intro id x f hx hown'
  rw [Tree.expr?_pushExpr] at hx
  split at hx
  · cases hx
    exact .inr (hown f hown')
  · exact h.owned hx hown'

/-- One more expression that is no signature and no record. -/
theorem push (h : Leaves T t t₁) {e : Expr} (hown : e.node.ownFrame? = none) :
    Leaves T t (t₁.pushExpr e).2 := h.add fun f hf => by rw [hown] at hf; cases hf

/-- A change of a frame that may change. -/
theorem modifyFrame {id : FrameId} {g : Frame → Frame} (hparent : ∀ x, (g x).parent = x.parent)
    (hdepth : ∀ x, (g x).depth = x.depth) (hT : T id) : Leaves T t (t.modifyFrame id g) := by
  refine ⟨rfl, t.modifyFrame_extends id hparent hdepth, ?_, ?_⟩
  · intro f _ hnot
    have hne : id ≠ f := fun h => hnot (h ▸ hT)
    rw [Tree.frame?_modifyFrame, if_neg hne]
  · intro id e f he _
    exact .inl (Tree.hasExpr_iff.2 ⟨e, he⟩)

theorem pushEntity {entity : Entity} : Leaves T t (t.pushEntity entity).2 :=
  ⟨rfl, t.pushEntity_extends _, fun _ _ _ => rfl,
    fun he _ => .inl (Tree.hasExpr_iff.2 ⟨_, he⟩)⟩

end Leaves

namespace Within

theorem trans (h : Within t t₁) (h' : Within t₁ t') : Within t t' :=
  Leaves.trans h (h'.mono fun _ _ hf => hf.trans h.current)

theorem bind {name : String} {entity : EntityId} : Within t (t.bind name entity) :=
  Leaves.modifyFrame (fun _ => rfl) (fun _ => rfl) rfl

theorem install {entity : Entity} : Within s.tree (s.install entity).tree :=
  trans Leaves.pushEntity bind

theorem bindNew {name : String} {entity : EntityId} :
    Within s.tree (s.bindNew name entity).tree := by
  unfold State.bindNew
  split
  · exact bind
  · exact .refl

theorem named {entity : Entity} {name : String}
    (h : s₁ = (s.addEntity entity).bind name s.newEntity) : Within s.tree s₁.tree := by
  subst h
  exact trans Leaves.pushEntity bind

theorem bindBody {function : EntityId} {body : ExprId}
    (h : t.bindBody t.currentFrame function body = .ok t') : Within t t' := by
  obtain rfl := Tree.bindBody_ok h
  exact Leaves.modifyFrame (fun _ => rfl) (fun _ => rfl) rfl

end Within

theorem fixedArena_eq {α : Type} {capacity : Nat} {a b : FixedArena α capacity}
    (h : a.items = b.items) : a = b := by
  cases a
  cases b
  cases h
  rfl

theorem pop_push_stack (hsize : t.stack.items.size < Tree.depthLimit + 1)
    (h : t'.stack = (t.onTop frame hsize).stack) : t'.offTop.stack = t.stack := by
  refine fixedArena_eq ?_
  show t'.stack.items.pop = t.stack.items
  rw [h]
  exact Array.pop_push

theorem currentFrame_onTop {hsize : t.stack.items.size < Tree.depthLimit + 1} :
    (t.onTop frame hsize).currentFrame = frame := by
  unfold Tree.currentFrame FixedArena.back? Tree.onTop
  rw [Array.back?_push]
  rfl

theorem Opens.constructs (h : Opens s frame s') : s'.constructs = s.constructs := h.2.2

theorem Enters.constructs (h : Enters s frame s') : s'.constructs = s.constructs := h.2.2

theorem Closes.constructs (h : Closes s s') : s'.constructs = s.constructs := by
  obtain ⟨_, _, _, h⟩ := h
  exact h

/-- Between the opening of a frame and its closing the tree only grows. -/
theorem Opens.extends (hopen : Opens s frame s₁) (hclose : Closes s₂ s')
    (h : s₁.tree.Extends s₂.tree) : s.tree.Extends s'.tree :=
  (Step.opens hopen).extends.trans (h.trans (Step.closes hclose).extends)

/-- What opens a frame and closes it again changes nothing that was there. -/
theorem Opens.leaves (hopen : Opens s frame s₁) (hclose : Closes s₂ s')
    (h : Within s₁.tree s₂.tree) : Leaves (fun _ => False) s.tree s'.tree := by
  have hgrows := hopen.extends hclose h.grows
  obtain ⟨rfl, hsize, rfl⟩ := hopen.eq
  obtain ⟨_, rfl⟩ := hclose.eq
  have hgrow := s.tree.withChild_extends
  refine ⟨pop_push_stack hsize h.stack, hgrows, ?_, ?_⟩
  · intro f hf _
    have hne : f.index ≠ s.tree.frames.size := Nat.ne_of_lt hf
    have hother : f ≠ Tree.currentFrame (s.tree.withChild.onTop ⟨s.tree.frames.size⟩ hsize) := by
      rw [currentFrame_onTop]
      rintro rfl
      exact hne rfl
    have hinner := h.frames f (hgrow.hasFrame hf) hother
    have houter := s.tree.frame?_withChild f
    rw [if_neg hne] at houter
    exact hinner.trans houter
  · intro id e f he hown
    rcases h.owned he hown with hid | hf
    · exact .inl hid
    · exact .inr fun hold => hf (hgrow.hasFrame hold)

/-- What enters a frame and closes it again may change that frame. -/
theorem Enters.leaves (henter : Enters s frame s₁) (hclose : Closes s₂ s')
    (h : Within s₁.tree s₂.tree) : Leaves (fun f => f = frame) s.tree s'.tree := by
  have hgrows := (Step.enters henter).extends.trans (h.grows.trans (Step.closes hclose).extends)
  obtain ⟨_, hsize, rfl⟩ := henter.eq
  obtain ⟨_, rfl⟩ := hclose.eq
  refine ⟨pop_push_stack hsize h.stack, hgrows, ?_, h.owned⟩
  intro f hf hne
  refine h.frames f hf ?_
  show f ≠ Tree.currentFrame (s.tree.onTop frame hsize)
  rwa [currentFrame_onTop]

/-! ## Answers -/

namespace Phrase

/-- The expression that the production answers. -/
def answer? : Phrase → Option ExprId
  | step _ _ answer | extend _ _ answer | arguments _ _ answer | elseScope answer
  | nextDefinition _ answer | initialValue _ _ _ answer => answer
  | operand _ _ _ answer | literal _ answer | nameUse _ answer | prefixOperation _ _ answer
  | postfixOperation _ _ answer | binaryOperation _ _ _ answer | call _ _ answer
  | structLiteral _ _ answer | scopeBody _ _ answer | scope _ answer | scopeAfter _ _ answer
  | branch _ answer | loop _ answer | returns _ _ answer | group _ answer | function _ _ answer
  | declaration _ _ _ _ _ answer | definition _ _ _ answer | nameOrDefinition _ _ answer
  | record _ answer | typedef _ _ _ answer | member _ _ answer => some answer
  | sequence .. | typeName .. => none

/-- The left part that the production may hand back as its answer. -/
def left? : Phrase → Option ExprId
  | step left _ _ | extend left _ _ => left
  | _ => none

end Phrase

/-- The expression was made between the two states. -/
def Made (s : State) (id : ExprId) (s' : State) : Prop :=
  ¬s.tree.HasExpr id ∧ s'.tree.HasExpr id

namespace Made

variable {id : ExprId}

theorem before (h : Made s₁ id s') (hgrows : s.tree.Extends s₁.tree) : Made s id s' :=
  ⟨fun hid => h.1 (hgrows.hasExpr hid), h.2⟩

theorem after (h : Made s id s₁) (hgrows : s₁.tree.Extends s'.tree) : Made s id s' :=
  ⟨h.1, hgrows.hasExpr h.2⟩

/-- The expression added last. -/
theorem add (hgrows : s.tree.Extends s'.tree) {node : Node} {span : Span} :
    Made s s'.newExpr (s'.add node span) := by
  have hsize : (s'.add node span).tree.exprs.size = s'.tree.exprs.size + 1 := Array.size_push _
  refine ⟨Nat.not_lt.2 hgrows.exprs_le, ?_⟩
  show s'.tree.exprs.size < (s'.add node span).tree.exprs.size
  omega

end Made

theorem Begins.answer {token : Token} {closing : TokenSet} {id : ExprId} {left : Option ExprId}
    {φ : Phrase} (h : Begins token closing id left φ) : φ.answer? = some id ∧ φ.left? = none := by
  cases h <;> exact ⟨rfl, rfl⟩

/-- A production answers the left part it was given or an expression that it made. -/
theorem Reads.answer {φ : Phrase} (h : Reads φ s log s') {id : ExprId}
    (hid : φ.answer? = some id) : φ.left? = some id ∨ Made s id s' := by
  induction h generalizing id with
  | stepClosing | elseNone | nextNone | initialNone | argumentsNil | sequenceClosing
  | sequenceItem | typeName => cases hid
  | stepNewline | extendClosing | extendBrace => exact .inl hid
  | stepPrefix _ _ _ ih | stepPostfix _ _ _ ih | stepOperator _ _ _ _ ih
  | stepOperand _ _ _ _ _ _ _ ih | elseSome _ _ ih | scopeAfter _ _ ih | initialSome _ _ ih
  | initialConstant _ ih | nameDefinition _ _ ih | nameAlone _ _ ih =>
    exact .inr ((ih hid).resolve_left nofun)
  | operand hbegins _ ih =>
    cases hid
    have hmade := ih hbegins.answer.1
    rw [hbegins.answer.2] at hmade
    exact .inr (hmade.resolve_left nofun)
  | @extendStep left _ next _ _ _ _ _ _ _ _ _ hstep hextend ih ih' =>
    rcases ih' hid with hleft | hmade
    · cases next with
      | none => exact .inl hleft
      | some next =>
        cases hleft
        rcases ih rfl with hleft | hmade
        · exact .inl hleft
        · exact .inr (hmade.after hextend.extends)
    · exact .inr (hmade.before hstep.extends)
  | literal | nameUse | postfixOperation =>
    cases hid
    exact .inr (.add .refl)
  | prefixOperation _ hread | binaryOperation _ hread | scopeBody hread | call _ _ _ hread
  | structLiteral _ _ hread | returns _ _ hread =>
    cases hid
    exact .inr (.add hread.extends)
  | member =>
    cases hid
    exact .inr (.add Step.next.extends)
  | typedef =>
    cases hid
    exact .inr (.add Within.install.grows)
  | scope hopen _ hclose ih =>
    have hmade := (ih hid).resolve_left nofun
    exact .inr ((hmade.before (Step.opens hopen).extends).after (Step.closes hclose).extends)
  | nextSome _ hread _ _ ih => exact .inr ((ih hid).resolve_left nofun)
  | argumentsCons hvalue _ _ _ hseparates hrest =>
    cases hid
    exact .inr (.add (hvalue.extends.trans (hseparates.trail.extends.trans hrest.extends)))
  | branch hopen hcond _ hthen helse hclose =>
    cases hid
    have hscopes := hthen.extends.trans helse.extends
    exact .inr (.add (hopen.extends hclose (hcond.extends.trans hscopes)))
  | loopEndless hopen hfirst _ _ hscope hclose =>
    cases hid
    have hbody := Step.add.extends.trans hscope.extends
    exact .inr (.add (hopen.extends hclose (hfirst.extends.trans hbody)))
  | loopWhile hopen hfirst _ _ hscope hclose =>
    cases hid
    exact .inr (.add (hopen.extends hclose (hfirst.extends.trans hscope.extends)))
  | loopCounted hopen hinit _ _ hcond _ _ hstep hscope hclose =>
    cases hid
    have hhead := hinit.extends.trans hcond.extends
    have hbody := hstep.extends.trans hscope.extends
    exact .inr (.add (hopen.extends hclose (hhead.trans hbody)))
  | groupParameters hopen hcontent _ _ hresult hclose =>
    cases hid
    exact .inr (.add (hopen.extends hclose (hcontent.extends.trans hresult.trail.extends)))
  | groupExpression hopen hcontent _ _ _ hclose =>
    cases hid
    exact .inr (.add (hopen.extends hclose hcontent.extends))
  | function _ _ _ hnamed henter _ hbody hclose hbind =>
    cases hid
    have hscope := (Step.enters henter).extends.trans hbody.extends
    have hafter := (Step.closes hclose).extends.trans (Step.bindBody hbind).extends
    have hbody := Within.bindNew.grows.trans (hscope.trans hafter)
    exact .inr (.add ((Within.named hnamed).grows.trans hbody))
  | declaration hnext =>
    cases hid
    exact .inr (.add (Within.install.grows.trans hnext.extends))
  | definitionFunction _ _ htype hinit _ _ _ _ _ ih
  | definitionRecord _ _ htype hinit _ _ _ _ _ ih
  | definitionVariable _ _ htype hinit _ _ _ _ _ ih =>
    have hmade := (ih hid).resolve_left nofun
    exact .inr (hmade.before (htype.trail.extends.trans hinit.extends))
  | record _ hopen hbody _ hclose =>
    cases hid
    exact .inr (.add (hopen.extends hclose hbody.extends))

/-! ## The bracketing of every production -/

namespace Phrase

/-- The frames that were there and that the production may change: none where it opens a
frame of its own or defines nothing, and else the innermost open one. The body of a function
is read in the frame of its signature. -/
def Touches (s : State) : Phrase → FrameId → Prop
  | literal .., _ | nameUse .., _ | typeName .., _ | postfixOperation .., _ | member .., _
  | scope .., _ | scopeAfter .., _ | elseScope .., _ | branch .., _ | loop .., _ | group .., _
  | record .., _ => False
  | function _ signature _, f => f = s.tree.currentFrame ∨
    ∃ e, s.tree.expr? signature = some e ∧ e.node.signatureFrame? = some f
  | _, f => f = s.tree.currentFrame

/-- The productions that change no frame that was there. -/
def Closed : Phrase → Prop
  | literal .. | nameUse .. | typeName .. | postfixOperation .. | member .. | scope ..
  | scopeAfter .. | elseScope .. | branch .. | loop .. | group .. | record .. => True
  | _ => False

theorem Closed.touches {φ : Phrase} (h : φ.Closed) (f : FrameId) : ¬φ.Touches s f := by
  cases φ <;> first | exact h.elim | exact id

end Phrase

theorem Begins.touches {token : Token} {closing : TokenSet} {id : ExprId} {left : Option ExprId}
    {φ : Phrase} (h : Begins token closing id left φ)
    (hleaves : Leaves (φ.Touches s) s.tree s'.tree) :
    Within s.tree s'.tree := by
  refine hleaves.mono ?_
  intro f _ hf
  cases h <;> first | exact hf | exact hf.elim

theorem DeclaredType.leaves {op : DefOp} {type : Option EntityId}
    (h : DeclaredType op s type s') : Leaves T s.tree s'.tree := by
  cases h <;> exact .refl

theorem ResultType.leaves {type : EntityId} (h : ResultType s type s') :
    Leaves T s.tree s'.tree := by
  cases h <;> exact .refl

theorem Separates.leaves {rest : List EntityId} {closing : TokenSet}
    (h : Separates rest closing s s') : Leaves T s.tree s'.tree := by
  cases h <;> exact .refl

/-- A definition of something else than a function changes the innermost frame only. -/
theorem Reads.leaves {φ : Phrase} (h : Reads φ s log s') : Leaves (φ.Touches s) s.tree s'.tree := by
  induction h with
  | stepClosing | stepNewline | extendClosing | extendBrace | sequenceClosing | typeName
  | argumentsNil | elseNone | nextNone | initialNone => exact .refl
  | stepPrefix _ _ _ ih | stepOperator _ _ _ _ ih | stepOperand _ _ _ _ _ _ _ ih
  | scopeAfter _ _ ih | elseSome _ _ ih | nextSome _ _ _ _ ih | initialConstant _ ih
  | initialSome _ _ ih | nameDefinition _ _ ih => exact ih
  | stepPostfix _ _ _ ih | nameAlone _ _ ih => exact ih.within
  | operand hbegins _ ih => exact hbegins.touches ih
  | extendStep _ _ _ _ _ ih ih' => exact Within.trans ih ih'
  | sequenceItem _ _ _ _ ih ih' => exact Within.trans ih ih'
  | literal hnode => exact (Leaves.refl).add (by cases hnode <;> exact nofun)
  | nameUse | postfixOperation | member => exact (Leaves.refl).push rfl
  | prefixOperation _ _ _ _ ih | binaryOperation _ _ _ _ _ ih | scopeBody _ ih
  | call _ _ _ _ _ ih | structLiteral _ _ _ _ ih | returns _ _ _ _ _ ih =>
    exact ih.push rfl
  | argumentsCons _ _ _ _ hseparates _ _ ih ih' =>
    exact ((Within.trans ih hseparates.leaves).trans ih').push rfl
  | scope hopen _ hclose ih => exact hopen.leaves hclose ih
  | branch hopen _ _ _ _ hclose ih ih' ih'' =>
    have hthen := ih'.within
    have helse := ih''.within
    exact (hopen.leaves hclose ((Within.trans ih hthen).trans helse)).push rfl
  | loopEndless hopen _ _ _ _ hclose ih ih' =>
    have hscope := ih'.within
    exact (hopen.leaves hclose (Within.trans (ih.push rfl) hscope)).push rfl
  | loopWhile hopen _ _ _ _ hclose ih ih' =>
    have hscope := ih'.within
    exact (hopen.leaves hclose (Within.trans ih hscope)).push rfl
  | loopCounted hopen _ _ _ _ _ _ _ _ hclose ih₁ ih₂ ih₃ ih₄ =>
    have hscope := ih₄.within
    exact (hopen.leaves hclose (((Within.trans ih₁ ih₂).trans ih₃).trans hscope)).push rfl
  | groupParameters hopen _ _ _ hresult hclose ih =>
    have hcontent := hopen.leaves hclose (Within.trans ih hresult.leaves)
    refine hcontent.add ?_
    rintro _ ⟨⟩
    rw [hopen.eq.1]
    exact Nat.lt_irrefl _
  | groupExpression hopen _ _ _ _ hclose ih => exact (hopen.leaves hclose ih).push rfl
  | @function _ _ _ _ _ _ _ canonical _ _ _ _ s s₁ _ _ _ hexpr _ _ hnamed henter _ _ hclose hbind
      ih =>
    have hhead : Within s.tree (s₁.bindNew canonical s.newEntity).tree :=
      (Within.named hnamed).trans Within.bindNew
    have hscope := henter.leaves hclose ih
    have hcurrent := hscope.current.trans hhead.current
    refine Leaves.push (((hhead.mono ?_).trans (hscope.mono ?_)).trans
      ((Within.bindBody hbind).mono ?_)) rfl
    · exact fun f _ hf => .inl hf
    · rintro f _ rfl
      exact .inr ⟨_, hexpr, rfl⟩
    · exact fun f _ hf => .inl (hf.trans hcurrent)
  | declaration _ ih => exact (Within.trans .install ih).push rfl
  | @definitionFunction _ _ _ _ _ init _ _ _ _ _ s s₁ s₂ s' _ _ htype hinit _ _ _ _ ih ih' =>
    have hinitial : Within s.tree s₂.tree := Within.trans htype.leaves ih
    have hmade : Made s₁ init s₂ := (hinit.answer rfl).resolve_left nofun
    -- the signature is new, and so is its frame, which therefore does not count
    have hboth : Leaves (fun f => f = s.tree.currentFrame ∨ ¬s.tree.HasFrame f) s.tree s'.tree := by
      refine (hinitial.mono fun f _ hf => .inl hf).trans (ih'.mono ?_)
      rintro f _ (hf | ⟨e, he, hown⟩)
      · exact .inl (hf.trans hinitial.current)
      · have hfresh := hinitial.owned he (Node.ownFrame?_of_signatureFrame? hown)
        exact .inr (hfresh.resolve_left fun hid => hmade.1 (htype.trail.extends.hasExpr hid))
    exact hboth.mono fun f hf hT => hT.resolve_right (not_not_intro hf)
  | definitionRecord _ _ htype _ _ _ _ _ ih ih' =>
    exact (Within.trans htype.leaves ih).trans ih'
  | definitionVariable _ _ htype _ _ _ _ _ ih ih' =>
    exact (Within.trans htype.leaves ih).trans ih'
  | record _ hopen _ _ hclose ih =>
    refine (hopen.leaves hclose ih).add ?_
    rintro _ ⟨⟩
    rw [hopen.eq.1]
    exact Nat.lt_irrefl _
  | typedef => exact Within.install.push rfl

theorem DeclaredType.constructs {op : DefOp} {type : Option EntityId}
    (h : DeclaredType op s type s') : s'.constructs = s.constructs := by
  cases h <;> rfl

theorem ResultType.constructs {type : EntityId} (h : ResultType s type s') :
    s'.constructs = s.constructs := by
  cases h <;> rfl

theorem Separates.constructs {rest : List EntityId} {closing : TokenSet}
    (h : Separates rest closing s s') : s'.constructs = s.constructs := by
  cases h <;> rfl

theorem State.bindNew_entities (s : State) (name : String) (entity : EntityId) :
    (s.bindNew name entity).tree.entities = s.tree.entities := by
  unfold State.bindNew
  split <;> rfl

theorem State.bindNew_constructs (s : State) (name : String) (entity : EntityId) :
    (s.bindNew name entity).constructs = s.constructs := by
  unfold State.bindNew
  split <;> rfl

/-- Every construct that is begun is ended. -/
theorem Reads.constructs {φ : Phrase} (h : Reads φ s log s') : s'.constructs = s.constructs := by
  induction h with
  | stepClosing | stepNewline | extendClosing | extendBrace | sequenceClosing | typeName
  | argumentsNil | elseNone | nextNone | initialNone | literal | nameUse | postfixOperation
  | member | typedef => rfl
  | stepPrefix _ _ _ ih | stepPostfix _ _ _ ih | stepOperator _ _ _ _ ih
  | stepOperand _ _ _ _ _ _ _ ih | operand _ _ ih | scopeAfter _ _ ih | elseSome _ _ ih
  | nextSome _ _ _ _ ih | initialConstant _ ih | initialSome _ _ ih | nameDefinition _ _ ih
  | nameAlone _ _ ih | prefixOperation _ _ _ _ ih | binaryOperation _ _ _ _ _ ih
  | scopeBody _ ih | call _ _ _ _ _ ih | structLiteral _ _ _ _ ih | returns _ _ _ _ _ ih
  | declaration _ ih => exact ih
  | extendStep _ _ _ _ _ ih ih' | sequenceItem _ _ _ _ ih ih' => exact ih'.trans ih
  | argumentsCons _ _ _ _ hseparates _ _ ih ih' =>
    exact ih'.trans (hseparates.constructs.trans ih)
  | scope hopen _ hclose ih => exact hclose.constructs.trans (ih.trans hopen.constructs)
  | branch hopen _ _ _ _ hclose ih ih' ih'' =>
    exact hclose.constructs.trans (ih''.trans (ih'.trans (ih.trans hopen.constructs)))
  | loopEndless hopen _ _ _ _ hclose ih ih' | loopWhile hopen _ _ _ _ hclose ih ih' =>
    exact hclose.constructs.trans (ih'.trans (ih.trans hopen.constructs))
  | loopCounted hopen _ _ _ _ _ _ _ _ hclose ih₁ ih₂ ih₃ ih₄ =>
    have hhead := ih₂.trans (ih₁.trans hopen.constructs)
    exact hclose.constructs.trans (ih₄.trans (ih₃.trans hhead))
  | groupParameters hopen _ _ _ hresult hclose ih =>
    have hcontent := hresult.constructs.trans (ih.trans hopen.constructs)
    exact hclose.constructs.trans hcontent
  | groupExpression hopen _ _ _ _ hclose ih =>
    exact hclose.constructs.trans (ih.trans hopen.constructs)
  | function _ _ _ hnamed henter _ _ hclose _ ih =>
    subst hnamed
    have hhead := henter.constructs.trans (State.bindNew_constructs _ _ _)
    have hbody := congrArg List.tail ih
    exact hclose.constructs.trans (hbody.trans hhead)
  | definitionFunction _ _ htype _ _ _ _ _ ih ih' | definitionRecord _ _ htype _ _ _ _ _ ih ih'
  | definitionVariable _ _ htype _ _ _ _ _ ih ih' =>
    exact ih'.trans (ih.trans htype.constructs)
  | record _ hopen _ _ hclose ih =>
    have hbody := congrArg List.tail ih
    exact hclose.constructs.trans (hbody.trans hopen.constructs)

/-! ## The frame rule -/

/-- What a production leaves as it found it. -/
structure Brackets (φ : Phrase) (s s' : State) : Prop where
  stack : s'.tree.stack = s.tree.stack
  constructs : s'.constructs = s.constructs
  expr : ∀ id, s.tree.HasExpr id → s'.tree.expr? id = s.tree.expr? id
  entity : ∀ id, s.tree.HasEntity id → s'.tree.entity? id = s.tree.entity? id
  frame : ∀ f, s.tree.HasFrame f → ¬φ.Touches s f → s'.tree.frame? f = s.tree.frame? f
  find : φ.Closed → ∀ name, s'.tree.find? name = s.tree.find? name

theorem Reads.brackets {φ : Phrase} (h : Reads φ s log s') (hs : s.tree.Framed) :
    Brackets φ s s' := by
  have hleaves := h.leaves
  refine ⟨hleaves.stack, h.constructs, fun _ hid => hleaves.grows.expr_eq hid,
    fun _ hid => hleaves.grows.entity_eq hid, hleaves.frames, ?_⟩
  intro hclosed name
  exact Tree.find?_congr hs (fun f hf => hleaves.frames f hf (hclosed.touches f))
    hleaves.stack name

/-- What follows some parameters ends the frame that their parenthesis opened. -/
theorem signature_closes {paren : Token} {params : Option ExprId} {id : ExprId}
    (h : signature paren params frame s = .ok id s') :
    s'.tree.stack = s.tree.offTop.stack ∧ s'.constructs = s.constructs ∧
      s'.tree.frames = s.tree.frames ∧ s'.tree.entities = s.tree.entities ∧
      ∀ id, s.tree.HasExpr id → s'.tree.expr? id = s.tree.expr? id := by
  obtain ⟨result, s₁, hresult, h⟩ := resultType_ok h
  obtain ⟨_, s₂, hclose, h⟩ := bind_ok.1 h
  rw [previousSpan_bind] at h
  obtain ⟨rfl, rfl⟩ := push_ok.1 h
  obtain ⟨_, rfl⟩ := (closeFrame_ok hclose).eq
  have hgrows := (s.tree.offTop.pushExpr_extends ⟨.signature params result frame,
    paren.span.merge s₁.cursor.previousSpan⟩)
  cases hresult <;> exact ⟨rfl, rfl, rfl, rfl, fun id hid => hgrows.expr_eq hid⟩

theorem stack_withBuiltins : Tree.withBuiltins.stack = Tree.empty.stack := rfl

theorem program_brackets {tokens : TokenList} {u : Unit}
    (h : program (.initial tokens) = .ok u s') :
    s'.tree.currentFrame = Tree.mainFrame ∧ s'.constructs = [] := by
  obtain ⟨body, log, s₁, hread, rfl⟩ := program_reads h
  exact ⟨hread.leaves.current.trans (Tree.currentFrame_congr stack_withBuiltins), hread.constructs⟩

/-- Productions leave the open frames and the constructs as they found them, change nothing
that was there but the innermost frame and, for a function, that of its signature, and a
reading ends where it began. -/
theorem productions_bracket :
    (∀ (n : Nat) (φ : Phrase) (s s' : State), Reachable s.tree → φ.Ran (level n) s s' →
      Brackets φ s s') ∧
    (∀ (paren : Token) (params : Option ExprId) (frame : FrameId) (id : ExprId) (s s' : State),
      signature paren params frame s = .ok id s' →
        s'.tree.stack = s.tree.offTop.stack ∧ s'.constructs = s.constructs ∧
          s'.tree.frames = s.tree.frames ∧ s'.tree.entities = s.tree.entities ∧
          ∀ id, s.tree.HasExpr id → s'.tree.expr? id = s.tree.expr? id) ∧
    ∀ (tokens : TokenList) (s' : State), program (.initial tokens) = .ok () s' →
      s'.tree.currentFrame = Tree.mainFrame ∧ s'.constructs = [] := by
  refine ⟨?_, ?_, ?_⟩
  · intro n φ s s' hs hrun
    obtain ⟨log, hread⟩ := hrun.reads
    exact hread.brackets (framed_of_reachable hs)
  · intro paren params frame id s s' h
    exact signature_closes h
  · intro tokens s' h
    exact program_brackets h

/-! ## A function -/

/-- The tokens of `{ x := 1 }`. -/
def bodyTokens : TokenList where
  body := #[⟨.openBrace, "\x7b", default⟩, ⟨.name, "x", default⟩, ⟨.define, ":", default⟩,
    ⟨.assign, "=", default⟩, ⟨.decimal, "1", default⟩, ⟨.closeBrace, "\x7d", default⟩]
  last := ⟨.eof, "", default⟩

/-- Inside the parentheses of a function without parameters. -/
def insideSignature : State :=
  ⟨.start bodyTokens, Tree.withBuiltins.withChild.onTop ⟨1⟩ (by decide), []⟩

/-- Before the body of the function, when its signature has been read. -/
def afterSignature : State :=
  State.add { insideSignature with tree := insideSignature.tree.offTop }
    (.signature none Builtin.void.handle ⟨1⟩) default

theorem reachable_afterSignature : Reachable afterSignature.tree := by
  have hopen : Opens (.initial bodyTokens) ⟨1⟩ insideSignature := ⟨rfl, rfl, rfl⟩
  have hclose :
      Closes insideSignature { insideSignature with tree := insideSignature.tree.offTop } :=
    ⟨⟨1⟩, rfl, rfl, rfl⟩
  exact ⟨bodyTokens, [], _, .after (.opens hopen) (.after (.closes hclose) (.single .add)), rfl⟩

/-- The body of a function is read in the frame of its signature, which is there before. -/
theorem function_changes_signature_frame :
    ¬∀ (n : Nat) (name : Token) (signature id : ExprId) (s s' : State), Reachable s.tree →
      function (level n) name signature s = .ok id s' →
      ∀ f, s.tree.HasFrame f → f ≠ s.tree.currentFrame → s'.tree.frame? f = s.tree.frame? f := by
  intro h
  have hrun : (match function (level 20) ⟨.name, "f", default⟩ ⟨0⟩ afterSignature with
      | .ok _ s' => decide (s'.tree.frame? ⟨1⟩ ≠ afterSignature.tree.frame? ⟨1⟩)
      | .error .. => false) = true := by decide +kernel
  cases hfunction : function (level 20) ⟨.name, "f", default⟩ ⟨0⟩ afterSignature with
  | error => simp [hfunction] at hrun
  | ok id s' =>
    simp only [hfunction, decide_eq_true_eq] at hrun
    exact hrun (h 20 _ ⟨0⟩ id _ s' reachable_afterSignature hfunction ⟨1⟩
      (show 1 < 2 by decide) (by decide +kernel))

/-- A function is read, and so is a source. -/
theorem productions_bracket_function :
    (∃ id s', (Phrase.function ⟨.name, "f", default⟩ ⟨0⟩ id).Ran (level 20) afterSignature s' ∧
      Brackets (.function ⟨.name, "f", default⟩ ⟨0⟩ id) afterSignature s') ∧
    ∃ s', program (.initial bodyTokens) = .ok () s' ∧ s'.tree.currentFrame = Tree.mainFrame ∧
      s'.constructs = [] := by
  constructor
  · obtain ⟨id, s', hrun⟩ :=
      exists_ok (r := function (level 20) ⟨.name, "f", default⟩ ⟨0⟩ afterSignature)
      (by decide +kernel)
    exact ⟨id, s', hrun, productions_bracket.1 20 _ _ _ reachable_afterSignature hrun⟩
  · obtain ⟨_, s', hrun⟩ := exists_ok (r := program (.initial bodyTokens)) (by decide +kernel)
    exact ⟨s', hrun, productions_bracket.2.2 _ _ hrun⟩

end Grammar

end OnePass

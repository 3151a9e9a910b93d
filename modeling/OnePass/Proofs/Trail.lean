import OnePass.Proofs.Phrase

/-!
# Trails

A reading changes the state in small steps of eleven sorts: over tokens, by a new expression,
entity, name or body, by opening, entering and closing frames, and by beginning and ending
constructs. A `Trail` is a run of such steps with the bindings that they make, and every
phrase leaves one (`Reads.trail`). What each step keeps is therefore kept by every phrase:
tokens and frames are never given up and expressions and entities never change
(`Trail.extends`), the cursor moves forward (`Trail.forward`), and every frame that is open or
lies around another is there (`Trail.framed`).
-/

/-! ## Opening and closing frames -/

namespace OnePass.Tree

variable {t t' : Tree} {frame : FrameId}

/-- With a frame on top of those that are open. -/
def onTop (t : Tree) (frame : FrameId) (h : t.stack.items.size < depthLimit + 1) : Tree :=
  { t with stack := ⟨t.stack.items.push frame, by rw [Array.size_push]; exact h⟩ }

/-- With a new child of the innermost open frame, which is closed. -/
def withChild (t : Tree) : Tree :=
  { t with frames := t.frames.push (.new (some t.currentFrame) (t.depthOf t.currentFrame + 1)) }

/-- Without the innermost open frame on the stack. -/
def offTop (t : Tree) : Tree :=
  { t with stack := ⟨t.stack.items.pop, by
      rw [Array.size_pop]
      exact Nat.le_trans (Nat.sub_le _ _) t.stack.size_le⟩ }

theorem pushOpen_ok {u : Unit} (h : pushOpen frame t = .ok u t') :
    ∃ hsize, t' = t.onTop frame hsize := by
  unfold pushOpen at h
  obtain ⟨_, _, hget, h⟩ := Grammar.bind_ok.1 h
  cases hget
  unfold FixedArena.push at h
  by_cases hsize : t.stack.items.size < depthLimit + 1
  · rw [dif_pos hsize] at h
    cases h
    exact ⟨hsize, rfl⟩
  · rw [dif_neg hsize] at h
    cases h

theorem openFrame_ok (h : openFrame t = .ok frame t') :
    frame = ⟨t.frames.size⟩ ∧ ∃ hsize, t' = t.withChild.onTop ⟨t.frames.size⟩ hsize := by
  unfold openFrame at h
  obtain ⟨_, _, hget, h⟩ := Grammar.bind_ok.1 h
  cases hget
  by_cases hdeep : depthLimit < t.depthOf t.currentFrame + 1
  · rw [if_pos hdeep] at h
    cases h
  · rw [if_neg hdeep] at h
    obtain ⟨_, _, hmodify, h⟩ := Grammar.bind_ok.1 h
    cases hmodify
    obtain ⟨_, _, hpush, h⟩ := Grammar.bind_ok.1 h
    obtain ⟨hsize, rfl⟩ := pushOpen_ok hpush
    cases h
    exact ⟨rfl, hsize, rfl⟩

theorem enterFrame_ok {u : Unit} (h : enterFrame frame t = .ok u t') :
    (t.frame? frame).bind Frame.parent = some t.currentFrame ∧
      ∃ hsize, t' = t.onTop frame hsize := by
  unfold enterFrame at h
  obtain ⟨_, _, hget, h⟩ := Grammar.bind_ok.1 h
  cases hget
  by_cases hchild : (t.frame? frame).bind Frame.parent = some t.currentFrame
  · rw [if_pos hchild] at h
    exact ⟨hchild, pushOpen_ok h⟩
  · rw [if_neg hchild] at h
    cases h

theorem closeFrame_ok (h : closeFrame t = .ok frame t') :
    1 < t.stack.size ∧ t' = t.offTop := by
  unfold closeFrame at h
  obtain ⟨_, _, hget, h⟩ := Grammar.bind_ok.1 h
  cases hget
  by_cases hmain : t.stack.size ≤ 1
  · rw [if_pos hmain] at h
    cases h
  · rw [if_neg hmain] at h
    obtain ⟨_, _, hget, h⟩ := Grammar.bind_ok.1 h
    cases hget
    refine ⟨Nat.lt_of_not_le hmain, ?_⟩
    unfold FixedArena.pop at h
    cases hback : t.stack.items.back? with
    | none =>
      simp only [hback] at h
      cases h
    | some top =>
      simp only [hback] at h
      cases h
      rfl

end OnePass.Tree

/-! ## Steps -/

namespace OnePass.Grammar

variable {s s₁ s₂ s' : State} {frame : FrameId} {log log' : List Binding}

/-- One change of the state, with the binding that it makes. -/
inductive Step : State → List Binding → State → Prop where
  | next {s : State} : Step s [] s.next
  | past {s : State} {wanted : TokenSet} : Step s [] (s.past wanted)
  | add {s : State} {node : Node} {span : Span} : Step s [] (s.add node span)
  | addEntity {s : State} {entity : Entity} : Step s [] (s.addEntity entity)
  | bind {s : State} {name : String} {entity : EntityId} {within : Nat} :
      Step s [⟨s.tree.currentFrame, name, entity, within⟩] (s.bind name entity)
  | bindBody {s : State} {function : EntityId} {body : ExprId} {tree : Tree}
      (hbind : s.tree.bindBody s.tree.currentFrame function body = .ok tree) :
      Step s [] { s with tree := tree }
  | opens {s s' : State} {frame : FrameId} (hopen : Opens s frame s') : Step s [] s'
  | enters {s s' : State} {frame : FrameId} (henter : Enters s frame s') : Step s [] s'
  | closes {s s' : State} (hclose : Closes s s') : Step s [] s'
  | inside {s : State} {c : Construct} : Step s [] (s.inside c)
  | outside {s : State} : Step s [] s.outside

/-- A run of steps. -/
inductive Trail : State → List Binding → State → Prop where
  | refl {s : State} : Trail s [] s
  | cons {s s₁ s' : State} {log log' : List Binding} (hstep : Step s log s₁)
      (htrail : Trail s₁ log' s') : Trail s (log ++ log') s'

namespace Trail

theorem trans (h : Trail s log s₁) (h' : Trail s₁ log' s') : Trail s (log ++ log') s' := by
  induction h with
  | refl => exact h'
  | cons hstep _ ih =>
    rw [List.append_assoc]
    exact .cons hstep (ih h')

theorem single (h : Step s log s') : Trail s log s' := by
  rw [← List.append_nil log]
  exact .cons h .refl

/-- A trail and a step that makes no binding. -/
theorem snoc (h : Trail s log s₁) (h' : Step s₁ [] s') : Trail s log s' := by
  rw [← List.append_nil log]
  exact h.trans (single h')

/-- A step that makes no binding and a trail. -/
theorem after (h : Step s [] s₁) (h' : Trail s₁ log s') : Trail s log s' := Trail.cons h h'

theorem install {entity : Entity} {name : String} {within : Nat} (hname : entity.name = name) :
    Trail s [⟨s.tree.currentFrame, name, s.newEntity, within⟩] (s.install entity) := by
  subst hname
  exact after .addEntity (single .bind)

theorem bindNew {name : String} {entity : EntityId} :
    Trail s (newBinding s name entity) (s.bindNew name entity) := by
  unfold newBinding State.bindNew
  split
  · exact single .bind
  · exact refl

end Trail

theorem recordEntity_name (name : String) (form : RecordForm) (frame : FrameId) :
    (recordEntity name form frame).name = name := by
  cases form <;> rfl

theorem DeclaredType.trail {op : DefOp} {type : Option EntityId} (h : DeclaredType op s type s') :
    Trail s [] s' := by
  cases h with
  | constant => exact .refl
  | inferred => exact .refl
  | named => exact .single .next

theorem ResultType.trail {type : EntityId} (h : ResultType s type s') : Trail s [] s' := by
  cases h with
  | nothing => exact .refl
  | named => exact .after .next (.single .next)

theorem Separates.trail {rest : List EntityId} {closing : TokenSet}
    (h : Separates rest closing s s') : Trail s [] s' := by
  cases h with
  | last => exact .single .past
  | comma => exact .after .past (.single .next)
  | surplus => exact .after .past (.after .next (.single .past))

/-- Every phrase leaves a trail. -/
theorem Reads.trail {φ : Phrase} (h : Reads φ s log s') : Trail s log s' := by
  induction h with
  | stepClosing | extendClosing | extendBrace | elseNone | nextNone | initialNone => exact .refl
  | stepNewline | typeName => exact .single .next
  | stepPrefix _ _ _ ih | stepPostfix _ _ _ ih | elseSome _ _ ih => exact .after .next ih
  | stepOperator _ _ _ _ ih => exact .after .next ih
  | stepOperand _ _ _ _ _ _ _ ih => exact .after .next ih
  | initialSome _ _ ih | nameDefinition _ _ ih => exact .after .next ih
  | operand _ _ ih | initialConstant _ ih | nameAlone _ _ ih => exact ih
  | extendStep _ _ _ _ _ ih ih' => exact ih.trans ih'
  | sequenceClosing => exact .after .past (.single .next)
  | sequenceItem _ _ _ _ ih ih' => exact .after .past (ih.trans ih')
  | literal | nameUse => exact .single .add
  | prefixOperation _ _ _ _ ih => exact ih.snoc .add
  | postfixOperation => exact .single .add
  | binaryOperation _ _ _ _ _ ih => exact ih.snoc .add
  | argumentsNil => exact .after .past (.single .next)
  | argumentsCons _ _ _ _ hseparates _ _ ih ih' =>
    exact .after .past ((ih.trans (hseparates.trail.trans ih')).snoc .add)
  | call _ _ _ _ _ ih => exact ih.snoc .add
  | structLiteral _ _ _ _ ih => exact ih.snoc .add
  | scopeBody _ ih => exact ih.snoc .add
  | scope hopen _ hclose ih => exact .after (.opens hopen) (ih.snoc (.closes hclose))
  | scopeAfter _ _ ih => exact .after .past (.after .next ih)
  | branch hopen _ _ _ _ hclose ih ih' ih'' =>
    exact .after (.opens hopen) ((((ih.trans ih').trans ih'').snoc (.closes hclose)).snoc .add)
  | loopEndless hopen _ _ _ _ hclose ih ih' =>
    exact .after (.opens hopen) ((((ih.snoc .add).trans ih').snoc (.closes hclose)).snoc .add)
  | loopWhile hopen _ _ _ _ hclose ih ih' =>
    exact .after (.opens hopen) (((ih.trans ih').snoc (.closes hclose)).snoc .add)
  | loopCounted hopen _ _ _ _ _ _ _ _ hclose ih₁ ih₂ ih₃ ih₄ =>
    have hinit := (ih₁.snoc .next).trans ih₂
    have hscope := ((hinit.snoc .next).trans ih₃).trans ih₄
    exact .after (.opens hopen) ((hscope.snoc (.closes hclose)).snoc .add)
  | returns _ _ _ _ _ ih => exact ih.snoc .add
  | groupParameters hopen _ _ _ hresult hclose ih =>
    have hcontent := (ih.snoc .next).trans hresult.trail
    rw [List.append_nil] at hcontent
    exact .after (.opens hopen) ((hcontent.snoc (.closes hclose)).snoc .add)
  | groupExpression hopen _ _ _ _ hclose ih =>
    exact .after (.opens hopen) (((ih.snoc .next).snoc (.closes hclose)).snoc .add)
  | function _ _ _ hnamed henter _ _ hclose hbind ih =>
    subst hnamed
    have hbody := Trail.after .past (.after .next ih)
    have hscope := Trail.after (.enters henter) (.after .inside hbody)
    have hfunction := ((hscope.snoc .outside).snoc (.closes hclose)).snoc (.bindBody hbind)
    exact .after .addEntity (.cons .bind ((Trail.bindNew.trans hfunction).snoc .add))
  | nextSome _ _ _ _ ih => exact .after .next (.after .past ih)
  | declaration _ ih => exact ((Trail.install rfl).trans ih).snoc .add
  | definitionFunction _ _ htype _ _ _ _ _ ih ih' =>
    exact htype.trail.trans (ih.trans ih')
  | definitionRecord _ _ htype _ _ _ _ _ ih ih' =>
    exact htype.trail.trans (ih.trans ih')
  | definitionVariable _ _ htype _ _ _ _ _ ih ih' =>
    exact htype.trail.trans (ih.trans ih')
  | record _ hopen _ _ hclose ih =>
    have hbody := Trail.after (.opens hopen) (.after .inside ih)
    exact .after .past (.after .next (((hbody.snoc .outside).snoc (.closes hclose)).snoc .add))
  | typedef => exact (Trail.install (recordEntity_name _ _ _)).snoc .add
  | member => exact .after .next (.single .add)

end OnePass.Grammar

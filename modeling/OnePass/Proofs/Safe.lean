import OnePass.Proofs.Lookup
import OnePass.Proofs.Questions
import OnePass.Proofs.Steady

/-!
# Safe readings

A reading is safe in a state if it is made of parts that cannot go wrong inside: whatever is asked
about is there (`Question.InRange`) in a tree of which all handles lead somewhere, frames are
closed and entered only where they can be, and a fault is one that a source can have
(`Cause.grammatical`). `Safe` has one rule for each part of a reading, and the rule of a sequence
goes on with the state in which the first part ends. The readings that are run are not changed;
what is shown of one in this way is that each part of it meets what its rule asks for.

A safe reading ends with no other fault (`Safe.grammatical`).
-/

namespace OnePass

/-! ## Causes that no source has -/

namespace Cause

/-- Whether the cause would be a mistake of the front end and not of the source. -/
def internal : Cause → Bool
  | .stack .closeMain | .stack (.notChild _) | .stack (.arena _) | .notUnary _ | .noComposite ..
  | .bodyTaken _ | .notASignature | .notARecord | .emptyGroup | .emptyDefinition | .missingHandle
  | .endlessType | .outOfFuel => true
  | .noScopeAfter word => word ≠ "else"
  | _ => false

/-- Whether the scanner notices the cause. -/
def lexical : Cause → Bool
  | .unrecognized _ | .offsetTooLarge _ => true
  | _ => false

/-- Whether the grammar can find the cause in a source. -/
def grammatical (c : Cause) : Bool := !c.internal && !c.lexical

end Cause

namespace Grammar

/-! ## Questions -/

/-- Something that a production asks the tree. -/
inductive Question where
  | expr (id : ExprId)
  | exprType (id : ExprId)
  | namedStruct (id : ExprId)
  | entity (id : EntityId)
  | entityType (id : EntityId)
  | typeName (id : EntityId)
  | cast (source target : EntityId)
  | signatureName (params : List EntityId) (result : EntityId)
  | frame (id : FrameId)
  | variablesOf (id : FrameId)
  | compose (reading : Reading) (size : Nat)
  | find (name : String)
  | findLocal (name : String)
  | body (function : EntityId)

namespace Question

/-- What an answer to the question is. -/
def Answer : Question → Type
  | expr _ => Option Expr
  | namedStruct _ => Option (EntityId × FrameId)
  | entity _ => Option Entity
  | typeName _ | signatureName .. => Option String
  | cast .. => Option Cast
  | frame _ => Option Frame
  | variablesOf _ => Option (List EntityId)
  | body _ => Option ExprId
  | exprType _ | entityType _ | compose .. | find _ | findLocal _ => Option EntityId

/-- The answer of the tree. -/
def answer (t : Tree) : (q : Question) → q.Answer
  | expr id => t.expr? id
  | exprType id => t.exprType? id
  | namedStruct id => namedStruct? t id
  | entity id => t.entity? id
  | entityType id => t.entityType? id
  | typeName id => t.typeName? id
  | cast source target => t.cast? source target
  | signatureName params result => t.signatureName? params result
  | frame id => t.frame? id
  | variablesOf id => t.variables? id
  | compose reading size => t.compose? reading size
  | find name => t.find? name
  | findLocal name => t.findLocal? name
  | body function => (t.frame? t.currentFrame).bind (·.body? function)

/-- What is asked about is in the tree. For most questions this is about the handles that are given,
since they are then followed through the tree up to an answer. Where no answer is one too, it is
about all that is looked up: the entity that a name stands for, the frames around the innermost
one, the types that are built in. -/
def InRange (t : Tree) : Question → Prop
  | expr id | exprType id => t.HasExpr id
  | namedStruct id => t.HasExpr id ∧
    ∀ e, t.expr? id = some e → ∀ m, e.node.referent? = some m → t.HasEntity m
  | entity id | entityType id | typeName id => t.HasEntity id
  | cast source target => t.HasEntity source ∧ t.HasEntity target
  | signatureName params result => (∀ p ∈ params, t.HasEntity p) ∧ t.HasEntity result
  | frame id | variablesOf id => t.HasFrame id
  | compose .. => t.HasBuiltins
  | find _ => ∀ frame ∈ t.chain t.currentFrame, t.HasFrame frame
  | findLocal _ | body _ => t.HasFrame t.currentFrame

end Question

/-! ## The rules -/

/-- Begun in the state, the reading is made of parts that cannot go wrong inside. -/
inductive Safe : {α : Type} → Parse α → State → Prop where
  | pure {α : Type} {a : α} {s : State} : Safe (Pure.pure a) s
  | bind {α β : Type} {x : Parse α} {f : α → Parse β} {s : State} (hx : Safe x s)
      (hf : ∀ a s₁, x s = .ok a s₁ → Safe (f a) s₁) : Safe (x >>= f) s
  -- Ends
  | fail {α : Type} {cause : Cause} {span : Span} {s : State} (h : cause.grammatical = true) :
      Safe (Grammar.fail cause span : Parse α) s
  | spent {α : Type} {s : State} : Safe (throw ⟨.outOfFuel, none⟩ : Parse α) s
  -- Tokens and constructs
  | look {β : Type} {f : Cursor → List Construct → Parse β} {s : State}
      (hf : Safe (f s.cursor s.constructs) s) : Safe (get >>= fun s => f s.cursor s.constructs) s
  | accept {wanted : TokenSet} {s : State} : Safe (accept? wanted) s
  | skip {wanted : TokenSet} {s : State} : Safe (Grammar.skip wanted) s
  | begins {c : Construct} {s : State} : Safe (beginConstruct c) s
  | ends {s : State} : Safe endConstruct s
  -- Questions to the tree
  | ask {β : Type} {s : State} (q : Question) {f : q.Answer → Parse β} (hs : s.tree.Sound)
      (hq : q.InRange s.tree) (hf : Safe (f (q.answer s.tree)) s) :
      Safe (get >>= fun s => f (q.answer s.tree)) s
  | known {α : Type} {a : α} {s : State} : Safe (Grammar.known (some a)) s
  -- Changes of the tree
  | push {node : Node} {span : Span} {s : State} : Safe (Grammar.push node span) s
  | pushEntity {entity : Entity} {s : State} : Safe (Grammar.pushEntity entity) s
  | install {entity : Entity} {s : State} (hs : s.tree.HasFrame s.tree.currentFrame) :
      Safe (Grammar.install entity) s
  | bindName {name : String} {entity : EntityId} {s : State}
      (hs : s.tree.HasFrame s.tree.currentFrame) : Safe (Grammar.bindName name entity) s
  | recordBody {name : Token} {function : EntityId} {body : ExprId} {s : State}
      (hs : s.tree.HasFrame s.tree.currentFrame) :
      Safe (Grammar.recordBody name function body none) s
  | mainScope {scope : Option ExprId} {s : State} :
      Safe (modify fun s : State => { s with tree := { s.tree with mainScope := scope } }) s
  -- Frames
  | openFrame {span : Span} {s : State} (hs : s.tree.Nested) : Safe (Grammar.openFrame span) s
  | enterFrame {span : Span} {frame : FrameId} {s : State} (hs : s.tree.Nested)
      (hchild : (s.tree.frame? frame).bind Frame.parent = some s.tree.currentFrame) :
      Safe (Grammar.enterFrame span frame) s
  | closeFrame {span : Span} {s : State} (hs : s.tree.Nested)
      (hopened : 1 < s.tree.stack.items.size) : Safe (Grammar.closeFrame span) s

variable {α β γ : Type} {s s₁ s' : State} {φ : Phrase} {frame : FrameId} {log : List Binding}

/-- A safe reading ends with no fault but one that a source can have, or at a level that is too
low. -/
theorem Safe.grammatical {x : Parse α} (h : Safe x s) {fault : Fault}
    (hrun : x s = .error fault s') :
    fault.cause.grammatical = true ∨ fault.cause = .outOfFuel := by
  induction h with
  | pure | accept | skip | begins | ends | known | push | pushEntity | install | bindName
  | recordBody | mainScope => cases hrun
  | @bind _ _ x f s _ _ ih ih' =>
    rw [bind_run] at hrun
    cases hx : x s with
    | ok a s₁ =>
      rw [hx] at hrun
      exact ih' a s₁ hx hrun
    | error e s₁ =>
      rw [hx] at hrun
      cases hrun
      exact ih hx
  | fail hcause =>
    cases hrun
    exact .inl hcause
  | spent =>
    cases hrun
    exact .inr rfl
  | look _ ih => exact ih hrun
  | ask _ _ _ _ ih => exact ih hrun
  | @openFrame span s hs =>
    unfold Grammar.openFrame at hrun
    rw [framing_run] at hrun
    rcases hs.openFrame_run with ⟨_, hrefused⟩ | ⟨_, hsize, hopened⟩
    · rw [hrefused] at hrun
      cases hrun
      exact .inl rfl
    · rw [hopened] at hrun
      cases hrun
  | @enterFrame span frame s hs hchild =>
    unfold Grammar.enterFrame at hrun
    rw [framing_run] at hrun
    rcases hs.enterFrame_run frame with ⟨hnot, _⟩ | ⟨_, hsize, hentered⟩
    · exact absurd hchild hnot
    · rw [hentered] at hrun
      cases hrun
  | @closeFrame span s hs hopened =>
    unfold Grammar.closeFrame at hrun
    rw [bind_run, framing_run] at hrun
    rcases hs.closeFrame_run with ⟨hmain, _⟩ | ⟨_, hclosed⟩
    · rw [hmain] at hopened
      exact absurd hopened (Nat.lt_irrefl 1)
    · rw [hclosed] at hrun
      cases hrun

/-! ## Sequences -/

theorem safe_ite {c : Prop} [Decidable c] {x y : Parse β} (hx : c → Safe x s)
    (hy : ¬c → Safe y s) : Safe (if c then x else y) s := by
  split
  · exact hx ‹_›
  · exact hy ‹_›

theorem safe_unexpected {wanted : TokenSet} {token : Token} :
    Safe (unexpected wanted token : Parse α) s := .fail rfl

/-- A part that answers without a change of the state, and what follows it. -/
theorem safe_asked {x : Parse γ} {a : γ} {f : γ → Parse β} (hx : Safe x s) (hrun : x s = .ok a s)
    (hf : Safe (f a) s) : Safe (x >>= f) s := by
  refine .bind hx fun a' s₁ hrun' => ?_
  rw [hrun] at hrun'
  cases hrun'
  exact hf

/-! ## Tokens -/

theorem safe_current {f : Token → Parse β} (hf : Safe (f s.cursor.current) s) :
    Safe (current >>= f) s :=
  safe_asked (.look (f := fun c _ => Pure.pure c.current) .pure) rfl hf

theorem safe_isAt {wanted : TokenSet} {f : Bool → Parse β}
    (hf : Safe (f (s.cursor.isAt wanted)) s) : Safe (isAt wanted >>= f) s :=
  safe_asked (.look (f := fun c _ => Pure.pure (c.isAt wanted)) .pure) rfl hf

theorem safe_atEnd {f : Bool → Parse β} (hf : Safe (f s.cursor.atEnd) s) :
    Safe (atEnd >>= f) s :=
  safe_asked (.look (f := fun c _ => Pure.pure c.atEnd) .pure) rfl hf

theorem safe_previousSpan {f : Span → Parse β} (hf : Safe (f s.cursor.previousSpan) s) :
    Safe (previousSpan >>= f) s :=
  safe_asked (.look (f := fun c _ => Pure.pure c.previousSpan) .pure) rfl hf

theorem safe_accept {wanted : TokenSet} {f : Option Token → Parse β}
    (hat : s.cursor.isAt wanted = true → Safe (f (some s.cursor.current)) s.next)
    (hnot : s.cursor.isAt wanted = false → Safe (f none) s) : Safe (accept? wanted >>= f) s := by
  refine .bind .accept fun a s₁ hrun => ?_
  rw [accept?_run] at hrun
  cases h : s.cursor.isAt wanted with
  | true =>
    rw [if_pos h] at hrun
    cases hrun
    exact hat h
  | false =>
    rw [if_neg (by rw [h]; decide)] at hrun
    cases hrun
    exact hnot h

theorem safe_skip {wanted : TokenSet} {f : Unit → Parse β} (hf : Safe (f ()) (s.past wanted)) :
    Safe (skip wanted >>= f) s := by
  refine .bind .skip fun _ s₁ hrun => ?_
  cases hrun
  exact hf

theorem safe_beginConstruct {c : Construct} {f : Unit → Parse β} (hf : Safe (f ()) (s.inside c)) :
    Safe (beginConstruct c >>= f) s := by
  refine .bind .begins fun _ s₁ hrun => ?_
  cases hrun
  exact hf

theorem safe_endConstruct {f : Unit → Parse β} (hf : Safe (f ()) s.outside) :
    Safe (endConstruct >>= f) s := by
  refine .bind .ends fun _ s₁ hrun => ?_
  cases hrun
  exact hf

/-- A token out of place, whatever would follow. -/
theorem safe_refused {wanted : TokenSet} {f : γ → Parse β} :
    Safe (current >>= fun token => (unexpected wanted token : Parse γ) >>= f) s :=
  safe_current (.bind safe_unexpected fun _ _ h => absurd h unexpected_ne_ok)

/-! ## Questions to the tree -/

theorem safe_known {answer : Option γ} {a : γ} (h : answer = some a) : Safe (known answer) s := by
  rw [h]
  exact .known

theorem known_ok {answer : Option γ} {a : γ} (h : answer = some a) :
    known answer s = .ok a s := by
  rw [known_run, h]

theorem safe_partOf (part : Expr → α) {id : ExprId} {f : α → Parse β} (hs : s.tree.Sound)
    (hid : s.tree.HasExpr id) (hf : ∀ e, s.tree.expr? id = some e → Safe (f (part e)) s) :
    Safe (partOf part id >>= f) s := by
  obtain ⟨e, he⟩ := Tree.hasExpr_iff.1 hid
  refine safe_asked
    (.ask (.expr id) (f := fun x => known x >>= fun e => Pure.pure (part e)) hs hid ?_)
    (bind_eq (known_ok he)) (hf e he)
  exact safe_asked (safe_known he) (known_ok he) .pure

theorem safe_nodeOf {id : ExprId} {f : Node → Parse β} (hs : s.tree.Sound)
    (hid : s.tree.HasExpr id) (hf : ∀ e, s.tree.expr? id = some e → Safe (f e.node) s) :
    Safe (nodeOf id >>= f) s := safe_partOf Expr.node hs hid hf

theorem safe_spanOf {id : ExprId} {f : Span → Parse β} (hs : s.tree.Sound)
    (hid : s.tree.HasExpr id) (hf : ∀ span, Safe (f span) s) : Safe (spanOf id >>= f) s :=
  safe_partOf Expr.span hs hid fun e _ => hf e.span

theorem safe_entityOf {id : EntityId} {f : Entity → Parse β} (hs : s.tree.Sound)
    (hid : s.tree.HasEntity id) (hf : ∀ e, s.tree.entity? id = some e → Safe (f e) s) :
    Safe (entityOf id >>= f) s := by
  obtain ⟨e, he⟩ := Tree.hasEntity_iff.1 hid
  exact safe_asked (.ask (.entity id) hs hid (safe_known he)) (known_ok he) (hf e he)

theorem safe_frameOf {id : FrameId} {f : Frame → Parse β} (hs : s.tree.Sound)
    (hid : s.tree.HasFrame id) (hf : ∀ x, s.tree.frame? id = some x → Safe (f x) s) :
    Safe (frameOf id >>= f) s := by
  obtain ⟨x, hx⟩ := Tree.hasFrame_iff.1 hid
  exact safe_asked (.ask (.frame id) hs hid (safe_known hx)) (known_ok hx) (hf x hx)

theorem safe_typeOf {id : ExprId} {f : EntityId → Parse β} (hs : s.tree.Sound)
    (hid : s.tree.HasExpr id)
    (hf : ∀ type, s.tree.exprType? id = some type → s.tree.HasEntity type → Safe (f type) s) :
    Safe (typeOf id >>= f) s := by
  obtain ⟨type, htype, histype⟩ := hs.exprType? hid
  exact safe_asked (.ask (.exprType id) hs hid (safe_known htype)) (known_ok htype)
    (hf type htype histype.hasEntity)

theorem safe_typeNameOf {id : EntityId} {f : String → Parse β} (hs : s.tree.Sound)
    (hid : s.tree.HasEntity id) (hf : ∀ name, Safe (f name) s) : Safe (typeNameOf id >>= f) s := by
  obtain ⟨name, hname⟩ := hs.typeName? hid
  exact safe_asked (.ask (.typeName id) hs hid (safe_known hname)) (known_ok hname) (hf name)

/-- A fault that names two types. -/
theorem safe_typeNames {l r : EntityId} {f : String → String → Parse β} (hs : s.tree.Sound)
    (hl : s.tree.HasEntity l) (hr : s.tree.HasEntity r) (hf : ∀ a b, Safe (f a b) s) :
    Safe (do f (← typeNameOf l) (← typeNameOf r) : Parse β) s :=
  safe_typeNameOf hs hl fun a => safe_typeNameOf hs hr fun b => hf a b

theorem safe_entityType {id : EntityId} {f : EntityId → Parse β} (hs : s.tree.Sound)
    (hid : s.tree.HasEntity id) (hf : ∀ type, s.tree.HasEntity type → Safe (f type) s) :
    Safe (get >>= fun s => known (s.tree.entityType? id) >>= f) s := by
  obtain ⟨type, htype, histype, _⟩ := hs.entityType? hid
  refine .ask (.entityType id) (f := fun answer => known answer >>= f) hs hid ?_
  exact safe_asked (safe_known htype) (known_ok htype) (hf type histype.hasEntity)

theorem safe_variables {id : FrameId} {f : List EntityId → Parse β} (hs : s.tree.Sound)
    (hid : s.tree.HasFrame id) (hf : ∀ vars, s.tree.variables? id = some vars → Safe (f vars) s) :
    Safe (get >>= fun s => known (s.tree.variables? id) >>= f) s := by
  obtain ⟨vars, hvars⟩ := hs.variables? hid
  refine .ask (.variablesOf id) (f := fun answer => known answer >>= f) hs hid ?_
  exact safe_asked (safe_known hvars) (known_ok hvars) (hf vars hvars)

theorem safe_signatureName {params : List EntityId} {result : EntityId} {f : String → Parse β}
    (hs : s.tree.Sound) (hparams : ∀ p ∈ params, s.tree.HasEntity p)
    (hresult : s.tree.HasEntity result) (hf : ∀ name, Safe (f name) s) :
    Safe (get >>= fun s => known (s.tree.signatureName? params result) >>= f) s := by
  obtain ⟨name, hname⟩ := hs.signatureName? hparams hresult
  refine .ask (.signatureName params result) (f := fun answer => known answer >>= f) hs
    ⟨hparams, hresult⟩ ?_
  exact safe_asked (safe_known hname) (known_ok hname) (hf name)

theorem safe_converts {source target : EntityId} {f : Bool → Parse β} (hs : s.tree.Sound)
    (hsource : s.tree.HasEntity source) (htarget : s.tree.HasEntity target)
    (hf : ∀ implicit, Safe (f implicit) s) : Safe (converts source target >>= f) s := by
  obtain ⟨cast, hcast⟩ := hs.cast? hsource htarget
  refine safe_asked ?_ (a := cast.isImplicit) ?_ (hf _)
  · refine .ask (.cast source target) (f := implicitly) hs ⟨hsource, htarget⟩ ?_
    show Safe (implicitly (s.tree.cast? source target)) s
    rw [hcast]
    exact .pure
  · rw [converts_run, hcast]

theorem safe_resolve {name : Token} {f : EntityId → Parse β} (hs : s.Steady)
    (hf : ∀ entity, s.tree.find? name.text = some entity → Safe (f entity) s) :
    Safe (resolve name >>= f) s := by
  have hchain : ∀ frame ∈ s.tree.chain s.tree.currentFrame, s.tree.HasFrame frame := by
    intro frame hmem
    exact Nat.lt_of_le_of_lt (hs.nested.le_of_mem_chain hmem) hs.tree.framed.current
  rw [resolve_asks, bind_assoc]
  refine .ask (.find name.text) (f := fun x => resolved name x >>= f) hs.tree hchain ?_
  show Safe (resolved name (s.tree.find? name.text) >>= f) s
  cases hfind : s.tree.find? name.text with
  | none => exact .bind (.fail rfl) nofun
  | some entity => exact safe_asked .pure rfl (hf entity hfind)

/-- The entity that an expression stands for is there if the expression is. -/
theorem named_inRange {t : Tree} {id : ExprId} (ht : t.Sound) (hid : t.HasExpr id) :
    (Question.namedStruct id).InRange t :=
  ⟨hid, fun _ he => (ht.node he).referent⟩

/-! ## Changes of the tree -/

theorem safe_openFrame {span : Span} {f : FrameId → Parse β} (hs : s.tree.Nested)
    (hf : ∀ frame s₁, Opens s frame s₁ → Safe (f frame) s₁) : Safe (openFrame span >>= f) s :=
  .bind (.openFrame hs) fun frame s₁ hrun => hf frame s₁ (openFrame_ok.1 hrun)

theorem safe_enterFrame {span : Span} {f : Unit → Parse β} (hs : s.tree.Nested)
    (hchild : (s.tree.frame? frame).bind Frame.parent = some s.tree.currentFrame)
    (hf : ∀ s₁, Enters s frame s₁ → Safe (f ()) s₁) : Safe (enterFrame span frame >>= f) s :=
  .bind (.enterFrame hs hchild) fun _ s₁ hrun => hf s₁ (enterFrame_ok.1 hrun)

theorem safe_closeFrame {span : Span} {f : Unit → Parse β} (hs : s.tree.Nested)
    (hopened : s.Opened) (hf : ∀ s₁, Closes s s₁ → Safe (f ()) s₁) :
    Safe (closeFrame span >>= f) s :=
  .bind (.closeFrame hs hopened) fun _ s₁ hrun => hf s₁ (closeFrame_ok hrun)

theorem safe_pushEntity {entity : Entity} {f : EntityId → Parse β}
    (hf : Safe (f s.newEntity) (s.addEntity entity)) : Safe (pushEntity entity >>= f) s := by
  refine .bind .pushEntity fun _ s₁ hrun => ?_
  cases hrun
  exact hf

theorem safe_install {entity : Entity} {f : EntityId → Parse β} (hs : s.tree.Sound)
    (hf : Safe (f s.newEntity) (s.install entity)) : Safe (install entity >>= f) s := by
  refine .bind (.install hs.framed.current) fun _ s₁ hrun => ?_
  cases hrun
  exact hf

theorem safe_bindName {name : String} {entity : EntityId} {f : Unit → Parse β}
    (hs : s.tree.HasFrame s.tree.currentFrame) (hf : Safe (f ()) (s.bind name entity)) :
    Safe (bindName name entity >>= f) s := by
  refine .bind (.bindName hs) fun _ s₁ hrun => ?_
  cases hrun
  exact hf

/-! ## Productions that are safe -/

/-- The three functions are safe in steady states, if what they are given is there. -/
structure Productions.Safe (p : Productions) : Prop where
  step : ∀ {left closing s}, s.Steady → (∀ l, left = some l → s.tree.HasExpr l) →
    Grammar.Safe (p.step left closing) s
  extend : ∀ {left closing s}, s.Steady → (∀ l, left = some l → s.tree.HasExpr l) →
    Grammar.Safe (p.extend left closing) s
  sequence : ∀ {body closing s}, s.Steady → (∀ b ∈ body, s.tree.HasExpr b) →
    Grammar.Safe (p.sequence body closing) s

variable {p : Productions} {closing : TokenSet} {f : Option ExprId → Parse β}

/-- An expression is read, and what follows it begins in a state that is steady again. -/
theorem safe_expr (hp : p.Faithful) (hl : p.Safe) (hs : s.Steady)
    (hf : ∀ answer log s₁, Reads (.extend none closing answer) s log s₁ → s₁.Steady →
      Safe (f answer) s₁) : Safe (p.expr closing >>= f) s := by
  refine .bind (hl.extend hs hasExpr_none) fun answer s₁ hrun => ?_
  obtain ⟨log, hread⟩ := hp.extend hrun
  exact hf answer log s₁ hread (hs.reads hread hasExpr_none True.intro)

/-- An operand is read, and what follows it begins in a state that is steady again. -/
theorem safe_operand (hp : p.Faithful) (hl : p.Safe) (hs : s.Steady)
    (hf : ∀ answer log s₁, Reads (.step none closing answer) s log s₁ → s₁.Steady →
      Safe (f answer) s₁) : Safe (p.step none closing >>= f) s := by
  refine .bind (hl.step hs hasExpr_none) fun answer s₁ hrun => ?_
  obtain ⟨log, hread⟩ := hp.step hrun
  exact hf answer log s₁ hread (hs.reads hread hasExpr_none True.intro)

end Grammar

end OnePass

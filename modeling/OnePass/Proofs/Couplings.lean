import OnePass.Proofs.Ends
import OnePass.Proofs.OpenFrames
import OnePass.Proofs.Questions

/-!
# Couplings

Two readings are compared part by part. Their tokens, expressions and faults are alike if they
differ in their spans at most, and the spans correspond in a way that is left open (`Places`): they
may be the same, they may lie in some source, or they may be any.

A coupling is a relation between parts of two readings that is closed under the ways in which parts
are put together (`Coupling`). That a production is coupled with itself, given tokens that are alike
and productions that are coupled, follows from that alone, and is shown once for all couplings in
Proofs/Parallel.

A coupling may lose sight of the second reading where the two readings stand in front of separators
of different sorts. The first reading is then held up: it can end, or stop there once more, or read
its separator itself and be lost to the coupling for good. A reading stops there in good order only
if what it is read up to treats both separators alike (`TokenSet.Impartial`).
-/

namespace OnePass

/-! ## Places that correspond -/

/-- Which spans of two readings correspond. -/
structure Places where
  alike : Span → Span → Prop
  total : ∀ a, ∃ b, alike a b
  merge : ∀ {a a' b b' : Span}, alike a a' → alike b b' → alike (a.merge b) (a'.merge b')

/-- Only the same spans correspond. -/
def Places.same : Places where
  alike a b := a = b
  total a := ⟨a, rfl⟩
  merge := by
    rintro a _ b _ rfl rfl
    rfl

variable {P : Places}

/-- Two tokens that differ in their places at most. -/
structure Token.Alike (P : Places) (x x' : Token) : Prop where
  kind : x'.kind = x.kind
  text : x'.text = x.text
  span : P.alike x.span x'.span

theorem Token.exists_alike (P : Places) (x : Token) : ∃ x' : Token, x.Alike P x' := by
  obtain ⟨span, hspan⟩ := P.total x.span
  exact ⟨⟨x.kind, x.text, span⟩, rfl, rfl, hspan⟩

/-- Two expressions that differ in their places at most. -/
structure Expr.Alike (P : Places) (e e' : Expr) : Prop where
  node : e'.node = e.node
  span : P.alike e.span e'.span

/-- Two trees that differ in the places of their expressions at most. -/
structure Tree.Alike (P : Places) (t t' : Tree) : Prop where
  size : t'.exprs.size = t.exprs.size
  expr : ∀ id, Option.Rel (Expr.Alike P) (t.expr? id) (t'.expr? id)
  rest : t' = { t with exprs := t'.exprs }

/-- Two faults of the same cause at places that correspond. -/
structure Fault.Alike (P : Places) (f f' : Fault) : Prop where
  cause : f'.cause = f.cause
  span : ∃ a a', f.span = some a ∧ f'.span = some a' ∧ P.alike a a'

/-! ## What does not look at expressions -/

namespace Tree

variable {t t' : Tree}

theorem chainWithin_exprs (t : Tree) (exprs : Array Expr) (n : Nat) (id : FrameId) :
    chainWithin { t with exprs := exprs } n id = t.chainWithin n id := by
  induction n generalizing id with
  | zero => rfl
  | succ n ih =>
    unfold chainWithin
    simp only [ih]
    rfl

theorem find?_exprs (t : Tree) (exprs : Array Expr) (name : String) :
    find? { t with exprs := exprs } name = t.find? name := by
  unfold find? findFrom? searchFrom chain
  rw [chainWithin_exprs]
  rfl

theorem variables?_exprs (t : Tree) (exprs : Array Expr) (id : FrameId) :
    variables? { t with exprs := exprs } id = t.variables? id := by
  have hamong (ids : List EntityId) :
      variablesAmong? { t with exprs := exprs } ids = t.variablesAmong? ids := by
    induction ids with
    | nil => rfl
    | cons id rest ih =>
      unfold variablesAmong?
      rw [ih]
      rfl
  unfold variables?
  simp only [hamong]
  rfl

theorem castWithin?_exprs (t : Tree) (exprs : Array Expr) (n : Nat) (source target : EntityId) :
    castWithin? { t with exprs := exprs } n source target = t.castWithin? n source target := by
  induction n generalizing source target with
  | zero => rfl
  | succ n ih =>
    have hcast : castWithin? { t with exprs := exprs } n = t.castWithin? n := by
      funext source target
      exact ih source target
    have hparts : castParts? { t with exprs := exprs } = t.castParts? := by
      funext cast source target
      cases source <;> cases target <;> simp only [castParts?, variables?_exprs]
    rw [castWithin?_succ, castWithin?_succ, hcast, hparts]
    rfl

/-- Work on the open frames that does the same whatever the expressions are. -/
def Blind {α : Type} (work : Framing α) : Prop :=
  ∀ t exprs, work { t with exprs := exprs } = match work t with
    | .ok x t => .ok x { t with exprs := exprs }
    | .error e t => .error e { t with exprs := exprs }

theorem pushOpen_eq (frame : FrameId) (t : Tree) :
    pushOpen frame t = match t.stack.push frame with
      | .ok (_, stack) => .ok () { t with stack := stack }
      | .error e => .error (.arena e) t := by
  unfold pushOpen
  rw [get_run]
  cases t.stack.push frame <;> rfl

theorem pushOpen_blind (frame : FrameId) : Blind (pushOpen frame) := by
  intro t exprs
  rw [pushOpen_eq, pushOpen_eq]
  cases t.stack.push frame <;> rfl

theorem openFrame_blind : Blind openFrame := by
  intro t exprs
  have hrun (t : Tree) : openFrame t =
      if depthLimit < t.depthOf t.currentFrame + 1 then .error (.tooDeep depthLimit) t
      else (pushOpen ⟨t.frames.size⟩ >>= fun _ => pure ⟨t.frames.size⟩) t.withChild := by
    unfold openFrame
    rw [Grammar.bind_run]
    show (if depthLimit < t.depthOf t.currentFrame + 1 then _ else _ : Framing FrameId) t = _
    split <;> rfl
  rw [hrun, hrun]
  show (if depthLimit < t.depthOf t.currentFrame + 1 then _ else _) = _
  split
  · rfl
  · rw [Grammar.bind_run, Grammar.bind_run]
    have hpush := pushOpen_blind ⟨t.frames.size⟩ t.withChild exprs
    have hchild : withChild { t with exprs := exprs } = { t.withChild with exprs := exprs } := rfl
    rw [hchild]
    dsimp only
    rw [hpush]
    cases pushOpen ⟨t.frames.size⟩ t.withChild <;> rfl

theorem enterFrame_blind (frame : FrameId) : Blind (enterFrame frame) := by
  intro t exprs
  have hrun (t : Tree) : enterFrame frame t =
      if (t.frame? frame).bind Frame.parent = some t.currentFrame then pushOpen frame t
      else .error (.notChild frame) t := by
    unfold enterFrame
    rw [Grammar.bind_run]
    show (if (t.frame? frame).bind Frame.parent = some t.currentFrame then _ else _ :
      Framing Unit) t = _
    split <;> rfl
  rw [hrun, hrun]
  show (if (t.frame? frame).bind Frame.parent = some t.currentFrame then _ else _) = _
  split
  · exact pushOpen_blind frame t exprs
  · rfl

theorem closeFrame_eq (t : Tree) :
    closeFrame t = if t.stack.size ≤ 1 then .error .closeMain t
      else match t.stack.pop with
        | .ok (frame, stack) => .ok frame { t with stack := stack }
        | .error e => .error (.arena e) t := by
  unfold closeFrame
  rw [get_run]
  split
  · rfl
  · dsimp only
    rw [get_run]
    cases t.stack.pop <;> rfl

theorem closeFrame_blind : Blind closeFrame := by
  intro t exprs
  rw [closeFrame_eq, closeFrame_eq]
  show (if t.stack.size ≤ 1 then _ else _) = _
  split
  · rfl
  · dsimp only
    cases t.stack.pop <;> rfl

end Tree

/-! ## Trees that are alike -/

namespace Tree.Alike

variable {t t' : Tree}

/-- A question that does not look at expressions has the same answer. -/
theorem ask {α : Type} (h : t.Alike P t') (question : Tree → α)
    (hquestion : ∀ t exprs, question { t with exprs := exprs } = question t) :
    question t' = question t := by
  rw [h.rest]
  exact hquestion _ _

theorem entity? (h : t.Alike P t') : t'.entity? = t.entity? := h.ask Tree.entity? fun _ _ => rfl

theorem entityType? (h : t.Alike P t') : t'.entityType? = t.entityType? :=
  h.ask Tree.entityType? fun _ _ => rfl

theorem compose? (h : t.Alike P t') : t'.compose? = t.compose? := h.ask Tree.compose? fun _ _ => rfl

/-- The node of an expression is the same. -/
theorem node? (h : t.Alike P t') (id : ExprId) :
    (t'.expr? id).map (·.node) = (t.expr? id).map (·.node) := by
  have hexpr := h.expr id
  generalize t.expr? id = found at hexpr
  generalize t'.expr? id = found' at hexpr
  cases hexpr with
  | none => rfl
  | some halike => exact congrArg some halike.node

theorem exprType? (h : t.Alike P t') (id : ExprId) : t'.exprType? id = t.exprType? id := by
  unfold Tree.exprType?
  rw [h.size]
  generalize t.exprs.size + 1 = n
  induction n generalizing id with
  | zero => rfl
  | succ n ih =>
    have hexpr := h.expr id
    unfold exprTypeWithin?
    generalize t.expr? id = found at hexpr
    generalize t'.expr? id = found' at hexpr
    cases hexpr with
    | none => rfl
    | some halike =>
      simp only [Option.bind_eq_bind, Option.bind_some, halike.node, h.entity?, h.entityType?,
        h.compose?, ih]

/-! ## Changes of trees that are alike -/

theorem pushExpr (h : t.Alike P t') {e e' : Expr} (he : e.Alike P e') :
    (t.pushExpr e).2.Alike P (t'.pushExpr e').2 := by
  refine ⟨?_, fun id => ?_, ?_⟩
  · show (t'.exprs.push e').size = (t.exprs.push e).size
    rw [Array.size_push, Array.size_push, h.size]
  · show Option.Rel _ (t.exprs.push e)[id.index]? (t'.exprs.push e')[id.index]?
    rw [Array.getElem?_push, Array.getElem?_push, h.size]
    split
    · exact .some he
    · exact h.expr id
  · unfold Tree.pushExpr
    rw [h.rest]

/-- The same change of everything but the expressions. -/
theorem withExprs {exprs exprs' : Array Expr} (h : t.Alike P t') (hexprs : t.exprs = exprs)
    (hexprs' : t'.exprs = exprs') (changed : Tree) :
    { changed with exprs := exprs }.Alike P { changed with exprs := exprs' } := by
  subst hexprs hexprs'
  exact ⟨h.size, h.expr, rfl⟩

/-- A change that does the same whatever the expressions are. -/
theorem change {c : Tree → Tree} (h : t.Alike P t')
    (hc : ∀ t exprs, c { t with exprs := exprs } = { c t with exprs := exprs }) :
    (c t).Alike P (c t') := by
  have hsame : c t = { c t with exprs := t.exprs } := hc t t.exprs
  have hother : c t' = { c t with exprs := t'.exprs } := by
    conv_lhs => rw [h.rest]
    exact hc t t'.exprs
  rw [hsame, hother]
  exact h.withExprs rfl rfl (c t)

end Tree.Alike

/-! ## Sets of tokens and separators -/

namespace TokenSet

/-- Both separators are in the set, or none. -/
def Impartial (wanted : TokenSet) : Prop := wanted.contains .newline = wanted.contains .semicolon

/-- No separator is in the set. -/
def Free (wanted : TokenSet) : Prop :=
  wanted.contains .newline = false ∧ wanted.contains .semicolon = false

instance (wanted : TokenSet) : Decidable wanted.Impartial :=
  inferInstanceAs (Decidable (_ = _))

instance (wanted : TokenSet) : Decidable wanted.Free := inferInstanceAs (Decidable (_ ∧ _))

theorem Free.impartial {wanted : TokenSet} (h : wanted.Free) : wanted.Impartial :=
  h.1.trans h.2.symm

theorem contains_union {s t : TokenSet} {kind : TokenKind} :
    (s ∪ t).contains kind = (s.contains kind || t.contains kind) := by
  rw [Bool.eq_iff_iff, Bool.or_eq_true]
  exact mem_union

theorem Impartial.union {s t : TokenSet} (hs : s.Impartial) (ht : t.Impartial) :
    (s ∪ t).Impartial := by
  unfold Impartial
  rw [contains_union, contains_union, hs, ht]

theorem impartial_separators (closing : TokenSet) : (Grammar.separators ∪ closing).Impartial := by
  unfold Impartial
  rw [contains_union, contains_union]
  rfl

end TokenSet

namespace Grammar

variable {α β γ : Type} {s s' : State}

/-- The state in which a run ends. -/
def finish : EStateM.Result Fault State α → State
  | .ok _ s => s
  | .error _ s => s

/-! ## Parts that read no token -/

/-- What two such parts come to, if the second one stands at `c`: the same answer and trees that are
alike, or the same cause, unless the first one has ended with a cause that is not allowed. -/
def Agree (P : Places) (c : Cursor) :
    EStateM.Result Fault State α → EStateM.Result Fault State α → Prop
  | .ok a s, r' => ∃ s', r' = .ok a s' ∧ s'.cursor = c ∧ s.tree.Alike P s'.tree ∧
      s'.constructs = s.constructs
  | .error f _, r' => f.cause.Allowed True → ∃ f' s', r' = .error f' s' ∧ f.Alike P f' ∧
      s'.cursor = c

/-- Two parts that leave their cursors where they are, and come to the same on trees that are
alike. -/
structure Still (P : Places) (x y : Parse α) : Prop where
  stays : ∀ s, (finish (x s)).cursor = s.cursor
  agree : ∀ {s s'}, s.tree.Alike P s'.tree → s'.constructs = s.constructs →
    Agree P s'.cursor (x s) (y s')

section

variable {span span' : Span} {entity : Entity}

theorem still_pure {a : α} : Still P (pure a) (pure a) where
  stays _ := rfl
  agree h hconstructs := ⟨_, rfl, rfl, h, hconstructs⟩

theorem still_fail {cause : Cause} (hspan : P.alike span span') :
    Still P (fail cause span : Parse α) (fail cause span') where
  stays _ := rfl
  agree _ _ _ := ⟨_, _, rfl, ⟨rfl, _, _, rfl, rfl, hspan⟩, rfl⟩

theorem still_push {node : Node} (hspan : P.alike span span') :
    Still P (push node span) (push node span') where
  stays _ := rfl
  agree {s s'} h hconstructs := by
    have hid : s'.newExpr = s.newExpr := congrArg ExprId.mk h.size
    refine ⟨s'.add node span', ?_, rfl, h.pushExpr ⟨rfl, hspan⟩, hconstructs⟩
    show EStateM.Result.ok s'.newExpr _ = _
    rw [hid]
    rfl

/-- A change of the tree that does the same whatever the expressions are. -/
theorem still_change {c : Tree → Tree}
    (hc : ∀ t exprs, c { t with exprs := exprs } = { c t with exprs := exprs }) :
    Still P (modify fun s => { s with tree := c s.tree })
      (modify fun s => { s with tree := c s.tree }) where
  stays _ := rfl
  agree h hconstructs := ⟨_, rfl, rfl, h.change hc, hconstructs⟩

/-- A change that makes an entity, and answers its handle. -/
theorem still_makes {x : Parse EntityId} {c : Tree → Tree}
    (hx : ∀ s, x s = .ok s.newEntity { s with tree := c s.tree })
    (hc : ∀ t exprs, c { t with exprs := exprs } = { c t with exprs := exprs }) : Still P x x where
  stays s := by rw [hx]; rfl
  agree {s s'} h hconstructs := by
    have hid : s'.newEntity = s.newEntity :=
      h.ask (fun t => EntityId.mk t.entities.size) fun _ _ => rfl
    rw [hx, hx, hid]
    exact ⟨_, rfl, rfl, h.change hc, hconstructs⟩

theorem still_pushEntity : Still P (pushEntity entity) (pushEntity entity) :=
  still_makes (c := fun t => (t.pushEntity entity).2) (fun _ => rfl) fun _ _ => rfl

theorem still_install : Still P (install entity) (install entity) :=
  still_makes (c := fun t => (t.install entity).2) (fun _ => rfl) fun _ _ => rfl

theorem still_framing {work : Framing α} (hwork : Tree.Blind work) (hspan : P.alike span span') :
    Still P (framing span work) (framing span' work) where
  stays s := by
    rw [framing_run]
    cases work s.tree <;> rfl
  agree {s s'} h hconstructs := by
    have hrun' : work s'.tree = match work s.tree with
        | .ok a t => .ok a { t with exprs := s'.tree.exprs }
        | .error e t => .error e { t with exprs := s'.tree.exprs } := by
      conv_lhs => rw [h.rest]
      exact hwork s.tree s'.tree.exprs
    have hrun := hwork s.tree s.tree.exprs
    rw [framing_run, framing_run, hrun']
    cases hresult : work s.tree with
    | ok a t =>
      replace hrun : work s.tree = _ := hrun
      rw [hresult] at hrun
      obtain ⟨-, htree⟩ := EStateM.Result.ok.inj hrun
      refine ⟨_, rfl, rfl, ?_, hconstructs⟩
      show t.Alike P { t with exprs := s'.tree.exprs }
      rw [htree]
      exact h.withExprs rfl rfl t
    | error e t => exact fun _ => ⟨_, _, rfl, ⟨rfl, _, _, rfl, rfl, hspan⟩, rfl⟩

/-- A change of the constructs. -/
theorem still_constructs {change : List Construct → List Construct} :
    Still P (modify fun s => { s with constructs := change s.constructs })
      (modify fun s => { s with constructs := change s.constructs }) where
  stays _ := rfl
  agree h hconstructs := ⟨_, rfl, rfl, h, congrArg change hconstructs⟩

end

/-! ## Couplings -/

/-- The part ends with a fault wherever it begins. -/
def Fails (x : Parse α) : Prop := ∀ s, ∃ fault s', x s = .error fault s'

theorem fails_fail {cause : Cause} {span : Span} : Fails (fail cause span : Parse α) :=
  fun _ => ⟨_, _, rfl⟩

theorem Fails.bind {x : Parse β} {f : β → Parse α} (h : Fails x) : Fails (x >>= f) := by
  intro s
  obtain ⟨fault, s', hrun⟩ := h s
  exact ⟨fault, s', bind_error hrun⟩

theorem Fails.after {x : Parse β} {f : β → Parse α} (h : ∀ b, Fails (f b)) : Fails (x >>= f) := by
  intro s
  rw [bind_run]
  cases x s with
  | ok b s₁ => exact h b s₁
  | error fault s₁ => exact ⟨fault, s₁, rfl⟩

/-- A relation between parts of two readings. The first flag says whether the first part may begin
held up, and the second one whether it may end so. -/
structure Coupling (P : Places) where
  Rel : {α : Type} → Bool → Bool → Parse α → Parse α → Prop
  weaken : ∀ {α : Type} {u v u' v' : Bool} {x y : Parse α}, Rel u v x y → (u' = true → u = true) →
    (v = true → v' = true) → Rel u' v' x y
  still : ∀ {α : Type} {u : Bool} {x y : Parse α}, Still P x y → Rel u u x y
  bind : ∀ {α β : Type} {u v w : Bool} {x y : Parse β} {f g : β → Parse α}, Rel u w x y →
    (∀ b, Rel w v (f b) (g b)) → Rel u v (x >>= f) (y >>= g)
  fail : ∀ {α : Type} {u v : Bool} {cause : Cause} {a a' : Span}, P.alike a a' →
    Rel u v (fail cause a : Parse α) (fail cause a')
  /-- Nothing is said of causes that are not allowed, so that one of the readings may be made at a
  lower level. -/
  excluded : ∀ {α : Type} {u v : Bool} {fault : Fault} {y : Parse α}, ¬fault.cause.Allowed True →
    Rel u v (throw fault) y
  /-- A question about trees to which both have answers that correspond. -/
  part : ∀ {α γ : Type} {u v : Bool} {R : γ → γ → Prop} {q : Tree → γ} {f g : γ → Parse α},
    (∀ c, ∃ c', R c c') → (∀ {t t'}, t.Alike P t' → R (q t) (q t')) →
    (∀ {c c'}, R c c' → Rel u v (f c) (g c')) →
    Rel u v (get >>= fun s => f (q s.tree)) (get >>= fun s => g (q s.tree))
  constructs : ∀ {α β : Type} {u v : Bool} {q : List Construct → β} {f g : β → Parse α},
    (∀ b, Rel u v (f b) (g b)) →
    Rel u v (get >>= fun s => f (q s.constructs)) (get >>= fun s => g (q s.constructs))
  /-- The two readings need not see tokens of the same kind to be told where they are. -/
  place : ∀ {α : Type} {u v : Bool} {f g : Token → Parse α},
    (∀ {token token'}, P.alike token.span token'.span → Rel u v (f token) (g token')) →
    Rel u v (current >>= f) (current >>= g)
  previousSpan : ∀ {α : Type} {u v : Bool} {f g : Span → Parse α},
    (∀ {a a'}, P.alike a a' → Rel u v (f a) (g a')) →
    Rel u v (previousSpan >>= f) (previousSpan >>= g)
  /-- The next token is only looked at to blame it. -/
  blame : ∀ {α : Type} {u v : Bool} {f g : Token → Parse α}, (∀ token, Fails (f token)) →
    (∀ {token token'}, token.Alike P token' → Rel u v (f token) (g token')) →
    Rel u v (current >>= f) (current >>= g)
  atEnd : ∀ {α : Type} {u v : Bool} {f g : Bool → Parse α}, (∀ b, Rel u v (f b) (g b)) →
    Rel u v (atEnd >>= f) (atEnd >>= g)
  isAt : ∀ {α : Type} {u v : Bool} {wanted : TokenSet} {f g : Bool → Parse α}, wanted.Impartial →
    (∀ b, Rel u v (f b) (g b)) → Rel u v (isAt wanted >>= f) (isAt wanted >>= g)
  /-- The two readings may go different ways, if the first one may be held up from there on. -/
  isAtAny : ∀ {α : Type} {u : Bool} {wanted : TokenSet} {f g : Bool → Parse α},
    (∀ b, Rel true true (f b) (g b)) →
    Rel u true (Grammar.isAt wanted >>= f) (Grammar.isAt wanted >>= g)
  /-- What is held up does not stand in front of a token that is no separator. -/
  isAtFree : ∀ {α : Type} {u v : Bool} {wanted : TokenSet} {f g : Bool → Parse α}, wanted.Free →
    Rel false v (f true) (g true) → Rel u v (f false) (g false) →
    Rel u v (Grammar.isAt wanted >>= f) (Grammar.isAt wanted >>= g)
  accept : ∀ {α : Type} {u v : Bool} {wanted : TokenSet} {f g : Option Token → Parse α},
    wanted.Free →
    (∀ {token token'}, token.Alike P token' → Rel false v (f (some token)) (g (some token'))) →
    Rel u v (f none) (g none) → Rel u v (accept? wanted >>= f) (accept? wanted >>= g)
  /-- The first reading has to read one of the tokens. -/
  expect : ∀ {α : Type} {u v : Bool} {wanted : TokenSet} {f g : Option Token → Parse α},
    Fails (f none) →
    (∀ {token token'}, token.Alike P token' → Rel false v (f (some token)) (g (some token'))) →
    Rel u v (f none) (g none) → Rel u v (accept? wanted >>= f) (accept? wanted >>= g)
  /-- Newlines may end at a separator of the other sort. -/
  skipNewlines : ∀ {u : Bool}, Rel u true skipNewlines skipNewlines

namespace Coupling

variable (L : Coupling P) {u v : Bool} {x y : Parse α} {f g : β → Parse α} {token token' : Token}
  {span span' : Span} {wanted closing : TokenSet}

/-! ## Rules that follow -/

/-- What is coupled even if held up is coupled. -/
theorem fresh (h : L.Rel v v x y) : L.Rel false v x y := L.weaken h nofun id

/-- What ends in good order may end held up. -/
theorem orderly (h : L.Rel u false x y) : L.Rel u v x y := L.weaken h id nofun

theorem pure {a : α} : L.Rel u u (pure a) (pure a) := L.still still_pure

theorem ite {c : Prop} [Decidable c] {x' y' : Parse α} (hx : c → L.Rel u v x x')
    (hy : ¬c → L.Rel u v y y') : L.Rel u v (if c then x else y) (if c then x' else y') := by
  split
  · exact hx ‹_›
  · exact hy ‹_›

theorem push {node : Node} (hspan : P.alike span span') :
    L.Rel u u (push node span) (push node span') := L.still (still_push hspan)

theorem unexpected (h : token.Alike P token') :
    L.Rel u v (unexpected closing token : Parse α) (Grammar.unexpected closing token') := by
  unfold Grammar.unexpected
  rw [h.kind]
  exact L.fail h.span

/-- A question about trees that has the same answer for both. -/
theorem ask {q : Tree → β} (hq : ∀ {t t'}, t.Alike P t' → q t' = q t)
    (hf : ∀ b, L.Rel u v (f b) (g b)) :
    L.Rel u v (get >>= fun s => f (q s.tree)) (get >>= fun s => g (q s.tree)) := by
  refine L.part (R := fun b b' => b' = b) (fun b => ⟨b, rfl⟩) hq ?_
  rintro b _ rfl
  exact hf _

theorem known {answer : Option β} (hf : ∀ b, L.Rel u v (f b) (g b)) :
    L.Rel u v (known answer >>= f) (known answer >>= g) := by
  cases answer with
  | some b => exact hf b
  | none => exact L.bind (L.excluded fun h => h trivial) hf

theorem askKnown {q : Tree → Option β} (hq : ∀ {t t'}, t.Alike P t' → q t' = q t)
    (hf : ∀ b, L.Rel u v (f b) (g b)) :
    L.Rel u v (get >>= fun s => Grammar.known (q s.tree) >>= f)
      (get >>= fun s => Grammar.known (q s.tree) >>= g) :=
  L.ask (f := fun answer => Grammar.known answer >>= f)
    (g := fun answer => Grammar.known answer >>= g) hq fun _ => L.known hf

theorem nodeOf {id : ExprId} {f g : Node → Parse α} (hf : ∀ node, L.Rel u v (f node) (g node)) :
    L.Rel u v (nodeOf id >>= f) (nodeOf id >>= g) := by
  have hrun (f : Node → Parse α) : Grammar.nodeOf id >>= f =
      get >>= fun s => Grammar.known ((s.tree.expr? id).map (·.node)) >>= f := by
    funext s
    show ((Grammar.known (s.tree.expr? id) >>= fun e => Pure.pure e.node) >>= f) s = _
    rw [get_bind]
    cases s.tree.expr? id <;> rfl
  rw [hrun, hrun]
  exact L.askKnown (q := fun t => (t.expr? id).map (·.node)) (fun h => h.node? id) hf

theorem entityOf {id : EntityId} {f g : Entity → Parse α} (hf : ∀ e, L.Rel u v (f e) (g e)) :
    L.Rel u v (entityOf id >>= f) (entityOf id >>= g) :=
  L.askKnown (q := fun t => t.entity? id) (fun h => congrFun h.entity? id) hf

theorem frameOf {id : FrameId} {f g : Frame → Parse α}
    (hf : ∀ frame, L.Rel u v (f frame) (g frame)) :
    L.Rel u v (frameOf id >>= f) (frameOf id >>= g) :=
  L.askKnown (q := fun t => t.frame? id)
    (fun h => h.ask (fun t => t.frame? id) fun _ _ => rfl) hf

theorem typeOf {id : ExprId} {f g : EntityId → Parse α}
    (hf : ∀ type, L.Rel u v (f type) (g type)) :
    L.Rel u v (typeOf id >>= f) (typeOf id >>= g) :=
  L.askKnown (q := fun t => t.exprType? id) (fun h => h.exprType? id) hf

theorem typeNameOf {id : EntityId} {f g : String → Parse α}
    (hf : ∀ name, L.Rel u v (f name) (g name)) :
    L.Rel u v (typeNameOf id >>= f) (typeNameOf id >>= g) :=
  L.askKnown (q := fun t => t.typeName? id)
    (fun h => h.ask (fun t => t.typeName? id) fun _ _ => rfl) hf

theorem converts {source target : EntityId} {f g : Bool → Parse α}
    (hf : ∀ b, L.Rel u v (f b) (g b)) :
    L.Rel u v (converts source target >>= f) (converts source target >>= g) := by
  refine L.bind (w := u) ?_ hf
  rw [converts_asks]
  refine L.ask (q := fun t => t.cast? source target) (f := implicitly) (g := implicitly)
    (fun h => h.ask (fun t => t.cast? source target) fun t exprs =>
      t.castWithin?_exprs exprs _ source target) fun cast => ?_
  cases cast with
  | some cast => exact L.pure
  | none => exact L.excluded fun h => h trivial

theorem spanOf {id : ExprId} {f g : Span → Parse α}
    (hf : ∀ {span span'}, P.alike span span' → L.Rel u v (f span) (g span')) :
    L.Rel u v (spanOf id >>= f) (spanOf id >>= g) := by
  have hrun (f : Span → Parse α) : Grammar.spanOf id >>= f =
      get >>= fun s => Grammar.known ((s.tree.expr? id).map (·.span)) >>= f := by
    funext s
    show ((Grammar.known (s.tree.expr? id) >>= fun e => Pure.pure e.span) >>= f) s = _
    rw [get_bind]
    cases s.tree.expr? id <;> rfl
  rw [hrun, hrun]
  refine L.part (R := Option.Rel P.alike) (q := fun t => (t.expr? id).map (·.span))
    (f := fun answer => Grammar.known answer >>= f)
    (g := fun answer => Grammar.known answer >>= g) ?_ ?_ ?_
  · rintro (_ | span)
    · exact ⟨none, .none⟩
    · obtain ⟨span', hspan⟩ := P.total span
      exact ⟨some span', .some hspan⟩
  · intro t t' h
    have hexpr := h.expr id
    generalize t.expr? id = found at hexpr
    generalize t'.expr? id = found' at hexpr
    cases hexpr with
    | none => exact .none
    | some halike => exact .some halike.span
  · intro _ _ hspan
    cases hspan with
    | none =>
      have hthrow {y : Parse α} : L.Rel u v (throw ⟨.missingHandle, none⟩) y :=
        L.excluded fun h => h trivial
      exact hthrow
    | some hspan => exact hf hspan

theorem bindName {name : String} {entity : EntityId} :
    L.Rel u u (bindName name entity) (bindName name entity) :=
  L.still (still_change (c := fun t => t.bind name entity) fun _ _ => rfl)

theorem openFrame (hspan : P.alike span span') :
    L.Rel u u (openFrame span) (openFrame span') :=
  L.still (still_framing Tree.openFrame_blind hspan)

theorem enterFrame {frame : FrameId} (hspan : P.alike span span') :
    L.Rel u u (enterFrame span frame) (enterFrame span' frame) :=
  L.still (still_framing (Tree.enterFrame_blind frame) hspan)

theorem closeFrame (hspan : P.alike span span') :
    L.Rel u u (closeFrame span) (closeFrame span') :=
  L.bind (L.still (still_framing Tree.closeFrame_blind hspan)) fun _ => L.pure

theorem beginConstruct {c : Construct} :
    L.Rel u u (beginConstruct c) (beginConstruct c) := L.still still_constructs

theorem endConstruct : L.Rel u u endConstruct endConstruct := L.still still_constructs

/-! ## Productions that are coupled -/

/-- What is read up to these tokens ends held up only if it may. -/
def Suits (v : Bool) (closing : TokenSet) : Prop := v = false → closing.Impartial

/-- Whether what is read stops at these tokens. -/
theorem stops (hv : Suits v closing) (hu : v = true → u = true) {f g : Bool → Parse α}
    (hf : ∀ b, L.Rel u v (f b) (g b)) :
    L.Rel u v (Grammar.isAt closing >>= f) (Grammar.isAt closing >>= g) := by
  cases v with
  | false => exact L.isAt (hv rfl) hf
  | true =>
    obtain rfl := hu rfl
    exact L.isAtAny hf

/-- The three functions of two bundles are coupled, together with what follows them. A step that
begins held up makes nothing, and an expression only keeps its left part, or else neither ends in
good order. -/
structure Couples (L : Coupling P) (p q : Productions) : Prop where
  step : ∀ {α : Type} {u v : Bool} {left : Option ExprId} {closing : TokenSet}
    {f g : Option ExprId → Parse α}, Suits v closing → (v = true → u = true) →
    (∀ made, L.Rel v v (f made) (g made)) → L.Rel u v (f none) (g none) →
    L.Rel u v (p.step left closing >>= f) (q.step left closing >>= g)
  extend : ∀ {α : Type} {u v : Bool} {left : Option ExprId} {closing : TokenSet}
    {f g : Option ExprId → Parse α}, Suits v closing → (v = true → u = true) →
    (∀ made, L.Rel v v (f made) (g made)) → L.Rel u v (f left) (g left) →
    L.Rel u v (p.extend left closing >>= f) (q.extend left closing >>= g)
  sequence : ∀ {body : Array ExprId} {closing : TokenSet},
    L.Rel false false (p.sequence body closing) (q.sequence body closing)

namespace Couples

variable {L : Coupling P} {p q : Productions} {left : Option ExprId}
  {f g : Option ExprId → Parse α}

theorem stepping (hp : L.Couples p q) (hv : Suits v closing)
    (hf : ∀ made, L.Rel v v (f made) (g made)) :
    L.Rel v v (p.step left closing >>= f) (q.step left closing >>= g) :=
  hp.step hv id hf (hf none)

theorem reading (hp : L.Couples p q) (hv : Suits v closing)
    (hf : ∀ made, L.Rel v v (f made) (g made)) :
    L.Rel v v (p.extend left closing >>= f) (q.extend left closing >>= g) :=
  hp.extend hv id hf (hf left)

/-- What follows copes with being held up, so that any tokens may close what is read. -/
theorem readingAny (hp : L.Couples p q) (hf : ∀ made, L.Rel true v (f made) (g made)) :
    L.Rel false v (p.extend left closing >>= f) (q.extend left closing >>= g) := by
  have hread : L.Rel true true (p.extend left closing >>= Pure.pure)
      (q.extend left closing >>= Pure.pure) := hp.reading nofun fun _ => L.pure
  rw [bind_pure, bind_pure] at hread
  exact L.bind (L.fresh hread) hf

end Couples

end Coupling

end Grammar

end OnePass

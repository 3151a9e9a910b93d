import OnePass.Grammar.State

/-!
# Runs of the parts of a reading

What each part of a reading does to the state when it answers. The new states have names of
their own (`State.next`, `State.add`, …) and the parts one lemma each: a lemma named `*_ok`
says when a part answers what, and one named `*_bind` the same of a part that something
follows. Where a question to the tree has an answer, what follows goes on with it (`*_eq`).
Whole productions are taken apart with these lemmas once, and nothing else unfolds the monad.
-/

namespace OnePass.Grammar

/-! ## States -/

namespace State

/-- After the next token. -/
def next (s : State) : State := { s with cursor := s.cursor.advance }

/-- After all the tokens of `wanted` that come next. -/
def past (s : State) (wanted : TokenSet) : State := { s with cursor := s.cursor.skip wanted }

/-- The handle that the next new expression gets. -/
def newExpr (s : State) : ExprId := ⟨s.tree.exprs.size⟩

/-- With one more expression. -/
def add (s : State) (node : Node) (span : Span) : State :=
  { s with tree := (s.tree.pushExpr ⟨node, span⟩).2 }

/-- The handle that the next new entity gets. -/
def newEntity (s : State) : EntityId := ⟨s.tree.entities.size⟩

/-- With one more entity, which no name stands for. -/
def addEntity (s : State) (entity : Entity) : State :=
  { s with tree := (s.tree.pushEntity entity).2 }

/-- With a name that stands for an entity. -/
def bind (s : State) (name : String) (entity : EntityId) : State :=
  { s with tree := s.tree.bind name entity }

/-- With one more entity, which its own name stands for. -/
def install (s : State) (entity : Entity) : State :=
  (s.addEntity entity).bind entity.name s.newEntity

/-- Inside one more construct. -/
def inside (s : State) (c : Construct) : State := { s with constructs := c :: s.constructs }

/-- Outside the construct begun last. -/
def outside (s : State) : State := { s with constructs := s.constructs.tail }

end State

/-- Work on the open frames leads from one state to another. -/
def Frames {α : Type} (work : Framing α) (s : State) (x : α) (s' : State) : Prop :=
  work s.tree = .ok x s'.tree ∧ s'.cursor = s.cursor ∧ s'.constructs = s.constructs

/-- Opening `frame` leads from one state to another. -/
def Opens (s : State) (frame : FrameId) (s' : State) : Prop := Frames Tree.openFrame s frame s'

/-- Opening `frame` again leads from one state to another. -/
def Enters (s : State) (frame : FrameId) (s' : State) : Prop :=
  Frames (Tree.enterFrame frame) s () s'

/-- Closing the innermost open frame leads from one state to another. -/
def Closes (s s' : State) : Prop := ∃ frame, Frames Tree.closeFrame s frame s'

/-- Whether a value of one type converts into another without being told to. -/
def Converts (t : Tree) (source target : EntityId) : Prop :=
  ∃ cast, t.cast? source target = some cast ∧ cast.isImplicit = true

/-! ## Sequences -/

section

variable {α β : Type} {s s' : State} {b : β}

theorem bind_run {ε σ : Type} (x : EStateM ε σ α) (f : α → EStateM ε σ β) (s : σ) :
    (x >>= f) s = match x s with
      | .ok a s₁ => f a s₁
      | .error e s₁ => .error e s₁ := by
  show EStateM.bind x f s = _
  unfold EStateM.bind
  cases x s <;> rfl

/-- What follows a part that answers goes on with the answer. -/
theorem bind_eq {ε σ : Type} {s s₁ : σ} {x : EStateM ε σ α} {a : α} (h : x s = .ok a s₁)
    {f : α → EStateM ε σ β} : (x >>= f) s = f a s₁ := by
  rw [bind_run, h]

/-- What follows a part that ends with a fault is not reached. -/
theorem bind_error {ε σ : Type} {s s₁ : σ} {x : EStateM ε σ α} {e : ε} (h : x s = .error e s₁)
    {f : α → EStateM ε σ β} : (x >>= f) s = .error e s₁ := by
  rw [bind_run, h]

theorem bind_ok {ε σ : Type} {s s' : σ} {x : EStateM ε σ α} {f : α → EStateM ε σ β} :
    (x >>= f) s = .ok b s' ↔ ∃ a s₁, x s = .ok a s₁ ∧ f a s₁ = .ok b s' := by
  rw [bind_run]
  constructor
  · intro h
    cases hx : x s with
    | ok a s₁ => exact ⟨a, s₁, rfl, by rwa [hx] at h⟩
    | error e s₁ => rw [hx] at h; cases h
  · rintro ⟨a, s₁, hx, h⟩
    rw [hx]
    exact h

theorem pure_ok {a : α} {x : α} : (pure a : Parse α) s = .ok x s' ↔ a = x ∧ s = s' := by
  show EStateM.Result.ok a s = _ ↔ _
  simp

theorem fail_ne_ok {cause : Cause} {span : Span} : (fail cause span : Parse β) s ≠ .ok b s' := by
  intro h
  cases h

theorem unexpected_ne_ok {wanted : TokenSet} {token : Token} :
    (unexpected wanted token : Parse β) s ≠ .ok b s' := fail_ne_ok

theorem ite_ok {c : Prop} [Decidable c] {x y : Parse β} :
    (if c then x else y) s = .ok b s' ↔ (c ∧ x s = .ok b s') ∨ (¬c ∧ y s = .ok b s') := by
  by_cases h : c <;> simp [h]

/-- A run that does not end with a fault answers. -/
theorem exists_ok {ε σ : Type} {r : EStateM.Result ε σ α}
    (h : (match r with
      | .ok .. => true
      | .error .. => false) = true) : ∃ a s', r = .ok a s' := by
  cases r with
  | ok a s' => exact ⟨a, s', rfl⟩
  | error => cases h

/-- Whether a run answers, and the answer and the state then pass a check. -/
def passes {ε σ : Type} (r : EStateM.Result ε σ α) (check : α → σ → Bool) : Bool :=
  match r with
  | .ok a s' => check a s'
  | .error .. => false

theorem exists_of_passes {ε σ : Type} {r : EStateM.Result ε σ α} {check : α → σ → Bool}
    (h : passes r check = true) : ∃ a s', r = .ok a s' ∧ check a s' = true := by
  cases r with
  | ok a s' => exact ⟨a, s', rfl, h⟩
  | error => cases h

/-! ## Tokens -/

theorem current_bind {f : Token → Parse β} : (current >>= f) s = f s.cursor.current s := rfl

theorem isAt_bind {wanted : TokenSet} {f : Bool → Parse β} :
    (isAt wanted >>= f) s = f (s.cursor.isAt wanted) s := rfl

theorem atEnd_bind {f : Bool → Parse β} : (atEnd >>= f) s = f s.cursor.atEnd s := rfl

theorem previousSpan_bind {f : Span → Parse β} :
    (previousSpan >>= f) s = f s.cursor.previousSpan s := rfl

theorem get_bind {f : State → Parse β} : (get >>= f) s = f s s := rfl

theorem skip_bind {wanted : TokenSet} {f : Unit → Parse β} :
    (skip wanted >>= f) s = f () (s.past wanted) := rfl

theorem accept?_run (wanted : TokenSet) (s : State) :
    accept? wanted s =
      if s.cursor.isAt wanted = true then .ok (some s.cursor.current) s.next else .ok none s := by
  show EStateM.Result.ok (Prod.fst (ite _ _ _)) (Prod.snd (ite _ _ _)) = _
  split <;> rfl

theorem accept?_bind {wanted : TokenSet} {f : Option Token → Parse β} :
    (accept? wanted >>= f) s = .ok b s' ↔
      (s.cursor.isAt wanted = true ∧ f (some s.cursor.current) s.next = .ok b s') ∨
        (s.cursor.isAt wanted = false ∧ f none s = .ok b s') := by
  rw [bind_run, accept?_run]
  cases h : s.cursor.isAt wanted <;> simp

/-! ## Questions to the tree -/

theorem known_run (answer : Option α) (s : State) :
    known answer s = match answer with
      | some a => .ok a s
      | none => .error ⟨.missingHandle, none⟩ s := by
  cases answer <;> rfl

theorem known_bind {answer : Option α} {f : α → Parse β} :
    (known answer >>= f) s = .ok b s' ↔ ∃ a, answer = some a ∧ f a s = .ok b s' := by
  rw [bind_run, known_run]
  cases answer <;> simp

/-- The question for one part of an expression, of which `nodeOf` and `spanOf` are cases. -/
def partOf (part : Expr → α) (id : ExprId) : Parse α := do
  return part (← known ((← get).tree.expr? id))

theorem partOf_run (part : Expr → α) (id : ExprId) (s : State) :
    partOf part id s = match s.tree.expr? id with
      | some e => .ok (part e) s
      | none => .error ⟨.missingHandle, none⟩ s := by
  show (known (s.tree.expr? id) >>= fun e => pure (part e)) s = _
  rw [bind_run, known_run]
  cases s.tree.expr? id <;> rfl

theorem partOf_bind (part : Expr → α) {id : ExprId} {f : α → Parse β} :
    (partOf part id >>= f) s = .ok b s' ↔
      ∃ e, s.tree.expr? id = some e ∧ f (part e) s = .ok b s' := by
  rw [bind_run, partOf_run]
  cases s.tree.expr? id <;> simp

theorem nodeOf_bind {id : ExprId} {f : Node → Parse β} :
    (nodeOf id >>= f) s = .ok b s' ↔ ∃ e, s.tree.expr? id = some e ∧ f e.node s = .ok b s' :=
  partOf_bind Expr.node

theorem spanOf_bind {id : ExprId} {f : Span → Parse β} :
    (spanOf id >>= f) s = .ok b s' ↔ ∃ e, s.tree.expr? id = some e ∧ f e.span s = .ok b s' :=
  partOf_bind Expr.span

theorem entityOf_bind {id : EntityId} {f : Entity → Parse β} :
    (entityOf id >>= f) s = .ok b s' ↔ ∃ e, s.tree.entity? id = some e ∧ f e s = .ok b s' :=
  known_bind

theorem frameOf_bind {id : FrameId} {f : Frame → Parse β} :
    (frameOf id >>= f) s = .ok b s' ↔
      ∃ frame, s.tree.frame? id = some frame ∧ f frame s = .ok b s' := known_bind

theorem typeOf_bind {id : ExprId} {f : EntityId → Parse β} :
    (typeOf id >>= f) s = .ok b s' ↔
      ∃ type, s.tree.exprType? id = some type ∧ f type s = .ok b s' := known_bind

theorem typeNameOf_bind {id : EntityId} {f : String → Parse β} :
    (typeNameOf id >>= f) s = .ok b s' ↔
      ∃ name, s.tree.typeName? id = some name ∧ f name s = .ok b s' := known_bind

theorem converts_run (source target : EntityId) (s : State) :
    converts source target s = match s.tree.cast? source target with
      | some cast => .ok cast.isImplicit s
      | none => .error ⟨.endlessType, none⟩ s := by
  show (match s.tree.cast? source target with
      | some cast => pure cast.isImplicit
      | none => throw ⟨.endlessType, none⟩ : Parse Bool) s = _
  cases s.tree.cast? source target <;> rfl

theorem converts_bind {source target : EntityId} {f : Bool → Parse β} :
    (converts source target >>= f) s = .ok b s' ↔
      ∃ cast, s.tree.cast? source target = some cast ∧ f cast.isImplicit s = .ok b s' := by
  rw [bind_run, converts_run]
  cases s.tree.cast? source target <;> simp

/-! ## Questions that have an answer -/

theorem known_eq {answer : Option α} {a : α} (h : answer = some a) {f : α → Parse β} :
    (known answer >>= f) s = f a s := by
  rw [bind_run, known_run, h]

theorem partOf_eq (part : Expr → α) {id : ExprId} {e : Expr} (h : s.tree.expr? id = some e)
    {f : α → Parse β} : (partOf part id >>= f) s = f (part e) s := by
  rw [bind_run, partOf_run, h]

theorem nodeOf_eq {id : ExprId} {e : Expr} (h : s.tree.expr? id = some e) {f : Node → Parse β} :
    (nodeOf id >>= f) s = f e.node s := partOf_eq Expr.node h

theorem spanOf_eq {id : ExprId} {e : Expr} (h : s.tree.expr? id = some e) {f : Span → Parse β} :
    (spanOf id >>= f) s = f e.span s := partOf_eq Expr.span h

theorem entityOf_eq {id : EntityId} {e : Entity} (h : s.tree.entity? id = some e)
    {f : Entity → Parse β} : (entityOf id >>= f) s = f e s := known_eq h

theorem typeOf_eq {id : ExprId} {type : EntityId} (h : s.tree.exprType? id = some type)
    {f : EntityId → Parse β} : (typeOf id >>= f) s = f type s := known_eq h

theorem typeNameOf_eq {id : EntityId} {name : String} (h : s.tree.typeName? id = some name)
    {f : String → Parse β} : (typeNameOf id >>= f) s = f name s := known_eq h

theorem converts_eq {source target : EntityId} {cast : Cast}
    (h : s.tree.cast? source target = some cast) {f : Bool → Parse β} :
    (converts source target >>= f) s = f cast.isImplicit s := by
  rw [bind_run, converts_run, h]

/-! ## Changes of the tree -/

theorem push_run (node : Node) (span : Span) (s : State) :
    push node span s = .ok s.newExpr (s.add node span) := rfl

theorem push_ok {node : Node} {span : Span} {id : ExprId} :
    push node span s = .ok id s' ↔ id = s.newExpr ∧ s' = s.add node span := by
  rw [push_run]
  simp [eq_comm]

theorem pushEntity_bind {entity : Entity} {f : EntityId → Parse β} :
    (pushEntity entity >>= f) s = f s.newEntity (s.addEntity entity) := rfl

theorem install_bind {entity : Entity} {f : EntityId → Parse β} :
    (install entity >>= f) s = f s.newEntity (s.install entity) := rfl

theorem bindName_bind {name : String} {entity : EntityId} {f : Unit → Parse β} :
    (bindName name entity >>= f) s = f () (s.bind name entity) := rfl

theorem beginConstruct_bind {c : Construct} {f : Unit → Parse β} :
    (beginConstruct c >>= f) s = f () (s.inside c) := rfl

theorem endConstruct_bind {f : Unit → Parse β} : (endConstruct >>= f) s = f () s.outside := rfl

/-! ## Frames -/

theorem framing_run (span : Span) (work : Framing α) (s : State) :
    framing span work s = match work s.tree with
      | .ok a tree => .ok a { s with tree := tree }
      | .error e tree => .error ⟨.stack e, some span⟩ { s with tree := tree } := rfl

theorem framing_ok {span : Span} {work : Framing α} {a : α} :
    framing span work s = .ok a s' ↔ Frames work s a s' := by
  rw [framing_run, Frames]
  cases work s.tree with
  | ok x tree =>
    obtain ⟨cursor, tree', constructs⟩ := s'
    simp only [EStateM.Result.ok.injEq, State.mk.injEq]
    constructor
    · rintro ⟨rfl, rfl, rfl, rfl⟩
      exact ⟨⟨rfl, rfl⟩, rfl, rfl⟩
    · rintro ⟨⟨rfl, rfl⟩, rfl, rfl⟩
      exact ⟨rfl, rfl, rfl, rfl⟩
  | error e tree => simp

end

end OnePass.Grammar

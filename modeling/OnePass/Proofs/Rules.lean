import OnePass.Proofs.Typing

/-!
# Typing rules

What a node has to satisfy (`Node.Typed`) and what makes a tree sound (`Tree.Sound`). The rule
of a node asks for the types of other expressions, and so it is a question to the whole tree.
It is kept when the tree evolves (`Node.Typed.mono`), which is why a rule that was checked when
its node was made still holds at the end.

A sound tree is one in which, besides, handles point to older things. Then every question about
types has an answer: the type of an expression that is there is a type that is there
(`Tree.Sound.exprType?`), and so on.
-/

namespace OnePass

/-! ## Nodes -/

/-- The one of two readings that prevails: float over signed over raw. -/
def Reading.prevailing (a b : Reading) : Reading :=
  if a.dominant = .asFloat ∨ b.dominant = .asFloat then .asFloat
  else if a.dominant = .asSigned ∨ b.dominant = .asSigned then .asSigned
  else .raw

theorem Reading.dominant_join (a b : Reading) : (a.join b).dominant = a.prevailing b := by
  obtain ⟨aSigned, aFloat⟩ := a
  obtain ⟨bSigned, bFloat⟩ := b
  cases aSigned <;> cases aFloat <;> cases bSigned <;> cases bFloat <;> rfl

namespace Node

/-- The expressions that a node is made of. -/
def children : Node → List ExprId
  | .unary _ _ _ operand => [operand]
  | .binary _ _ left right => [left, right]
  | .group inner => [inner]
  | .scope body _ | .record _ body _ => body
  | .result value _ => value.toList
  | .definition _ _ init _ next => init.toList ++ next.toList
  | .signature params _ _ => params.toList
  | .function _ _ header body => [header, body]
  | .call callee _ args => callee :: args.toList
  | .argument value next => value :: next.toList
  | .branch cond thenScope elseScope _ => cond :: thenScope :: elseScope.toList
  | .loop init cond step body _ => [init, cond, step, body]
  | .whileLoop cond body _ => [cond, body]
  | .typedef _ _ body _ => [body]
  | .member base _ _ => [base]
  | .structLiteral _ args => args.toList
  | _ => []

/-- The entity that a node defines or refers to, other than as a type that it keeps. -/
def referent? : Node → Option EntityId
  | .name _ entity => entity
  | .result _ entity | .definition _ _ _ entity _ | .function _ entity _ _ | .call _ entity _
  | .typedef _ _ _ entity | .member _ _ entity => some entity
  | _ => none

/-- What can be assigned to is referred to. -/
theorem referent?_of_assigned {node : Node} {entity : EntityId}
    (h : Grammar.assignedEntity? node = some entity) : node.referent? = some entity := by
  cases node <;> first | exact h | cases h

end Node

namespace Tree

variable {t t' : Tree}

/-- The entity can stand where a type is expected. -/
def IsType (t : Tree) (id : EntityId) : Prop := ∃ e, t.entity? id = some e ∧ e.isType = true

/-- The type of an expression is the atomic type `a`. -/
def HasAtom (t : Tree) (id : ExprId) (a : Atom) : Prop :=
  ∃ type e, t.exprType? id = some type ∧ t.entity? type = some e ∧ e.atom? = some a

/-- The expression is the use of a variable, or of one that is a member. -/
def Assignable (t : Tree) (id : ExprId) : Prop :=
  ∃ e entity v, t.expr? id = some e ∧ Grammar.assignedEntity? e.node = some entity ∧
    t.entity? entity = some v ∧ v.isVar = true

/-- The expression converts into a type without being told to. -/
def Fills (t : Tree) (id : ExprId) (type : EntityId) : Prop :=
  ∃ source, t.exprType? id = some source ∧ Grammar.Converts t source type

/-- The type is the built-in one that arithmetic on two atomic types results in. -/
def Composes (a b : Atom) (type : EntityId) : Prop :=
  ∃ c ∈ Builtin.composable, c.handle = type ∧
    c.kind = .atom ⟨a.reading.prevailing b.reading, max a.size b.size⟩

end Tree

/-- The typing rule of a node holds in a tree. -/
def Node.Typed (t : Tree) : Node → Prop
  | .unary _ _ type operand => t.exprType? operand = some type ∧ ∃ a, t.HasAtom operand a
  | .binary op type left right =>
    match op.family with
    | .assign => t.Assignable left ∧ t.exprType? left = some type ∧ t.Fills right type
    | .arithmetic => ∃ a b, t.HasAtom left a ∧ t.HasAtom right b ∧ Tree.Composes a b type
    | .logic => (∃ a, t.HasAtom left a) ∧ (∃ b, t.HasAtom right b) ∧ type = Builtin.bool.handle
  | .definition _ _ (some init) entity _ => ∃ e type start stop,
    t.entity? entity = some e ∧ e.kind = .var type start stop ∧ t.Fills init type
  | .branch cond _ _ _ | .loop _ cond _ _ _ | .whileLoop cond _ _ =>
    t.Fills cond Builtin.bool.handle
  | .signature _ type _ => t.IsType type
  | .structLiteral type _ => t.IsType type
  | _ => True

/-! ## Rules over time -/

namespace Tree

variable {t t' : Tree}

theorem IsType.mono {id : EntityId} (hid : t.IsType id) (h : t.Extends t') : t'.IsType id := by
  obtain ⟨e, he, htype⟩ := hid
  exact ⟨e, h.entity he, htype⟩

theorem IsType.hasEntity {id : EntityId} (h : t.IsType id) : t.HasEntity id := by
  obtain ⟨e, he, _⟩ := h
  exact hasEntity_iff.2 ⟨e, he⟩

/-- What is a type denotes itself. -/
theorem IsType.entityType? {id : EntityId} (h : t.IsType id) : t.entityType? id = some id := by
  obtain ⟨⟨name, kind⟩, he, htype⟩ := h
  unfold Tree.entityType?
  rw [he]
  cases kind with
  | var => cases htype
  | _ => rfl

theorem HasAtom.mono {id : ExprId} {a : Atom} (ha : t.HasAtom id a) (h : t.Extends t')
    (hb : t.HasBuiltins) : t'.HasAtom id a := by
  obtain ⟨type, e, htype, he, ha⟩ := ha
  exact ⟨type, e, exprType?_mono h hb htype, h.entity he, ha⟩

theorem Assignable.mono {id : ExprId} (hid : t.Assignable id) (h : t.Extends t') :
    t'.Assignable id := by
  obtain ⟨e, entity, v, he, hassigned, hv, hvar⟩ := hid
  exact ⟨e, entity, v, h.expr he, hassigned, h.entity hv, hvar⟩

theorem Fills.mono {id : ExprId} {type : EntityId} (hid : t.Fills id type) (h : t.Evolves t')
    (hb : t.HasBuiltins) (hrecords : t.HasRecords) : t'.Fills id type := by
  obtain ⟨source, hsource, hconverts⟩ := hid
  exact ⟨source, exprType?_mono h.toExtends hb hsource, converts_mono h hrecords hconverts⟩

end Tree

/-- A rule that holds goes on holding. -/
theorem Node.Typed.mono {t t' : Tree} {node : Node} (hnode : node.Typed t) (h : t.Evolves t')
    (hb : t.HasBuiltins) (hrecords : t.HasRecords) : node.Typed t' := by
  cases node with
  | unary _ _ type operand =>
    obtain ⟨htype, a, ha⟩ := hnode
    exact ⟨Tree.exprType?_mono h.toExtends hb htype, a, ha.mono h.toExtends hb⟩
  | binary op type left right =>
    unfold Typed at hnode ⊢
    cases hfamily : op.family with
    | assign =>
      simp only [hfamily] at hnode ⊢
      obtain ⟨hassignable, htype, hfills⟩ := hnode
      exact ⟨hassignable.mono h.toExtends, Tree.exprType?_mono h.toExtends hb htype,
        hfills.mono h hb hrecords⟩
    | arithmetic =>
      simp only [hfamily] at hnode ⊢
      obtain ⟨a, b, ha, hb', hcomposes⟩ := hnode
      exact ⟨a, b, ha.mono h.toExtends hb, hb'.mono h.toExtends hb, hcomposes⟩
    | logic =>
      simp only [hfamily] at hnode ⊢
      obtain ⟨⟨a, ha⟩, ⟨b, hb'⟩, htype⟩ := hnode
      exact ⟨⟨a, ha.mono h.toExtends hb⟩, ⟨b, hb'.mono h.toExtends hb⟩, htype⟩
  | definition _ _ init _ _ =>
    cases init with
    | none => trivial
    | some init =>
      obtain ⟨e, type, start, stop, he, hkind, hfills⟩ := hnode
      exact ⟨e, type, start, stop, h.entity he, hkind, hfills.mono h hb hrecords⟩
  | branch cond | loop _ cond | whileLoop cond =>
    have hfills : t.Fills cond Builtin.bool.handle := hnode
    exact hfills.mono h hb hrecords
  | signature _ type | structLiteral type =>
    have htype : t.IsType type := hnode
    exact htype.mono h.toExtends
  | _ => trivial

/-! ## Soundness -/

theorem Entity.kind_of_atom? {e : Entity} {a : Atom} (h : e.atom? = some a) : e.kind = .atom a := by
  obtain ⟨name, kind⟩ := e
  cases kind with
  | atom => exact congrArg EntityKind.atom (Option.some.inj h)
  | _ => cases h

theorem Entity.isType_of_atom? {e : Entity} {a : Atom} (h : e.atom? = some a) :
    e.isType = true := by
  unfold isType isVar
  rw [kind_of_atom? h]
  rfl

namespace Tree

variable {t t' : Tree}

/-- What an entity refers to is older than the entity, and a type where it has to be one. -/
def KindSound (t : Tree) (id : EntityId) : EntityKind → Prop
  | .var type _ _ => type.index < id.index ∧ t.IsType type
  | .function params result =>
    (∀ p ∈ params, p.index < id.index) ∧ result.index < id.index ∧ t.IsType result
  | .struct frame | .enum frame => t.IsRecordFrame frame ∧
    ∀ f, t.frame? frame = some f → ∀ m ∈ f.entities, m.index < id.index
  | _ => True

/-- The children of a node are older than the node, what it refers to is there, and it
satisfies its rule. -/
structure NodeSound (t : Tree) (id : ExprId) (node : Node) : Prop where
  children : ∀ c ∈ node.children, c.index < id.index
  referent : ∀ m, node.referent? = some m → t.HasEntity m
  own : ∀ f, node.ownFrame? = some f → t.HasFrame f
  typed : node.Typed t

/-- All entities and nodes are sound, names stand for entities that are there, and the frame
of a record is neither open nor that of a signature, so that nothing is defined in it. -/
structure Sound (t : Tree) : Prop where
  framed : t.Framed
  builtins : t.HasBuiltins
  kind : ∀ {id e}, t.entity? id = some e → t.KindSound id e.kind
  names : ∀ {id f}, t.frame? id = some f → ∀ m ∈ f.entities, t.HasEntity m
  node : ∀ {id e}, t.expr? id = some e → t.NodeSound id e.node
  closed : ∀ {f}, t.IsRecordFrame f → f ∉ t.stack.items
  apart : ∀ {f}, t.IsRecordFrame f → ∀ {id e}, t.expr? id = some e →
    e.node.signatureFrame? ≠ some f

theorem HasBuiltins.isType (h : t.HasBuiltins) (b : Builtin) : t.IsType b.handle :=
  ⟨b.entity, h b, by cases b <;> rfl⟩

/-- What is composed is the built-in type of the prevailing reading and of the size. -/
theorem compose?_eq_some (h : t.HasBuiltins) {reading : Reading} {size : Nat} {type : EntityId}
    (hcompose : t.compose? reading size = some type) :
    ∃ c ∈ Builtin.composable, c.handle = type ∧ c.kind = .atom ⟨reading.dominant, size⟩ := by
  unfold compose? at hcompose
  rw [List.find?_map] at hcompose
  obtain ⟨c, hc, rfl⟩ := Option.map_eq_some_iff.1 hcompose
  have hatom := List.find?_some hc
  simp only [Function.comp, isAtom, h c, decide_eq_true_eq] at hatom
  refine ⟨c, List.mem_of_find?_eq_some hc, rfl, ?_⟩
  exact Entity.kind_of_atom? (e := c.entity) hatom

/-- The type of a literal number. -/
theorem HasBuiltins.isType_compose? (h : t.HasBuiltins) (reading : Reading) (size : Nat) :
    t.IsType ((t.compose? reading size).getD Builtin.void.handle) := by
  cases hcompose : t.compose? reading size with
  | none => exact h.isType .void
  | some type =>
    obtain ⟨c, _, rfl, _⟩ := compose?_eq_some h hcompose
    exact h.isType c

/-- The type that an operation keeps is that of its left operand or a built-in one. -/
theorem isType_of_typed_binary (h : t.HasBuiltins) {op : BinaryOp} {type : EntityId}
    {left right : ExprId} (htyped : (Node.binary op type left right).Typed t)
    (hleft : t.exprType? left = some type → t.IsType type) : t.IsType type := by
  unfold Node.Typed at htyped
  cases hfamily : op.family with
  | assign =>
    simp only [hfamily] at htyped
    exact hleft htyped.2.1
  | arithmetic =>
    simp only [hfamily] at htyped
    obtain ⟨_, _, _, _, c, _, rfl, _⟩ := htyped
    exact h.isType c
  | logic =>
    simp only [hfamily] at htyped
    obtain ⟨_, _, rfl⟩ := htyped
    exact h.isType .bool

namespace Sound

theorem hasRecords (h : t.Sound) : t.HasRecords := by
  rintro id ⟨name, kind⟩ f he hf
  have hkind := h.kind he
  cases kind with
  | struct | enum =>
    cases hf
    exact hkind.1
  | _ => cases hf

/-- An entity denotes a type, and one that is no younger. -/
theorem entityType? (h : t.Sound) {id : EntityId} (hid : t.HasEntity id) :
    ∃ type, t.entityType? id = some type ∧ t.IsType type ∧ type.index ≤ id.index := by
  obtain ⟨⟨name, kind⟩, he⟩ := hasEntity_iff.1 hid
  have hkind := h.kind he
  unfold Tree.entityType?
  rw [he]
  cases kind with
  | var type => exact ⟨type, rfl, hkind.2, Nat.le_of_lt hkind.1⟩
  | _ => exact ⟨id, rfl, ⟨_, he, rfl⟩, Nat.le_refl _⟩

/-- The type of an expression is found in as many steps as the expression is old. -/
theorem exprTypeWithin? (h : t.Sound) {n : Nat} (hn : n ≤ t.exprs.size + 1) {id : ExprId}
    (hlt : id.index < n) (hid : t.HasExpr id) :
    ∃ type, t.exprTypeWithin? n id = some type ∧ t.IsType type := by
  induction n generalizing id with
  | zero => exact absurd hlt (Nat.not_lt_zero _)
  | succ n ih =>
    obtain ⟨⟨node, span⟩, he⟩ := hasExpr_iff.1 hid
    have hnode := h.node he
    have hchild :
        ∀ c ∈ node.children, ∃ type, t.exprTypeWithin? n c = some type ∧ t.IsType type := by
      intro c hc
      have hlt' := hnode.children c hc
      exact ih (by omega) (by omega) (Nat.lt_trans hlt' hid)
    have hreferent : ∀ m, node.referent? = some m →
        ∃ type, t.entityType? m = some type ∧ t.IsType type := by
      intro m hm
      obtain ⟨type, htype, histype, _⟩ := h.entityType? (hnode.referent m hm)
      exact ⟨type, htype, histype⟩
    unfold Tree.exprTypeWithin?
    rw [he]
    cases node with
    | unary _ _ type operand =>
      obtain ⟨htype, a, _, e, htype', he, ha⟩ := hnode.typed
      obtain rfl := Option.some.inj (htype.symm.trans htype')
      exact ⟨_, rfl, e, he, Entity.isType_of_atom? ha⟩
    | binary op type left right =>
      refine ⟨type, rfl, isType_of_typed_binary h.builtins hnode.typed fun hleft => ?_⟩
      obtain ⟨found, hfound, histype⟩ := hchild left (by simp [Node.children])
      have hfound' : t.exprType? left = some found :=
        exprTypeWithin?_mono .refl h.builtins (Nat.le_of_succ_le hn) hfound
      obtain rfl := Option.some.inj (hleft.symm.trans hfound')
      exact histype
    | group inner => exact hchild inner (by simp [Node.children])
    | name _ entity =>
      cases entity with
      | none => exact ⟨_, rfl, h.builtins.isType .void⟩
      | some entity => exact hreferent entity rfl
    | definition _ _ _ entity | typedef _ _ _ entity | member _ _ entity | function _ entity =>
      exact hreferent entity rfl
    | char => exact ⟨_, rfl, h.builtins.isType .char⟩
    | int | float => exact ⟨_, rfl, h.builtins.isType_compose? _ _⟩
    | bool => exact ⟨_, rfl, h.builtins.isType .bool⟩
    | call _ function _ =>
      obtain ⟨⟨name, kind⟩, hf⟩ := hasEntity_iff.1 (hnode.referent function rfl)
      have hkind := h.kind hf
      show ∃ type, ((t.entity? function).bind fun e => _) = some type ∧ t.IsType type
      rw [hf]
      cases kind with
      | function params result => exact ⟨result, rfl, hkind.2.2⟩
      | _ => exact ⟨_, rfl, h.builtins.isType .void⟩
    | structLiteral type => exact ⟨type, rfl, hnode.typed⟩
    | _ => exact ⟨_, rfl, h.builtins.isType .void⟩

/-- The type of an expression that is there is a type that is there. -/
theorem exprType? (h : t.Sound) {id : ExprId} (hid : t.HasExpr id) :
    ∃ type, t.exprType? id = some type ∧ t.IsType type :=
  h.exprTypeWithin? (Nat.le_refl _) (Nat.lt_succ_of_lt hid) hid

end Sound

end Tree

end OnePass

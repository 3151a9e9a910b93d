import OnePass.Proofs.Answers
import OnePass.Proofs.Written

/-!
# Assignments

What stands on the left of an assignment is the use of a variable, or of one that is a member,
and that variable has exactly one definition (`assigned_variables_defined_once`). An assignment
to anything else is refused with a type error, and an assignment to a variable is accepted just
if the value converts into its type (`binaryOperation_assigns`).

Nothing asks for the symbol with which the variable was defined, so a constant is assigned to
like any other (`constant_is_assigned`).
-/

namespace OnePass

/-- The expression assigns to this entity if it stands on the left of an assignment. -/
def Tree.Target (t : Tree) (id : ExprId) (entity : EntityId) : Prop :=
  ∃ e, t.expr? id = some e ∧ Grammar.assignedEntity? e.node = some entity

namespace Grammar

variable {p : Productions} {s s₁ : State} {token : Token} {closing : TokenSet} {left right : ExprId}
  {l r : EntityId} {e : Expr}

/-! ## The check of an assignment -/

theorem isVariable_eq (hs : s.tree.Sound) (he : s.tree.expr? left = some e) :
    ∃ found, isVariable e.node s = .ok found s ∧ (found = true ↔ s.tree.Assignable left) := by
  unfold isVariable
  cases hassigned : assignedEntity? e.node with
  | none =>
    refine ⟨false, rfl, nofun, ?_⟩
    rintro ⟨e', v, _, he', hassigned', _⟩
    obtain rfl := Option.some.inj (he.symm.trans he')
    cases hassigned.symm.trans hassigned'
  | some v =>
    have hthere := (hs.node he).referent v (Node.referent?_of_assigned hassigned)
    obtain ⟨x, hx⟩ := Tree.hasEntity_iff.1 hthere
    refine ⟨x.isVar, entityOf_eq hx, ?_⟩
    constructor
    · intro hvar
      exact ⟨e, v, x, he, hassigned, hx, hvar⟩
    · rintro ⟨e', v', x', he', hassigned', hx', hvar⟩
      obtain rfl := Option.some.inj (he.symm.trans he')
      obtain rfl := Option.some.inj (hassigned.symm.trans hassigned')
      obtain rfl := Option.some.inj (hx.symm.trans hx')
      exact hvar

/-- Only a variable is assigned to. -/
theorem assignment_refuses (hs : s.tree.Sound) (he : s.tree.expr? left = some e)
    (hleft : ¬s.tree.Assignable left) :
    assignment token left l r s = .error ⟨.notAssignable e.node.label, some token.span⟩ s := by
  obtain ⟨found, hfound, hiff⟩ := isVariable_eq hs he
  obtain rfl : found = false := Bool.eq_false_iff.2 fun h => hleft (hiff.1 h)
  unfold assignment
  exact (nodeOf_eq he).trans (bind_eq hfound)

/-- A variable is assigned any value that converts into its type. -/
theorem assignment_accepts (hs : s.tree.Sound) (hleft : s.tree.Assignable left)
    (hconverts : Converts s.tree r l) : assignment token left l r s = .ok l s := by
  obtain ⟨e, _, _, he, _⟩ := id hleft
  obtain ⟨found, hfound, hiff⟩ := isVariable_eq hs he
  obtain rfl := hiff.2 hleft
  obtain ⟨cast, hcast, himplicit⟩ := hconverts
  unfold assignment
  refine (nodeOf_eq he).trans ((bind_eq hfound).trans ((converts_eq hcast).trans ?_))
  rw [if_pos himplicit]
  rfl

/-! ## Operations that assign -/

/-- An assignment to no variable is refused when its value has been read. -/
theorem binaryOperation_refuses (hkind : BinaryOp.ofToken? token.kind = some .assign)
    (hs₁ : s₁.tree.Sound) (hright : p.extend none closing s = .ok (some right) s₁)
    (he : s₁.tree.expr? left = some e) (hthere : s₁.tree.HasExpr right)
    (hleft : ¬s₁.tree.Assignable left) :
    binaryOperation p (some left) token closing s =
      .error ⟨.notAssignable e.node.label, some token.span⟩ s₁ := by
  obtain ⟨l, hl, _⟩ := hs₁.exprType? (Tree.hasExpr_iff.2 ⟨e, he⟩)
  obtain ⟨r, hr, _⟩ := hs₁.exprType? hthere
  have hrefused : operationType token .assign left right s₁ =
      .error ⟨.notAssignable e.node.label, some token.span⟩ s₁ := by
    unfold operationType
    exact (typeOf_eq hl).trans ((typeOf_eq hr).trans (assignment_refuses hs₁ he hleft))
  unfold binaryOperation
  simp only [hkind]
  exact (bind_eq hright).trans (bind_error hrefused)

/-- An assignment is accepted just if it is to a variable and the value converts into the type of
that. -/
theorem binaryOperation_assigns (hkind : BinaryOp.ofToken? token.kind = some .assign)
    (hs₁ : s₁.tree.Sound)
    (hright : p.extend none closing s = .ok (some right) s₁)
    (hthere : s₁.tree.HasExpr right) :
    (∃ id s', binaryOperation p (some left) token closing s = .ok id s') ↔
      s₁.tree.Assignable left ∧
        ∃ type, s₁.tree.exprType? left = some type ∧ s₁.tree.Fills right type := by
  constructor
  · rintro ⟨id, s', hrun⟩
    unfold binaryOperation at hrun
    simp only [hkind] at hrun
    obtain ⟨type, s₂, htype, _⟩ := bind_ok.1 ((bind_eq hright).symm.trans hrun)
    cases (operationType_ok htype).1 with
    | assignment _ hl hr hnode hassigned hentity hisVar hconverts =>
      exact ⟨⟨_, _, _, hnode, hassigned, hentity, hisVar⟩, _, hl, _, hr, hconverts⟩
    | arithmetic hfamily | logic hfamily => cases hfamily
  · rintro ⟨hleft, l, hl, r, hr, hconverts⟩
    obtain ⟨e, _, _, he, _⟩ := id hleft
    obtain ⟨f, hf⟩ := Tree.hasExpr_iff.1 hthere
    have hoperation : operationType token .assign left right s₁ = .ok l s₁ := by
      unfold operationType
      exact (typeOf_eq hl).trans ((typeOf_eq hr).trans (assignment_accepts hs₁ hleft hconverts))
    unfold binaryOperation
    simp only [hkind]
    exact ⟨_, _, (bind_eq hright).trans ((bind_eq hoperation).trans
      ((spanOf_eq he).trans ((spanOf_eq hf).trans (push_run _ _ _))))⟩

/-! ## Whole sources -/

/-- Every assignment of an accepted source is to a variable that has exactly one definition. An
assignment to anything else is refused with a type error, and one to a variable is accepted just
if the value converts into the type of the variable. -/
theorem assigned_variables_defined_once (source : String) :
    (∀ tree, parseSource source = .ok tree → ∀ id type left right span,
      tree.expr? id = some ⟨.binary .assign type left right, span⟩ →
      ∃ v x, tree.Target left v ∧ tree.entity? v = some x ∧ x.isVar = true ∧
        ∃! d, tree.Defines d v) ∧
    ∀ (n : Nat) (token : Token) (closing : TokenSet) (left right : ExprId) (s s₁ : State),
      s.tree.Sound → s.tree.HasExpr left → token.kind = .assign →
      (level n).extend none closing s = .ok (some right) s₁ →
      (¬s₁.tree.Assignable left → ∃ e, s₁.tree.expr? left = some e ∧
        binaryOperation (level n) (some left) token closing s =
          .error ⟨.notAssignable e.node.label, some token.span⟩ s₁ ∧
        (Cause.notAssignable e.node.label).kind = .typing) ∧
      ((∃ id s', binaryOperation (level n) (some left) token closing s = .ok id s') ↔
        s₁.tree.Assignable left ∧
          ∃ type, s₁.tree.exprType? left = some type ∧ s₁.tree.Fills right type) := by
  constructor
  · intro tree h id type left right span he
    obtain ⟨tokens, _, hparse⟩ := parseSource_ok h
    obtain ⟨hassignable, _, _⟩ := ((sound_of_parse hparse).node he).typed
    obtain ⟨l, v, x, hl, hassigned, hx, hvar⟩ := hassignable
    exact ⟨v, x, ⟨l, hl, hassigned⟩, hx, hvar, variable_defined_once hparse hx hvar⟩
  · intro n token closing left right s s₁ hs hleft hkind hright
    have hkind' : BinaryOp.ofToken? token.kind = some .assign := hkind ▸ rfl
    obtain ⟨log, hread⟩ := (faithful_level n).extend hright
    have hs₁ := hread.sound hs nofun
    have hthere := hread.made rfl rfl
    constructor
    · intro hrefused
      obtain ⟨e, he⟩ := Tree.hasExpr_iff.1 (hread.extends.hasExpr hleft)
      exact ⟨e, he, binaryOperation_refuses hkind' hs₁ hright he hthere hrefused, rfl⟩
    · exact binaryOperation_assigns hkind' hs₁ hright hthere

/-- After the symbol of an assignment to a number. -/
def afterAssign : State :=
  State.add ⟨⟨{ body := #[⟨.decimal, "1", default⟩, ⟨.assign, "=", default⟩,
                  ⟨.decimal, "2", default⟩]
                last := ⟨.eof, "", default⟩ }, 2⟩, .withBuiltins, []⟩ (.int 1 4) default

/-- A variable that is assigned to has one definition, and a number is not assigned to. -/
theorem assigned_variables_defined_once_number :
    (∃ tree left right v type span, parseSource "x := 1\nx = 2\n" = .ok tree ∧
      tree.expr? ⟨4⟩ = some ⟨.binary .assign type left right, span⟩ ∧ tree.Target left v ∧
      ∃! d, tree.Defines d v) ∧
    ∃ s₁, binaryOperation (level 3) (some ⟨0⟩) ⟨.assign, "=", default⟩ {.eof} afterAssign =
      .error ⟨.notAssignable "Int_Expr", some default⟩ s₁ := by
  constructor
  · have hrun : (parseSource "x := 1\nx = 2\n").toOption.any (fun tree =>
        (tree.expr? ⟨4⟩).map Expr.node =
          some (.binary .assign Builtin.s32.handle ⟨2⟩ ⟨3⟩)) = true := by decide +kernel
    obtain ⟨tree, hparse, hcheck⟩ := exists_parse hrun
    obtain ⟨span, he⟩ := exists_span (of_decide_eq_true hcheck)
    obtain ⟨v, _, htarget, _, _, honce⟩ :=
      (assigned_variables_defined_once _).1 tree hparse _ _ _ _ span he
    exact ⟨tree, _, _, v, _, span, hparse, he, htarget, honce⟩
  · obtain ⟨answer, s₁, hright, hsome⟩ := exists_of_passes
      (show passes ((level 3).extend none {.eof} afterAssign) (fun answer _ => answer.isSome) = true
        by decide +kernel)
    obtain ⟨right, rfl⟩ := Option.isSome_iff_exists.1 hsome
    have hs : afterAssign.tree.Sound :=
      Tree.sound_withBuiltins.pushExpr ⟨nofun, nofun, nofun, trivial⟩
    have hleft : afterAssign.tree.expr? ⟨0⟩ = some ⟨.int 1 4, default⟩ := rfl
    obtain ⟨log, hread⟩ := (faithful_level 3).extend hright
    have hleft₁ := hread.extends.expr hleft
    have hrefused : ¬s₁.tree.Assignable ⟨0⟩ := by
      rintro ⟨e, v, _, he, hassigned, _⟩
      obtain rfl := Option.some.inj (hleft₁.symm.trans he)
      cases hassigned
    obtain ⟨e, he, hrun', _⟩ := ((assigned_variables_defined_once "").2 3
      ⟨.assign, "=", default⟩ _ _ right _ s₁ hs (Tree.hasExpr_iff.2 ⟨_, hleft⟩) rfl hright).1
      hrefused
    obtain rfl := Option.some.inj (hleft₁.symm.trans he)
    exact ⟨s₁, hrun'⟩

/-- A constant is assigned to: it has been defined with `::`, and nothing asks for that. -/
theorem constant_is_assigned :
    ¬∀ (source : String) (tree : Tree), parseSource source = .ok tree →
      ∀ id type left right span v,
        tree.expr? id = some ⟨.binary .assign type left right, span⟩ → tree.Target left v →
        ∀ d name op init next span', tree.expr? d = some ⟨.definition name op init v next, span'⟩ →
          op = .variable := by
  intro h
  have hrun : (parseSource "x :: 1\nx = 2\n").toOption.any (fun tree =>
      decide ((tree.expr? ⟨1⟩).map Expr.node =
          some (.definition "x" .constant (some ⟨0⟩) ⟨16⟩ none) ∧
        (tree.expr? ⟨2⟩).map Expr.node = some (.name "x" (some ⟨16⟩)) ∧
        (tree.expr? ⟨4⟩).map Expr.node =
          some (.binary .assign Builtin.s32.handle ⟨2⟩ ⟨3⟩))) = true := by decide +kernel
  obtain ⟨tree, hparse, hcheck⟩ := exists_parse hrun
  obtain ⟨hdefinition, hleft, hassign⟩ := of_decide_eq_true hcheck
  obtain ⟨definedAt, hd⟩ := exists_span hdefinition
  obtain ⟨usedAt, hl⟩ := exists_span hleft
  obtain ⟨assignedAt, he⟩ := exists_span hassign
  cases h _ tree hparse _ _ _ _ _ _ he ⟨_, hl, rfl⟩ _ _ _ _ _ _ hd

end Grammar

end OnePass

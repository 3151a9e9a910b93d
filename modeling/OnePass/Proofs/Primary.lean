import OnePass.Proofs.Written

/-!
# What an expression begins with

An expression is either a compound, that is an operation or something else that is made of a left
part, or else it is just what its first token begins (`Reads.extend_start`). A definition and a
signature are no compounds. So where the grammar asks what sort of expression it has read, and
finds one of these, the reading was that of a definition or of a group
(`Reads.extend_definition`, `Reads.extend_signature`).
-/

namespace OnePass

/-- Whether the node is an operation, or else made of a left part. -/
def Node.isCompound : Node → Bool
  | .unary .. | .binary .. | .call .. | .structLiteral .. | .member .. => true
  | _ => false

namespace Grammar

variable {s s₁ s' : State} {log : List Binding} {closing : TokenSet} {left id : ExprId}
  {answer : Option ExprId} {e : Expr}

/-- The expression is a compound. -/
def Compound (t : Tree) (id : ExprId) : Prop := ∃ e, t.expr? id = some e ∧ e.node.isCompound = true

/-- The expression is what one token begins, and nothing was made before or after that. -/
inductive Starts (closing : TokenSet) (id : ExprId) (s : State) (log : List Binding) (s' : State) :
    Prop where
  | token {token : Token} {φ : Phrase} {s₀ s₁ : State} (hbegins : Begins token closing id none φ)
      (hread : Reads φ s₀ log s₁) (hbefore : s₀.tree = s.tree) (hafter : s'.tree = s₁.tree) :
      Starts closing id s log s'

/-! ## After a left part -/

theorem compound_add {node : Node} {span : Span} (h : node.isCompound = true) :
    Compound (s.add node span).tree s.newExpr := ⟨_, expr?_newExpr s node span, h⟩

/-- A step after a left part leaves it as it is or makes a compound. -/
theorem Reads.step_left (h : Reads (.step (some left) closing (some id)) s log s') :
    (id = left ∧ log = [] ∧ s'.tree = s.tree) ∨ Compound s'.tree id := by
  cases h with
  | stepNewline => exact .inl ⟨rfl, rfl, rfl⟩
  | stepPostfix _ _ hread =>
    cases hread with
    | postfixOperation => exact .inr (compound_add rfl)
  | stepOperator _ _ _ hread =>
    cases hread with
    | binaryOperation => exact .inr (compound_add rfl)
  | stepOperand _ _ _ _ _ hleft hread =>
    cases hread with
    | operand hbegins hread =>
      have hstart := hleft rfl
      cases hbegins with
      | call =>
        cases hread with
        | call => exact .inr (compound_add rfl)
      | structLiteral =>
        cases hread with
        | structLiteral => exact .inr (compound_add rfl)
      | member =>
        cases hread with
        | member => exact .inr (compound_add rfl)
      | literal hkind => exact absurd (literals_operandStart _ hkind) hstart
      | name hkind | branch hkind | loop hkind | returns hkind =>
        exact absurd (by rw [hkind]; decide) hstart
      | record hkind =>
        exact absurd (by rcases hkind with hkind | hkind <;> rw [hkind] <;> decide) hstart

/-- So does an expression after a left part. -/
theorem Reads.extend_left (h : Reads (.extend (some left) closing answer) s log s') :
    ∃ id, answer = some id ∧
      ((id = left ∧ log = [] ∧ s'.tree = s.tree) ∨ Compound s'.tree id) := by
  generalize hφ : Phrase.extend (some left) closing answer = φ at h
  induction h generalizing left with
  | extendClosing | extendBrace =>
    cases hφ
    exact ⟨_, rfl, .inl ⟨rfl, rfl, rfl⟩⟩
  | @extendStep _ _ next _ _ _ _ _ _ hclosing _ _ hstep hextend _ ih =>
    cases hφ
    cases next with
    | none =>
      cases hstep with
      | stepClosing hat => cases hclosing.symm.trans hat
    | some next =>
      obtain ⟨id, hanswer, hlast⟩ := ih rfl
      refine ⟨id, hanswer, ?_⟩
      rcases hlast with ⟨rfl, rfl, htree⟩ | hcompound
      · rcases hstep.step_left with ⟨rfl, rfl, htree'⟩ | hcompound
        · exact .inl ⟨rfl, rfl, htree.trans htree'⟩
        · exact .inr (htree ▸ hcompound)
      · exact .inr hcompound
  | _ => cases hφ

/-! ## From the first token on -/

theorem Reads.step_nothing (h : Reads (.step none closing none) s log s') :
    log = [] ∧ s'.tree = s.tree := by
  cases h with
  | stepClosing | stepNewline => exact ⟨rfl, rfl⟩

/-- A first step makes a compound or reads what the next token begins. -/
theorem Reads.step_start (h : Reads (.step none closing (some id)) s log s') :
    Compound s'.tree id ∨ Starts closing id s log s' := by
  cases h with
  | stepPrefix _ _ hread =>
    cases hread with
    | prefixOperation => exact .inl (compound_add rfl)
  | stepOperator _ _ _ hread => cases hread
  | stepOperand _ _ _ _ _ _ hread =>
    cases hread with
    | operand hbegins hread => exact .inr (.token hbegins hread rfl rfl)

/-- An expression is nothing, a compound, or what one token begins. -/
theorem Reads.extend_start (h : Reads (.extend none closing answer) s log s') :
    (answer = none ∧ log = [] ∧ s'.tree = s.tree) ∨
      ∃ id, answer = some id ∧ (Compound s'.tree id ∨ Starts closing id s log s') := by
  generalize hφ : Phrase.extend none closing answer = φ at h
  induction h with
  | extendClosing =>
    cases hφ
    exact .inl ⟨rfl, rfl, rfl⟩
  | @extendStep _ _ next _ _ _ _ _ _ _ _ _ hstep hextend _ ih =>
    cases hφ
    cases next with
    | none =>
      obtain ⟨rfl, htree⟩ := hstep.step_nothing
      rcases ih rfl with ⟨rfl, rfl, htree'⟩ | ⟨id, rfl, hlast⟩
      · exact .inl ⟨rfl, rfl, htree'.trans htree⟩
      · refine .inr ⟨id, rfl, hlast.imp_right ?_⟩
        rintro ⟨hbegins, hread, hbefore, hafter⟩
        exact .token hbegins hread (hbefore.trans htree) hafter
    | some next =>
      obtain ⟨id, rfl, hlast⟩ := hextend.extend_left
      refine .inr ⟨id, rfl, ?_⟩
      rcases hlast with ⟨rfl, rfl, htree⟩ | hcompound
      · rw [List.append_nil]
        rcases hstep.step_start with hcompound | ⟨hbegins, hread, hbefore, hafter⟩
        · exact .inl (htree ▸ hcompound)
        · exact .inr (.token hbegins hread hbefore (htree.trans hafter))
      · exact .inl hcompound
  | _ => cases hφ

/-! ## Definitions and signatures -/

theorem not_compound (he : s.tree.expr? id = some e) (hnode : e.node.isCompound = false) :
    ¬Compound s.tree id := by
  rintro ⟨e', he', hcompound⟩
  obtain rfl := Option.some.inj (he.symm.trans he')
  cases hnode.symm.trans hcompound

theorem isCompound_of_defined? {node : Node} (h : node.defined?.isSome = true) :
    node.isCompound = false := by
  cases node <;> first | rfl | cases h

theorem isCompound_of_signatureFrame? {node : Node} (h : node.signatureFrame?.isSome = true) :
    node.isCompound = false := by
  cases node <;> first | rfl | cases h

theorem defined?_of_isDefinition {node : Node} (h : isDefinition node = true) :
    node.defined?.isSome = true := by
  cases node <;> first | rfl | cases h

theorem Reads.node_of_definition {name symbol : Token}
    (h : Reads (.definition name symbol closing id) s log s') (he : s'.tree.expr? id = some e) :
    e.node.defined?.isSome = true ∧ e.node.signatureFrame? = none := by
  cases h with
  | definitionFunction _ _ _ _ _ _ hfunction =>
    obtain ⟨_, _, hnode⟩ := hfunction.defines_function
    cases he.symm.trans hnode
    exact ⟨rfl, rfl⟩
  | definitionRecord _ _ _ _ _ _ htypedef =>
    obtain ⟨_, hnode⟩ := htypedef.defines_record
    cases he.symm.trans hnode
    exact ⟨rfl, rfl⟩
  | definitionVariable _ _ _ _ _ _ hdeclaration =>
    obtain ⟨_, _, hnode, _⟩ := hdeclaration.declares
    cases he.symm.trans hnode
    exact ⟨rfl, rfl⟩

theorem Reads.node_of_group {paren : Token} (h : Reads (.group paren id) s log s')
    (he : s'.tree.expr? id = some e) : e.node.defined? = none := by
  cases h <;> (cases eq_of_newExpr he; rfl)

/-- What a token begins is a definition, a group, or neither defines anything nor has parameters. -/
theorem Starts.cases (h : Starts closing id s log s') (he : s'.tree.expr? id = some e) :
    (∃ name symbol s₀ s₁, Reads (.definition name symbol closing id) s₀ log s₁ ∧
      s₀.tree = s.tree ∧ s'.tree = s₁.tree) ∨
    (∃ paren s₀ s₁, Reads (.group paren id) s₀ log s₁ ∧ s₀.tree = s.tree ∧ s'.tree = s₁.tree) ∨
    e.node.defined? = none ∧ e.node.signatureFrame? = none := by
  obtain ⟨hbegins, hread, hbefore, hafter⟩ := h
  rw [hafter] at he
  cases hbegins with
  | group => exact .inr (.inl ⟨_, _, _, hread, hbefore, hafter⟩)
  | name =>
    cases hread with
    | nameDefinition _ hread => exact .inl ⟨_, _, _, _, hread, hbefore, hafter⟩
    | nameAlone _ hread =>
      cases hread with
      | nameUse =>
        cases eq_of_newExpr he
        exact .inr (.inr ⟨rfl, rfl⟩)
  | literal =>
    cases hread with
    | literal hnode =>
      cases eq_of_newExpr he
      cases hnode <;> exact .inr (.inr ⟨rfl, rfl⟩)
  | scope =>
    cases hread with
    | scope _ hbody hclose =>
      cases hbody with
      | scopeBody =>
        have hthere := (Step.closes hclose).extends.expr (expr?_newExpr _ _ _)
        cases he.symm.trans hthere
        exact .inr (.inr ⟨rfl, rfl⟩)
  | branch | loop | returns | record =>
    cases hread <;> (cases eq_of_newExpr he; exact .inr (.inr ⟨rfl, rfl⟩))

/-- What defines something and is what a token begins was read as a definition. -/
theorem Starts.definition (h : Starts closing id s log s') (he : s'.tree.expr? id = some e)
    (hdefined : e.node.defined?.isSome = true) :
    ∃ name symbol s₀ s₁, Reads (.definition name symbol closing id) s₀ log s₁ ∧
      s₀.tree = s.tree ∧ s'.tree = s₁.tree := by
  rcases h.cases he with hread | ⟨_, _, _, hread, _, hafter⟩ | ⟨hnone, _⟩
  · exact hread
  · rw [hread.node_of_group (hafter ▸ he)] at hdefined
    cases hdefined
  · rw [hnone] at hdefined
    cases hdefined

/-- What has parameters and is what a token begins was read as a group. -/
theorem Starts.signature (h : Starts closing id s log s') (he : s'.tree.expr? id = some e)
    (hsignature : e.node.signatureFrame?.isSome = true) :
    ∃ paren s₀ s₁, Reads (.group paren id) s₀ log s₁ ∧ s₀.tree = s.tree ∧ s'.tree = s₁.tree := by
  rcases h.cases he with ⟨_, _, _, _, hread, _, hafter⟩ | hread | ⟨_, hnone⟩
  · rw [(hread.node_of_definition (hafter ▸ he)).2] at hsignature
    cases hsignature
  · exact hread
  · rw [hnone] at hsignature
    cases hsignature

/-! ## What was read -/

/-- Where nothing was read, nothing was made. -/
theorem Reads.extend_nothing (h : Reads (.extend none closing none) s log s') :
    log = [] ∧ s'.tree = s.tree := by
  rcases h.extend_start with ⟨_, hnothing⟩ | ⟨_, ⟨⟩, _⟩
  exact hnothing

/-- A step to what defines something was the reading of a definition. -/
theorem Reads.step_definition (h : Reads (.step none closing (some id)) s log s')
    (he : s'.tree.expr? id = some e) (hdefined : e.node.defined?.isSome = true) :
    ∃ name symbol s₀ s₁, Reads (.definition name symbol closing id) s₀ log s₁ ∧
      s₀.tree = s.tree ∧ s'.tree = s₁.tree := by
  have hstarts := h.step_start.resolve_left (not_compound he (isCompound_of_defined? hdefined))
  exact hstarts.definition he hdefined

/-- An expression that defines something was read as a definition. -/
theorem Reads.extend_definition (h : Reads (.extend none closing (some id)) s log s')
    (he : s'.tree.expr? id = some e) (hdefined : e.node.defined?.isSome = true) :
    ∃ name symbol s₀ s₁, Reads (.definition name symbol closing id) s₀ log s₁ ∧
      s₀.tree = s.tree ∧ s'.tree = s₁.tree := by
  rcases h.extend_start with ⟨⟨⟩, _⟩ | ⟨_, ⟨⟩, hstart⟩
  have hstarts := hstart.resolve_left (not_compound he (isCompound_of_defined? hdefined))
  exact hstarts.definition he hdefined

/-- An expression that has parameters was read as a group. -/
theorem Reads.extend_signature (h : Reads (.extend none closing (some id)) s log s')
    (he : s'.tree.expr? id = some e) (hsignature : e.node.signatureFrame?.isSome = true) :
    ∃ paren s₀ s₁, Reads (.group paren id) s₀ log s₁ ∧ s₀.tree = s.tree ∧ s'.tree = s₁.tree := by
  rcases h.extend_start with ⟨⟨⟩, _⟩ | ⟨_, ⟨⟩, hstart⟩
  have hstarts := hstart.resolve_left
    (not_compound he (isCompound_of_signatureFrame? hsignature))
  exact hstarts.signature he hsignature

end Grammar

end OnePass

import Mathlib.Algebra.BigOperators.Intervals
import OnePass.Proofs.Rules

/-!
# Postorder

An expression is made when all that it is made of has been read, so the expressions of a tree
lie in the arena in postorder: those of the first child, those of the second one, and so on, and
at last the node itself. `Forest t lo roots hi` says this of the places from `lo` to `hi`, which
hold the expressions below some roots, tree after tree.

There is one expression of which nothing is made, the name before the values of a literal of a
structure: the literal keeps the structure itself. In a forest such a name stands at the place
before the values (`Tree.NamesLiteral`).

In a forest every expression is the child of just one other or one of the roots, such names
apart, and these are nobody's child (`Forest.uses_eq`).
-/

namespace OnePass.Tree

variable {t t' : Tree} {lo lo' mid hi : Nat} {roots roots' : List ExprId} {id : ExprId}

/-! ## Forests -/

/-- What a node is made of is read from `lo` on, and its children from `lo'` on: the name of a
structure stands before the values of its literal. -/
def Heads (t : Tree) (lo : Nat) : Node → Nat → Prop
  | .structLiteral type _, lo' =>
    lo' = lo + 1 ∧ ∃ name span, t.expr? ⟨lo⟩ = some ⟨.name name (some type), span⟩
  | _, lo' => lo' = lo

/-- The places from `lo` to `hi` hold the expressions below the roots in postorder. -/
inductive Forest (t : Tree) : Nat → List ExprId → Nat → Prop where
  | nil {lo : Nat} : Forest t lo [] lo
  | cons {lo lo' i hi : Nat} {e : Expr} {rest : List ExprId} (he : t.expr? ⟨i⟩ = some e)
      (hhead : t.Heads lo e.node lo') (hparts : Forest t lo' e.node.children i)
      (hrest : Forest t (i + 1) rest hi) : Forest t lo (⟨i⟩ :: rest) hi

theorem Heads.cases {node : Node} (h : t.Heads lo node lo') : lo' = lo ∨
    lo' = lo + 1 ∧ ∃ type args name span, node = .structLiteral type args ∧
      t.expr? ⟨lo⟩ = some ⟨.name name (some type), span⟩ := by
  cases node with
  | structLiteral type args =>
    obtain ⟨hlo, name, span, hname⟩ := h
    exact .inr ⟨hlo, type, args, name, span, rfl, hname⟩
  | _ => exact .inl h

theorem Heads.le {node : Node} (h : t.Heads lo node lo') : lo ≤ lo' := by
  rcases h.cases with rfl | ⟨rfl, _⟩
  · exact Nat.le_refl _
  · exact Nat.le_succ _

theorem Heads.mono {node : Node} (h : t.Heads lo node lo') (hgrows : t.Extends t') :
    t'.Heads lo node lo' := by
  cases node with
  | structLiteral type args =>
    obtain ⟨hlo, name, span, hname⟩ := h
    exact ⟨hlo, name, span, hgrows.expr hname⟩
  | _ => exact h

namespace Forest

theorem mono (h : t.Forest lo roots hi) (hgrows : t.Extends t') : t'.Forest lo roots hi := by
  induction h with
  | nil => exact .nil
  | cons he hhead _ _ ih ih' => exact .cons (hgrows.expr he) (hhead.mono hgrows) ih ih'

theorem append (h : t.Forest lo roots mid) (h' : t.Forest mid roots' hi) :
    t.Forest lo (roots ++ roots') hi := by
  induction h with
  | nil => exact h'
  | cons he hhead hparts _ _ ih => exact .cons he hhead hparts (ih h')

/-- One more expression, made of all that is there. -/
theorem pushExpr {e : Expr} (hparts : t.Forest lo' e.node.children t.exprs.size)
    (hhead : t.Heads lo e.node lo') :
    (t.pushExpr e).2.Forest lo [⟨t.exprs.size⟩] (t.exprs.size + 1) := by
  have hgrows := t.pushExpr_extends e
  exact .cons (t.expr?_pushExpr_new e) (hhead.mono hgrows) (hparts.mono hgrows) .nil

/-- A literal, made of the name of its structure and the values after it. -/
theorem pushLiteral {base : ExprId} {type : EntityId} {args : Option ExprId} {name : String}
    {span span' : Span} (hbase : t.expr? base = some ⟨.name name (some type), span⟩)
    (h : t.Forest lo (base :: args.toList) t.exprs.size) :
    (t.pushExpr ⟨.structLiteral type args, span'⟩).2.Forest lo [⟨t.exprs.size⟩]
      (t.exprs.size + 1) := by
  cases h with
  | cons he hhead hparts hrest =>
    cases he.symm.trans hbase
    obtain rfl := hhead
    cases hparts
    exact hrest.pushExpr ⟨rfl, name, span, hbase⟩

theorem le (h : t.Forest lo roots hi) : lo ≤ hi := by
  induction h with
  | nil => exact Nat.le_refl _
  | cons _ hhead _ _ ih ih' =>
    have hlo := hhead.le
    omega

/-- Where a forest begins can be told from its roots and its end. -/
theorem begin_unique (h : t.Forest lo roots hi) (h' : t.Forest lo' roots hi) : lo = lo' := by
  induction h generalizing lo' with
  | nil =>
    cases h'
    rfl
  | cons he hhead _ _ ih _ =>
    cases h' with
    | cons he' hhead' hparts' _ =>
      obtain rfl := Option.some.inj (he.symm.trans he')
      obtain rfl := ih hparts'
      cases hnode : (‹Expr›).node with
      | structLiteral =>
        rw [hnode] at hhead hhead'
        exact Nat.succ.inj (hhead.1.symm.trans hhead'.1)
      | _ =>
        rw [hnode] at hhead hhead'
        exact hhead.symm.trans hhead'

end Forest

/-! ## Uses -/

/-- The children of the expression at a place. -/
def childrenAt (t : Tree) (i : Nat) : List ExprId :=
  match t.expr? ⟨i⟩ with
  | some e => e.node.children
  | none => []

/-- How often an expression is the child of one between two places. -/
def usesIn (t : Tree) (lo hi : Nat) (id : ExprId) : Nat :=
  ∑ i ∈ Finset.Ico lo hi, (t.childrenAt i).count id

/-- How often an expression is the child of another. -/
def uses (t : Tree) (id : ExprId) : Nat := t.usesIn 0 t.exprs.size id

/-- How often an expression is a root of a forest or the child of an expression in it. -/
def occurrences (t : Tree) (lo : Nat) (roots : List ExprId) (hi : Nat) (id : ExprId) : Nat :=
  t.usesIn lo hi id + roots.count id

/-- The expression `id` is the name before the values of the literal `lit`: the use of a name
for the structure, with nothing but the values between the two. -/
def Names (t : Tree) (id lit : ExprId) : Prop :=
  ∃ name type args span span', t.expr? id = some ⟨.name name (some type), span⟩ ∧
    t.expr? lit = some ⟨.structLiteral type args, span'⟩ ∧
    t.Forest (id.index + 1) args.toList lit.index

/-- The expression is the name of the structure in a literal of it. -/
def NamesLiteral (t : Tree) (id : ExprId) : Prop := ∃ lit, t.Names id lit

theorem childrenAt_eq {i : Nat} {e : Expr} (he : t.expr? ⟨i⟩ = some e) :
    t.childrenAt i = e.node.children := by
  unfold childrenAt
  rw [he]

theorem usesIn_self : t.usesIn lo lo id = 0 := by
  unfold usesIn
  rw [Finset.Ico_self, Finset.sum_empty]

theorem usesIn_split (hlo : lo ≤ mid) (hhi : mid ≤ hi) :
    t.usesIn lo hi id = t.usesIn lo mid id + t.usesIn mid hi id :=
  (Finset.sum_Ico_consecutive _ hlo hhi).symm

theorem usesIn_succ : t.usesIn lo (lo + 1) id = (t.childrenAt lo).count id := by
  unfold usesIn
  rw [Finset.sum_Ico_succ_top (Nat.le_refl lo), Finset.Ico_self, Finset.sum_empty, Nat.zero_add]

/-- A literal has one name only. -/
theorem Names.unique {id id' lit : ExprId} (h : t.Names id lit) (h' : t.Names id' lit) :
    id = id' := by
  obtain ⟨_, _, _, _, _, _, hlit, hparts⟩ := h
  obtain ⟨_, _, _, _, _, _, hlit', hparts'⟩ := h'
  cases hlit.symm.trans hlit'
  exact congrArg ExprId.mk (Nat.succ.inj (hparts.begin_unique hparts'))

/-- Nothing is the child of the name of a structure. -/
theorem Heads.usesIn {node : Node} (h : t.Heads lo node lo') : t.usesIn lo lo' id = 0 := by
  rcases h.cases with rfl | ⟨rfl, _, _, _, _, _, hname⟩
  · exact usesIn_self
  · rw [usesIn_succ, childrenAt_eq hname]
    exact List.count_nil

namespace Forest

variable {i : Nat} {e : Expr} {rest : List ExprId}

/-- Where an expression occurs: below the first root, as the first root, or in the rest. -/
theorem occurrences_cons (he : t.expr? ⟨i⟩ = some e) (hhead : t.Heads lo e.node lo')
    (hparts : t.Forest lo' e.node.children i) (hrest : t.Forest (i + 1) rest hi) :
    t.occurrences lo (⟨i⟩ :: rest) hi id = t.occurrences lo' e.node.children i id +
      (if id.index = i then 1 else 0) + t.occurrences (i + 1) rest hi id := by
  have hlo := hhead.le
  have hparts_le := hparts.le
  have hrest_le := hrest.le
  have hsucc : i ≤ i + 1 := Nat.le_succ i
  have hroot : (⟨i⟩ : ExprId) = id ↔ id.index = i := by
    cases id
    simp [eq_comm]
  unfold occurrences
  rw [usesIn_split hlo (by omega : lo' ≤ hi), usesIn_split hparts_le (by omega : i ≤ hi),
    usesIn_split hsucc hrest_le, hhead.usesIn, usesIn_succ, childrenAt_eq he,
    List.count_cons]
  simp only [beq_iff_eq, hroot]
  omega

theorem occurrences_outside (h : t.Forest lo roots hi) (hid : id.index < lo ∨ hi ≤ id.index) :
    t.occurrences lo roots hi id = 0 := by
  induction h with
  | nil => exact Nat.add_eq_zero_iff.2 ⟨usesIn_self, List.count_nil⟩
  | cons he hhead hparts hrest ih ih' =>
    have hlo := hhead.le
    have hparts_le := hparts.le
    have hrest_le := hrest.le
    rw [occurrences_cons he hhead hparts hrest, ih (by omega), ih' (by omega),
      if_neg (by omega)]

/-- An expression of a forest occurs once, or it is the name in a literal. -/
theorem occurrences_inside (h : t.Forest lo roots hi) (hlo : lo ≤ id.index)
    (hhi : id.index < hi) :
    t.occurrences lo roots hi id = 1 ∨ t.occurrences lo roots hi id = 0 ∧ t.NamesLiteral id := by
  induction h with
  | nil => omega
  | @cons lo lo' i hi e rest he hhead hparts hrest ih ih' =>
    have hparts_le := hparts.le
    rw [occurrences_cons he hhead hparts hrest]
    rcases Nat.lt_trichotomy id.index i with hlt | rfl | hgt
    · rw [hrest.occurrences_outside (by omega), if_neg (by omega)]
      by_cases hhere : lo' ≤ id.index
      · exact ih hhere hlt
      · rcases hhead.cases with rfl | ⟨rfl, type, args, name, span, hnode, hname⟩
        · exact absurd hlo hhere
        · have hindex : id.index = lo := by omega
          obtain rfl : id = ⟨lo⟩ := congrArg ExprId.mk hindex
          refine .inr ⟨?_, ⟨i⟩, name, type, args, span, e.span, hname, ?_, ?_⟩
          · rw [hparts.occurrences_outside (.inl (Nat.lt_succ_self lo))]
          · rw [he, ← hnode]
          · rw [hnode] at hparts
            exact hparts
    · rw [hparts.occurrences_outside (by omega), hrest.occurrences_outside (by omega),
        if_pos rfl]
      exact .inl rfl
    · rw [hparts.occurrences_outside (by omega), if_neg (by omega), Nat.zero_add]
      exact ih' hgt hhi

/-- A literal of a forest has its name in the forest, where the name does not occur. -/
theorem exists_names (h : t.Forest lo roots hi) {lit : ExprId} {type : EntityId}
    {args : Option ExprId} {span : Span}
    (hlit : t.expr? lit = some ⟨.structLiteral type args, span⟩) (hlo : lo ≤ lit.index)
    (hhi : lit.index < hi) :
    ∃ id, t.Names id lit ∧ lo ≤ id.index ∧ id.index < hi ∧ t.occurrences lo roots hi id = 0 := by
  induction h with
  | nil => omega
  | @cons lo lo' i hi e rest he hhead hparts hrest ih ih' =>
    have hhead_le := hhead.le
    have hparts_le := hparts.le
    have hrest_le := hrest.le
    rcases Nat.lt_trichotomy lit.index i with hlt | heq | hgt
    · by_cases hhere : lo' ≤ lit.index
      · obtain ⟨id, hnames, hid, hid', hzero⟩ := ih hhere hlt
        refine ⟨id, hnames, by omega, by omega, ?_⟩
        rw [occurrences_cons he hhead hparts hrest, hzero, if_neg (by omega),
          hrest.occurrences_outside (by omega)]
      · -- only a name stands before the parts
        rcases hhead.cases with rfl | ⟨rfl, _, _, _, _, _, hname⟩
        · exact absurd hlo hhere
        · have hindex : lit.index = lo := by omega
          obtain rfl : lit = ⟨lo⟩ := congrArg ExprId.mk hindex
          cases hlit.symm.trans hname
    · obtain rfl : lit = ⟨i⟩ := congrArg ExprId.mk heq
      cases he.symm.trans hlit
      obtain ⟨rfl, name, span', hname⟩ := hhead
      have hnames : t.Names ⟨lo⟩ ⟨i⟩ := ⟨name, type, args, span', span, hname, hlit, hparts⟩
      have hbefore : lo < i := hparts_le
      have hinside : lo < hi := by omega
      refine ⟨⟨lo⟩, hnames, Nat.le_refl _, hinside, ?_⟩
      rw [occurrences_cons he ⟨rfl, name, span', hname⟩ hparts hrest,
        hparts.occurrences_outside (.inl (Nat.lt_succ_self lo)),
        hrest.occurrences_outside (.inl (Nat.lt_succ_of_lt hbefore)),
        if_neg (Nat.ne_of_lt hbefore)]
    · obtain ⟨id, hnames, hid, hid', hzero⟩ := ih' hgt hhi
      refine ⟨id, hnames, by omega, hid', ?_⟩
      rw [occurrences_cons he hhead hparts hrest, hzero, if_neg (by omega),
        hparts.occurrences_outside (by omega)]

end Forest

/-- In a tree that is a forest with one root, every other expression is the child of just one,
or the name in a literal and nobody's child. -/
theorem Forest.uses_eq {root : ExprId} (h : t.Forest 0 [root] t.exprs.size) (hid : t.HasExpr id)
    (hroot : id ≠ root) :
    t.uses id = 1 ∧ ¬t.NamesLiteral id ∨ t.uses id = 0 ∧ t.NamesLiteral id := by
  have huses : t.occurrences 0 [root] t.exprs.size id = t.uses id :=
    congrArg (t.uses id + ·) (List.count_singleton.trans (if_neg (by simpa using hroot.symm)))
  by_cases hnames : t.NamesLiteral id
  · obtain ⟨lit, hlit⟩ := hnames
    have ⟨_, _, _, _, _, _, hexpr, _⟩ := hlit
    obtain ⟨id', hlit', _, _, hzero⟩ :=
      h.exists_names hexpr (Nat.zero_le _) (hasExpr_iff.2 ⟨_, hexpr⟩)
    obtain rfl := hlit'.unique hlit
    exact .inr ⟨huses.symm.trans hzero, lit, hlit⟩
  · have hone := h.occurrences_inside (Nat.zero_le _) hid
    rw [huses] at hone
    exact .inl ⟨hone.resolve_right fun hzero => hnames hzero.2, hnames⟩

/-- The root of such a tree is nobody's child. -/
theorem Forest.uses_root {root : ExprId} (h : t.Forest 0 [root] t.exprs.size)
    (hroot : t.HasExpr root) : t.uses root = 0 := by
  have huses : t.occurrences 0 [root] t.exprs.size root = t.uses root + 1 :=
    congrArg (t.uses root + ·) List.count_singleton_self
  rcases h.occurrences_inside (Nat.zero_le _) hroot with hone | ⟨hzero, _⟩
  · exact Nat.succ.inj (huses.symm.trans hone)
  · cases huses.symm.trans hzero

end OnePass.Tree

import OnePass.Proofs.Handles

/-!
# Parts of expressions

An expression is a part of another if it is a child of that, or of a part of that
(`Tree.Below`). The places of a forest hold the parts of its roots (`Tree.Forest.covers`). In one
tree every expression is the child of one other at most, so that the parts of two children of an
expression have nothing in common (`Tree.OneTree.child_eq`).
-/

namespace OnePass.Tree

variable {t t' : Tree} {lo hi : Nat} {roots : List ExprId} {root id part : ExprId} {e e' : Expr}

/-! ## Parts -/

/-- The expression is a part of another, or that itself. -/
inductive Below (t : Tree) (root : ExprId) : ExprId → Prop where
  | root : Below t root root
  | part {id part : ExprId} {e : Expr} (hid : Below t root id) (he : t.expr? id = some e)
      (hpart : part ∈ e.node.children) : Below t root part

namespace Below

theorem child (he : t.expr? id = some e) (hpart : part ∈ e.node.children) : t.Below id part :=
  .part .root he hpart

theorem trans {inner : ExprId} (h : t.Below root inner) (h' : t.Below inner id) :
    t.Below root id := by
  induction h' with
  | root => exact h
  | part _ he hpart ih => exact .part ih he hpart

theorem mono (h : t.Below root id) (hgrows : t.Extends t') : t'.Below root id := by
  induction h with
  | root => exact .root
  | part _ he hpart ih => exact .part ih (hgrows.expr he) hpart

end Below

/-- What lies between the ends of a forest is a part of one of its roots or just a name. -/
theorem Forest.covers (h : t.Forest lo roots hi) (hlo : lo ≤ id.index) (hhi : id.index < hi) :
    (∃ root ∈ roots, t.Below root id) ∨
      ∃ name type span, t.expr? id = some ⟨.name name type, span⟩ := by
  induction h with
  | nil => exact absurd hhi (Nat.not_lt.2 hlo)
  | @cons lo lo' i hi e rest he hhead _ _ ih ih' =>
    rcases Nat.lt_trichotomy id.index i with hlt | heq | hgt
    · -- among the parts of the first root, or the name before them
      have hparts : lo' ≤ id.index → (∃ root ∈ ⟨i⟩ :: rest, t.Below root id) ∨
          ∃ name type span, t.expr? id = some ⟨.name name type, span⟩ := by
        intro hfrom
        refine (ih hfrom hlt).imp_left ?_
        rintro ⟨part, hpart, hbelow⟩
        exact ⟨⟨i⟩, List.mem_cons_self, (Below.child he hpart).trans hbelow⟩
      rcases hhead.cases with rfl | ⟨rfl, _, _, name, span, _, hname⟩
      · exact hparts hlo
      · rcases Nat.eq_or_lt_of_le hlo with rfl | hlt'
        · exact .inr ⟨name, _, span, hname⟩
        · exact hparts hlt'
    · exact .inl ⟨⟨i⟩, List.mem_cons_self, heq ▸ .root⟩
    · refine (ih' hgt hhi).imp_left ?_
      rintro ⟨root, hroot, hbelow⟩
      exact ⟨root, List.mem_cons_of_mem _ hroot, hbelow⟩

/-- The roots of a forest lie between its ends. -/
theorem Forest.range_root (h : t.Forest lo roots hi) (hroot : root ∈ roots) :
    lo ≤ root.index ∧ root.index < hi := by
  induction h with
  | nil => cases hroot
  | @cons lo lo' i hi e rest _ hhead hparts hrest _ ih =>
    have hlo : lo ≤ i := Nat.le_trans hhead.le hparts.le
    rcases List.mem_cons.1 hroot with rfl | hroot
    · exact ⟨hlo, hrest.le⟩
    · obtain ⟨hfrom, hto⟩ := ih hroot
      exact ⟨Nat.le_trans hlo (Nat.le_of_succ_le hfrom), hto⟩

theorem Forest.range_child (h : t.Forest lo roots hi) (hid : lo ≤ id.index ∧ id.index < hi)
    (he : t.expr? id = some e) (hpart : part ∈ e.node.children) :
    lo ≤ part.index ∧ part.index < hi := by
  induction h with
  | nil => omega
  | @cons lo lo' i hi x rest hx hhead hparts hrest ih ih' =>
    have hlo := hhead.le
    have hmid := hparts.le
    have hhi := hrest.le
    rcases Nat.lt_trichotomy id.index i with hlt | heq | hgt
    · by_cases hhere : lo' ≤ id.index
      · obtain ⟨hfrom, hto⟩ := ih ⟨hhere, hlt⟩
        exact ⟨Nat.le_trans hlo hfrom, by omega⟩
      · -- only a name stands before the parts
        rcases hhead.cases with rfl | ⟨rfl, _, _, _, _, _, hname⟩
        · exact absurd hid.1 hhere
        · have hindex : id.index = lo := by omega
          obtain rfl : id = ⟨lo⟩ := congrArg ExprId.mk hindex
          cases he.symm.trans hname
          cases hpart
    · obtain rfl : id = ⟨i⟩ := congrArg ExprId.mk heq
      obtain rfl := Option.some.inj (he.symm.trans hx)
      obtain ⟨hfrom, hto⟩ := hparts.range_root hpart
      exact ⟨Nat.le_trans hlo hfrom, by omega⟩
    · obtain ⟨hfrom, hto⟩ := ih' ⟨hgt, hid.2⟩
      exact ⟨by omega, hto⟩

/-- The parts of the roots of a forest lie between its ends. -/
theorem Forest.range_below (h : t.Forest lo roots hi) (hroot : root ∈ roots)
    (hid : t.Below root id) : lo ≤ id.index ∧ id.index < hi := by
  induction hid with
  | root => exact h.range_root hroot
  | part _ he hpart ih => exact h.range_child ih he hpart

/-! ## One tree -/

namespace OneTree

variable {child child' : ExprId}

theorem le_of_below (h : t.OneTree) (hid : t.Below root id) : id.index ≤ root.index := by
  induction hid with
  | root => exact Nat.le_refl _
  | part _ he hpart ih => exact Nat.le_trans (Nat.le_of_lt (h.older he _ hpart)) ih

theorem uses_le (h : t.OneTree) (hid : t.HasExpr id) : t.uses id ≤ 1 := by
  obtain ⟨main, _, _, hmain, huses⟩ := h.root
  by_cases hroot : id = main
  · rw [hroot, hmain]
    exact Nat.zero_le _
  · rcases huses id hid hroot with ⟨hone, _⟩ | ⟨hzero, _⟩
    · exact Nat.le_of_eq hone
    · rw [hzero]
      exact Nat.zero_le _

/-- The children of one expression are used by it. -/
theorem count_le_usesIn (part : ExprId) (he : t.expr? id = some e) (hlo : lo ≤ id.index)
    (hhi : id.index < hi) :
    e.node.children.count part ≤ t.usesIn lo hi part := by
  rw [usesIn_split hlo (Nat.le_of_lt hhi), usesIn_split (Nat.le_succ _) hhi, usesIn_succ,
    childrenAt_eq he]
  exact Nat.le_add_left_of_le (Nat.le_add_right _ _)

theorem nodup_children (h : t.OneTree) (he : t.expr? id = some e) : e.node.children.Nodup := by
  refine List.nodup_iff_count_le_one.2 fun part => ?_
  by_cases hpart : part ∈ e.node.children
  · have hthere := hasExpr_iff.2 ⟨e, he⟩
    have huses := h.uses_le (Nat.lt_trans (h.older he part hpart) hthere)
    exact Nat.le_trans (count_le_usesIn part he (Nat.zero_le _) hthere) huses
  · rw [List.count_eq_zero.2 hpart]
    exact Nat.zero_le _

/-- An expression is the child of one other at most. -/
theorem parent_eq (h : t.OneTree) {id' : ExprId} (he : t.expr? id = some e)
    (hpart : part ∈ e.node.children) (he' : t.expr? id' = some e')
    (hpart' : part ∈ e'.node.children) : id = id' := by
  have hcount := List.count_pos_iff.2 hpart
  have hcount' := List.count_pos_iff.2 hpart'
  have hthere := hasExpr_iff.2 ⟨e, he⟩
  have hthere' := hasExpr_iff.2 ⟨e', he'⟩
  have huses := h.uses_le (Nat.lt_trans (h.older he part hpart) hthere)
  unfold uses at huses
  rcases Nat.lt_trichotomy id.index id'.index with hlt | heq | hgt
  · have hleft := count_le_usesIn part he (Nat.zero_le _) hlt
    have hright := count_le_usesIn part he' (Nat.le_refl _) hthere'
    rw [usesIn_split (Nat.zero_le id'.index) (Nat.le_of_lt hthere')] at huses
    omega
  · exact congrArg ExprId.mk heq
  · have hleft := count_le_usesIn part he' (Nat.zero_le _) hgt
    have hright := count_le_usesIn part he (Nat.le_refl _) hthere
    rw [usesIn_split (Nat.zero_le id.index) (Nat.le_of_lt hthere)] at huses
    omega

/-- Of two expressions with a part in common one is a part of the other. -/
theorem below_total (h : t.OneTree) {root' : ExprId} (hid : t.Below root id)
    (hid' : t.Below root' id) : t.Below root root' ∨ t.Below root' root := by
  induction hid with
  | root => exact .inr hid'
  | part hparent he hpart ih =>
    cases hid' with
    | root => exact .inl (.part hparent he hpart)
    | part hparent' he' hpart' =>
      obtain rfl := h.parent_eq he hpart he' hpart'
      exact ih hparent'

/-- Two children of an expression that have a part in common are the same. -/
theorem child_eq (h : t.OneTree) (he : t.expr? root = some e) (hchild : child ∈ e.node.children)
    (hchild' : child' ∈ e.node.children) (hid : t.Below child id) (hid' : t.Below child' id) :
    child = child' := by
  -- a part of a child of `root` is not the child of `root` itself
  have hpart : ∀ {c c' : ExprId}, c ∈ e.node.children → c' ∈ e.node.children → t.Below c c' →
      c = c' := by
    intro c c' hc hc' hbelow
    cases hbelow with
    | root => rfl
    | part hparent he' hpart =>
      obtain rfl := h.parent_eq he' hpart he hc'
      exact absurd (h.le_of_below hparent) (Nat.not_le.2 (h.older he c hc))
  rcases h.below_total hid hid' with hbelow | hbelow
  · exact hpart hchild hchild' hbelow
  · exact (hpart hchild' hchild hbelow).symm

end OneTree

end OnePass.Tree

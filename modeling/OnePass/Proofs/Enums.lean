import OnePass.Proofs.Members

/-!
# Members of enumerations

When the body of a record has been read, its members are checked one after the other, and the
first that may not stand in the record is refused (`record_refuses`). The members of an
enumeration that is accepted are therefore constants (`enum_members_constant`). The check looks
only at the first definition of a chain, so a definition after a comma may still be that of a
variable (`enum_holds_variable`).
-/

namespace OnePass

namespace Tree

variable {t : Tree} {id : ExprId} {e : Expr}

/-- The expression is a definition with `::`. -/
def Constant (t : Tree) (id : ExprId) : Prop :=
  ∃ name init entity next span,
    t.expr? id = some ⟨.definition name .constant init entity next, span⟩

/-- Just the definitions with `::` may stand in an enumeration. -/
theorem constant_iff (he : t.expr? id = some e) :
    t.Constant id ↔ Grammar.mayHold .enum e.node = true := by
  obtain ⟨node, span⟩ := e
  constructor
  · rintro ⟨name, init, entity, next, span', he'⟩
    cases he.symm.trans he'
    rfl
  · intro h
    cases node with
    | definition name op init entity next =>
      obtain rfl : op = .constant := of_decide_eq_true h
      exact ⟨name, init, entity, next, span, he⟩
    | _ => cases h

/-- A member that is a definition is the first one of a chain. -/
theorem Members.chain_of_constant {members defs : List ExprId} (h : t.Members members defs)
    (hid : id ∈ members) (hconstant : t.Constant id) :
    ∃ chain, t.Chain (some id) chain := by
  induction h with
  | nil => cases hid
  | chain hchain _ ih =>
    rcases List.mem_cons.1 hid with rfl | hid
    · exact ⟨_, hchain⟩
    · exact ih hid
  | function he _ ih =>
    rcases List.mem_cons.1 hid with rfl | hid
    · obtain ⟨_, _, _, _, _, he'⟩ := hconstant
      cases he.symm.trans he'
    · exact ih hid

end Tree

namespace Grammar

variable {s s₁ s₂ : State} {t : Tree} {p : Productions} {form : RecordForm} {keyword : Token}
  {before after : List ExprId} {member id : ExprId} {e : Expr} {frame : FrameId}

/-! ## The check of the members -/

/-- Members that may stand in a record are passed by. -/
theorem checkMembers_append
    (hbefore : ∀ m ∈ before, ∃ e, s.tree.expr? m = some e ∧ mayHold form e.node = true) :
    checkMembers form (before ++ after) s = checkMembers form after s := by
  induction before with
  | nil => rfl
  | cons m rest ih =>
    obtain ⟨e, he, hholds⟩ := hbefore m List.mem_cons_self
    rw [List.cons_append, checkMembers, nodeOf_eq he, if_neg (by simp [hholds])]
    exact ih fun m hm => hbefore m (List.mem_cons_of_mem _ hm)

theorem checkMembers_refuses (he : s.tree.expr? member = some e)
    (hrefused : mayHold form e.node = false) :
    checkMembers form (member :: after) s = .error ⟨notHeld form e.node, some e.span⟩ s := by
  rw [checkMembers, nodeOf_eq he, if_pos (by simp [hrefused]), spanOf_eq he]
  rfl

/-- The first member that may not stand in a record is refused. -/
theorem record_refuses (hat : (s.past {.newline}).cursor.isAt {.openBrace} = true)
    (hopen : Opens (s.past {.newline}).next frame s₁)
    (hbody : p.body {.closeBrace} (s₁.inside .record) = .ok (before ++ member :: after) s₂)
    (hbefore : ∀ m ∈ before, ∃ e, s₂.tree.expr? m = some e ∧
      mayHold (recordForm keyword) e.node = true)
    (he : s₂.tree.expr? member = some e) (hrefused : mayHold (recordForm keyword) e.node = false) :
    record p keyword s = .error ⟨notHeld (recordForm keyword) e.node, some e.span⟩ s₂ := by
  have hcheck : checkMembers (recordForm keyword) (before ++ member :: after) s₂ =
      .error ⟨notHeld (recordForm keyword) e.node, some e.span⟩ s₂ :=
    (checkMembers_append hbefore).trans (checkMembers_refuses he hrefused)
  unfold record skipNewlines
  rw [skip_bind, bind_run, accept?_run, if_pos hat]
  refine (bind_eq (openFrame_ok.2 hopen)).trans ?_
  rw [beginConstruct_bind]
  exact (bind_eq hbody).trans (bind_error hcheck)

/-! ## Whole sources -/

/-- Each member of a record may stand in it. -/
theorem Origin.holds {body : List ExprId} {span : Span}
    (h : Origin t id ⟨.record form body frame, span⟩) :
    ∀ m ∈ body, ∃ e, t.expr? m = some e ∧ mayHold form e.node = true := by
  obtain ⟨keyword, s, s', log, hread, _, he, hevolves⟩ := h.record
  cases hread with
  | record _ _ _ hmembers hclose =>
    cases eq_of_newExpr he
    have hgrows := ((Step.closes hclose).extends.trans Step.add.extends).trans hevolves.toExtends
    intro m hm
    obtain ⟨e, he, hholds⟩ := hmembers m hm
    exact ⟨e, hgrows.expr he, hholds⟩

/-- Every member of an enumeration in an accepted source is a definition with `::` and the first
one of a chain of definitions. Once the body of an enumeration has been read, the first member
that is none is refused with a type error. -/
theorem enum_members_constant (source : String) :
    (∀ tree, parseSource source = .ok tree → ∀ id body frame span,
      tree.expr? id = some ⟨.record .enum body frame, span⟩ →
      ∀ m ∈ body, tree.Constant m ∧ ∃ chain, tree.Chain (some m) chain) ∧
    ∀ (n : Nat) (keyword : Token) (s s₁ s₂ : State) (frame : FrameId)
      (before after : List ExprId) (member : ExprId) (e : Expr), keyword.kind ≠ .structWord →
      (s.past {.newline}).cursor.isAt {.openBrace} = true →
      Opens (s.past {.newline}).next frame s₁ →
      (level n).body {.closeBrace} (s₁.inside .record) = .ok (before ++ member :: after) s₂ →
      (∀ m ∈ before, s₂.tree.Constant m) → s₂.tree.expr? member = some e →
      ¬s₂.tree.Constant member →
      record (level n) keyword s = .error ⟨.enumMember e.node.label, some e.span⟩ s₂ ∧
        (Cause.enumMember e.node.label).kind = .typing := by
  constructor
  · intro tree h id body frame span he m hm
    obtain ⟨tokens, _, hparse⟩ := parseSource_ok h
    rcases origin_of_parse hparse he with horigin | ⟨_, _, hscope⟩
    · obtain ⟨x, hx, hholds⟩ := horigin.holds m hm
      have hconstant := (Tree.constant_iff hx).2 hholds
      obtain ⟨_, _, _, hlist, _⟩ := horigin.recovers
      exact ⟨hconstant, hlist.chain_of_constant hm hconstant⟩
    · cases hscope
  · intro n keyword s s₁ s₂ frame before after member e hkeyword hat hopen hbody hbefore he hrefused
    have hform : recordForm keyword = .enum := if_neg hkeyword
    have hheld : ∀ m ∈ before, ∃ x, s₂.tree.expr? m = some x ∧
        mayHold (recordForm keyword) x.node = true := by
      intro m hm
      have hconstant := hbefore m hm
      obtain ⟨_, _, _, _, _, hx⟩ := hbefore m hm
      rw [hform]
      exact ⟨_, hx, (Tree.constant_iff hx).1 hconstant⟩
    rw [Tree.constant_iff he, Bool.not_eq_true, ← hform] at hrefused
    have hrun := record_refuses hat hopen hbody hheld he hrefused
    rw [hform] at hrun
    exact ⟨hrun, rfl⟩

/-- After the keyword of an enumeration that holds a number. -/
def afterEnum : State where
  cursor :=
    ⟨{ body := #[⟨.enumWord, "enum", default⟩, ⟨.openBrace, "\x7b", default⟩,
        ⟨.decimal, "1", default⟩, ⟨.closeBrace, "\x7d", default⟩]
       last := ⟨.eof, "", default⟩ }, 1⟩
  tree := .withBuiltins
  constructs := []

/-- A constant is a member of an enumeration, and a number is none. -/
theorem enum_members_constant_number :
    (∃ tree, parseSource "E :: enum \x7b a :: 1 \x7d\n" = .ok tree ∧ tree.Constant ⟨1⟩) ∧
    ∃ s', record (level 4) ⟨.enumWord, "enum", default⟩ afterEnum =
      .error ⟨.enumMember "Int_Expr", some default⟩ s' := by
  constructor
  · have hrun : (parseSource "E :: enum \x7b a :: 1 \x7d\n").toOption.any (fun tree =>
        (tree.expr? ⟨2⟩).map Expr.node = some (.record .enum [⟨1⟩] ⟨1⟩)) = true := by decide +kernel
    obtain ⟨tree, hparse, hcheck⟩ := exists_parse hrun
    obtain ⟨span, he⟩ := exists_span (of_decide_eq_true hcheck)
    obtain ⟨hconstant, _⟩ := (enum_members_constant _).1 tree hparse _ _ _ span he ⟨1⟩
      List.mem_cons_self
    exact ⟨tree, hparse, hconstant⟩
  · have hrun : passes (openFrame default (afterEnum.past {.newline}).next) (fun _ s₁ =>
        passes ((level 4).body {.closeBrace} (s₁.inside .record)) fun body s₂ =>
          body.head?.any fun m => body = [m] && s₂.tree.expr? m = some ⟨.int 1 4, default⟩) =
            true := by decide +kernel
    obtain ⟨frame, s₁, hopen, hread⟩ := exists_of_passes hrun
    obtain ⟨body, s₂, hbody, hfound⟩ := exists_of_passes hread
    obtain ⟨m, _, hcheck⟩ := (Option.any_eq_true _ _).1 hfound
    obtain ⟨halone, he⟩ := Bool.and_eq_true_iff.1 hcheck
    obtain rfl := of_decide_eq_true halone
    have he := of_decide_eq_true he
    have hrefused : ¬s₂.tree.Constant m := by
      rintro ⟨_, _, _, _, _, he'⟩
      cases he.symm.trans he'
    exact ⟨s₂, ((enum_members_constant "").2 4 ⟨.enumWord, "enum", default⟩ afterEnum s₁ s₂
      frame [] [] m _ (by decide) (by decide +kernel) (openFrame_ok.1 hopen) hbody nofun he
      hrefused).1⟩

/-- An enumeration holds a variable whose definition follows that of a constant after a comma. -/
theorem enum_holds_variable :
    ¬∀ (source : String) (tree : Tree), parseSource source = .ok tree →
      ∀ id body frame span, tree.expr? id = some ⟨.record .enum body frame, span⟩ →
        ∀ m ∈ body, ∀ chain, tree.Chain (some m) chain → ∀ d ∈ chain, tree.Constant d := by
  intro h
  have hrun : (parseSource "E :: enum \x7b a :: 1, b : s32 \x7d\n").toOption.any (fun tree =>
      decide ((tree.expr? ⟨1⟩).map Expr.node = some (.definition "b" .variable none ⟨17⟩ none) ∧
        (tree.expr? ⟨2⟩).map Expr.node =
          some (.definition "a" .constant (some ⟨0⟩) ⟨16⟩ (some ⟨1⟩)) ∧
        (tree.expr? ⟨3⟩).map Expr.node = some (.record .enum [⟨2⟩] ⟨1⟩))) = true := by
    decide +kernel
  obtain ⟨tree, hparse, hcheck⟩ := exists_parse hrun
  obtain ⟨hb, ha, henum⟩ := of_decide_eq_true hcheck
  obtain ⟨_, hb⟩ := exists_span hb
  obtain ⟨_, ha⟩ := exists_span ha
  obtain ⟨_, henum⟩ := exists_span henum
  obtain ⟨_, _, _, _, _, he⟩ := h _ tree hparse _ _ _ _ henum ⟨2⟩ List.mem_cons_self
    [⟨2⟩, ⟨1⟩] (.cons ha (.cons hb .nil)) ⟨1⟩ (List.mem_cons_of_mem _ List.mem_cons_self)
  cases hb.symm.trans he

end Grammar

end OnePass

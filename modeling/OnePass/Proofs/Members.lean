import OnePass.Proofs.Answers
import OnePass.Proofs.Arguments
import OnePass.Proofs.Chains

/-!
# Parameters and members

The parameters of a function and the variables of a structure are not taken from the text that
was read. They are recovered from a frame: all variables that names stand for there, in the order
of the names. This gives back the definitions of the signature or record, each once and in order,
but also what was defined within their values, since that is defined in the same frame
(`Tree.Recovers`). So the parameters and members are the ones written if and only if none of them
is defined within a value (`Tree.Recovers.exact_iff`).
-/

namespace OnePass

namespace Tree

variable {t t' : Tree} {defs : List ExprId} {found : List EntityId} {f : Frame}

/-! ## What is recovered -/

/-- The entities are those of the definitions, in order, and some that are defined within their
values. -/
structure Recovers (t : Tree) (defs : List ExprId) (found : List EntityId) : Prop where
  once : found.Nodup
  written : ∃ written, List.Forall₂ t.Defines defs written ∧ written.Sublist found ∧
    ∀ v ∈ found, v ∈ written ∨ t.DefinedWithin defs v

theorem Recovers.mono (h : t.Recovers defs found) (hgrows : t.Extends t') :
    t'.Recovers defs found := by
  obtain ⟨written, hdefines, hordered, hothers⟩ := h.written
  refine ⟨h.once, written, hdefines.imp fun _ _ hd => hd.mono hgrows, hordered, ?_⟩
  exact fun v hv => (hothers v hv).imp_right fun hwithin => hwithin.mono hgrows

theorem exists_defines (h : List.Forall₂ t.Defines defs found) {v : EntityId} (hv : v ∈ found) :
    ∃ d ∈ defs, t.Defines d v := by
  induction h with
  | nil => cases hv
  | cons hd _ ih =>
    rcases List.mem_cons.1 hv with rfl | hv
    · exact ⟨_, List.mem_cons_self, hd⟩
    · obtain ⟨d, hmem, hd⟩ := ih hv
      exact ⟨d, List.mem_cons_of_mem _ hmem, hd⟩

/-- The entities are just those of the definitions if and only if none is defined within a value. -/
theorem Recovers.exact_iff (h : t.Recovers defs found) (hapart : t.Apart defs)
    (hunique : ∀ {d d' v}, t.Defines d v → t.Defines d' v → d = d') :
    List.Forall₂ t.Defines defs found ↔ ∀ v ∈ found, ¬t.DefinedWithin defs v := by
  constructor
  · -- the definition of the entity would be one of the chain, within the value of another
    rintro hexact v hv ⟨d', hd', value, hvalue, inner, hbelow, hinner⟩
    obtain ⟨d, hd, hdefines⟩ := exists_defines hexact hv
    obtain rfl := hunique hdefines hinner
    exact hapart d hd d' hd' value hvalue hbelow
  · intro hnone
    obtain ⟨written, hdefines, hordered, hothers⟩ := h.written
    have hsubset : found ⊆ written := fun v hv => (hothers v hv).resolve_right (hnone v hv)
    rw [← hordered.eq_of_length_le (h.once.subperm hsubset).length_le]
    exact hdefines

/-- Whether the entity is a variable. -/
def isVariable (t : Tree) (v : EntityId) : Bool := (t.entity? v).any Entity.isVar

theorem isVariable_iff {v : EntityId} :
    t.isVariable v = true ↔ ∃ x, t.entity? v = some x ∧ x.isVar = true :=
  Option.any_eq_true _ _

/-- The variables of a frame are found by leaving out all other entities, if no variable has two
names there. -/
theorem VariablesOf.eq_filter (h : t.VariablesOf f found)
    (honce : (f.names.values.filter t.isVariable).Nodup) :
    found = f.names.values.filter t.isVariable := by
  have hself : found.filter t.isVariable = found :=
    List.filter_eq_self.2 fun v hv => isVariable_iff.2 ((h.mem_iff v).1 hv).2
  have hordered := h.ordered.filter t.isVariable
  rw [hself] at hordered
  refine hordered.eq_of_length_le (honce.subperm ?_).length_le
  intro v hv
  obtain ⟨hmem, hvar⟩ := List.mem_filter.1 hv
  exact (h.mem_iff v).2 ⟨hmem, isVariable_iff.1 hvar⟩

end Tree

namespace Grammar

variable {s s' : State} {t : Tree} {log : List Binding} {defs : List ExprId} {id : ExprId}
  {written found : List EntityId} {frame : FrameId} {e : Expr}

/-- What definitions list in a frame is what its variables are. -/
theorem Lists.recovers (h : Lists t frame log defs written) {f : Frame}
    (hfound : t.VariablesOf f found) (hnames : f.names.values = boundIn frame log)
    (hbound : ∀ b ∈ log, ∃ x, t.entity? b.entity = some x ∧ (x.isVar = true → x.name = b.name)) :
    t.Recovers defs found := by
  have honce : (f.names.values.filter t.isVariable).Nodup := by
    rw [hnames]
    refine nodup_boundIn (fun v => ((t.entity? v).map Entity.name).getD "") ?_
    intro b hb hvar
    obtain ⟨x, hx, hname⟩ := hbound b hb
    obtain ⟨y, hy, hyvar⟩ := Tree.isVariable_iff.1 hvar
    obtain rfl := Option.some.inj (hx.symm.trans hy)
    rw [hx]
    exact hname hyvar
  refine ⟨hfound.once, written, h.defines, ?_, ?_⟩
  · have hself : written.filter t.isVariable = written :=
      List.filter_eq_self.2 fun v hv => Tree.isVariable_iff.2 (h.vars v hv)
    have hordered := h.ordered.filter t.isVariable
    rwa [hself, ← hnames, ← hfound.eq_filter honce] at hordered
  · intro v hv
    obtain ⟨hmem, x, hx, hvar⟩ := (hfound.mem_iff v).1 hv
    exact h.others v (hnames ▸ hmem) x hx hvar

/-! ## Parameters -/

/-- The variables in the frame of a signature recover its parameters. -/
theorem Reads.recovers_parameters {paren : Token} {first : Option ExprId} {result : EntityId}
    {span : Span} (h : Reads (.group paren id) s log s') (hs : s.tree.Sound)
    (he : s'.tree.expr? id = some ⟨.signature first result frame, span⟩)
    (hfound : s'.tree.variables? frame = some found) :
    ∃ defs, s'.tree.Chain first defs ∧ s'.tree.Recovers defs found := by
  obtain ⟨f, hf, hvariables⟩ := Tree.variables?_spec hfound
  cases h with
  | groupExpression => cases eq_of_newExpr he
  | @groupParameters _ _ _ _ _ _ s₁ s₂ s₃ s₄ hopen hcontent _ hdefinition hresult hclose =>
    cases eq_of_newExpr he
    have hs₁ := hopen.sound hs
    -- what comes after the parameters binds no names
    have hafter : Trail s₂ [] (s₄.add (.signature first result frame)
        (paren.span.merge s₄.cursor.previousSpan)) :=
      .after .next (hresult.trail.trans (.after (.closes hclose) (.single .add)))
    have htrail := hcontent.trail.trans hafter
    rw [List.append_nil] at htrail
    obtain ⟨defs, written, hchain, hlists⟩ := hcontent.lists_content hs₁ hdefinition
    rw [hopen.current] at hlists
    refine ⟨defs, hchain.mono hafter.extends, ?_⟩
    refine (hlists.mono hafter.extends).recovers hvariables (hopen.boundIn htrail hs.framed hf) ?_
    intro b hb
    obtain ⟨x, hx, hname⟩ := (hcontent.accounts hs₁ nofun).bound b hb
    exact ⟨x, hafter.extends.entity hx, hname⟩

/-! ## Members -/

/-- The variables in the frame of a record recover its members. -/
theorem Reads.recovers_members {keyword : Token} {form : RecordForm} {body : List ExprId}
    {span : Span} (h : Reads (.record keyword id) s log s') (hs : s.tree.Sound)
    (he : s'.tree.expr? id = some ⟨.record form body frame, span⟩)
    (hfound : s'.tree.variables? frame = some found) :
    ∃ defs, s'.tree.Members body defs ∧ s'.tree.Recovers defs found := by
  obtain ⟨f, hf, hvariables⟩ := Tree.variables?_spec hfound
  cases h with
  | @record _ _ _ _ _ s₁ s₂ s₃ _ hopen hbody hmembers hclose =>
    cases eq_of_newExpr he
    have hs₁ := hopen.sound hs
    have hafter : Trail s₂ [] (s₃.add (.record (recordForm keyword) body frame)
        (keyword.span.merge s₃.cursor.previousSpan)) :=
      .after .outside (.after (.closes hclose) (.single .add))
    have htrail := (Trail.after .inside hbody.trail).trans hafter
    rw [List.append_nil] at htrail
    obtain ⟨members, defs, written, rfl, hlist, hlists⟩ :=
      hbody.lists_members hs₁ hasExpr_empty hmembers
    have hcurrent : (s₁.inside .record).tree.currentFrame = frame := hopen.current
    rw [hcurrent] at hlists
    refine ⟨defs, hlist.mono hafter.extends, ?_⟩
    refine (hlists.mono hafter.extends).recovers hvariables (hopen.boundIn htrail hs.framed hf) ?_
    intro b hb
    obtain ⟨x, hx, hname⟩ := (hbody.accounts hs₁ hasExpr_empty).bound b hb
    exact ⟨x, hafter.extends.entity hx, hname⟩

/-! ## Whole sources -/

/-- The parameters of a function are recovered from its signature. -/
theorem Written.recovers {tokens : TokenList} {name : String} {function : EntityId}
    {header body : ExprId} {span : Span} (h : Written tokens t id)
    (he : t.expr? id = some ⟨.function name function header body, span⟩) :
    ∃ first result frame place canonical params defs,
      t.expr? header = some ⟨.signature first result frame, place⟩ ∧
        t.entity? function = some ⟨canonical, .function params result⟩ ∧
        t.Chain first defs ∧ t.Recovers defs params := by
  cases h with
  | read hread hs _ hevolves =>
    have hgrows := hevolves.toExtends
    rw [hgrows.expr_eq (hread.made rfl rfl)] at he
    obtain ⟨op, type, s₁, s₂, before, after, _, htype, hinit, hfunction, rfl⟩ :=
      hread.of_function he
    obtain ⟨first, result, frame, place, params, canonical, hheader, hparams, hentity⟩ :=
      hfunction.function_entity
    obtain ⟨_, s₃, s₄, hgroup, hbefore, hafter⟩ := hinit.value_group hheader rfl
    have hs₃ : s₃.tree.Sound := hbefore ▸ htype.tree.symm ▸ hs
    obtain ⟨defs, hchain, hrecovers⟩ :=
      hgroup.recovers_parameters hs₃ (hafter ▸ hheader) (hafter ▸ hparams)
    rw [← hafter] at hchain hrecovers
    have hlast := hfunction.extends.trans hgrows
    exact ⟨first, result, frame, place, canonical, params, defs, hlast.expr hheader,
      hgrows.entity hentity, hchain.mono hlast, hrecovers.mono hlast⟩

/-- The members of a record are recovered from its frame. -/
theorem Origin.recovers {form : RecordForm} {body : List ExprId} {span : Span}
    (h : Origin t id ⟨.record form body frame, span⟩) :
    ∃ members defs, t.variables? frame = some members ∧ t.Members body defs ∧
      t.Recovers defs members := by
  obtain ⟨keyword, s, s', log, hread, hs, he, hevolves⟩ := h.record
  have hs' := hread.sound hs True.intro
  have hrecord : s'.tree.IsRecordFrame frame := ⟨_, _, _, _, he⟩
  obtain ⟨members, hfound⟩ := hs'.variables? (hs'.recordFrame hrecord)
  obtain ⟨defs, hlist, hrecovers⟩ := hread.recovers_members hs he hfound
  have hgrows := hevolves.toExtends
  exact ⟨members, defs, Tree.variables?_mono hgrows (hevolves.record _ hrecord) hfound,
    hlist.mono hgrows, hrecovers.mono hgrows⟩

/-- The parameters of every function of an accepted source, and the members of every record, are
the variables of the definitions of its signature or record, in order, and variables defined
within the values of these. They are exactly the former if and only if there are none of the
latter. Every structure has its members in the frame of a record. -/
theorem parameters_and_members_recovered {source : String} {tree : Tree}
    (h : parseSource source = .ok tree) :
    (∀ id name function header body span,
      tree.expr? id = some ⟨.function name function header body, span⟩ →
      ∃ first result frame place canonical params defs,
        tree.expr? header = some ⟨.signature first result frame, place⟩ ∧
        tree.entity? function = some ⟨canonical, .function params result⟩ ∧
        tree.Chain first defs ∧ tree.Recovers defs params ∧
        (List.Forall₂ tree.Defines defs params ↔ ∀ v ∈ params, ¬tree.DefinedWithin defs v)) ∧
    (∀ id form body frame span, tree.expr? id = some ⟨.record form body frame, span⟩ →
      ∃ members defs, tree.variables? frame = some members ∧
        tree.Members body defs ∧ tree.Recovers defs members ∧
        (List.Forall₂ tree.Defines defs members ↔ ∀ v ∈ members, ¬tree.DefinedWithin defs v)) ∧
    ∀ type name frame, tree.entity? type = some ⟨name, .struct frame⟩ →
      tree.IsRecordFrame frame := by
  obtain ⟨tokens, _, hparse⟩ := parseSource_ok h
  have hone := oneTree_of_parse hparse
  refine ⟨?_, ?_, ?_⟩
  · intro id name function header body span he
    have hwritten := written_of_parse hparse (Tree.defined?_eq_some.2 ⟨_, he, rfl⟩)
    obtain ⟨first, result, frame, place, canonical, params, defs, hheader, hentity, hchain,
      hrecovers⟩ := hwritten.recovers he
    exact ⟨first, result, frame, place, canonical, params, defs, hheader, hentity, hchain,
      hrecovers, hrecovers.exact_iff (hchain.apart hone) (defines_unique_of_parse hparse)⟩
  · intro id form body frame span he
    rcases origin_of_parse hparse he with horigin | ⟨_, _, hscope⟩
    · obtain ⟨members, defs, hfound, hlist, hrecovers⟩ := horigin.recovers
      have hapart := hlist.apart hone he (fun _ hm => hm) (hone.nodup_children he)
      exact ⟨members, defs, hfound, hlist, hrecovers,
        hrecovers.exact_iff hapart (defines_unique_of_parse hparse)⟩
    · cases hscope
  · intro type name frame he
    exact ((sound_of_parse hparse).kind he).1

/-- Two parameters without values are the ones that are written. -/
theorem parameters_and_members_recovered_pair :
    ∃ tree params, parseSource "f :: (a : s32, b : s64) \x7b \x7d\n" = .ok tree ∧
      (∃ canonical result, tree.entity? ⟨18⟩ = some ⟨canonical, .function params result⟩) ∧
      tree.Chain (some ⟨1⟩) [⟨1⟩, ⟨0⟩] ∧ List.Forall₂ tree.Defines [⟨1⟩, ⟨0⟩] params := by
  have hrun : (parseSource "f :: (a : s32, b : s64) \x7b \x7d\n").toOption.any (fun tree =>
      decide ((tree.expr? ⟨0⟩).map Expr.node = some (.definition "b" .variable none ⟨17⟩ none) ∧
        (tree.expr? ⟨1⟩).map Expr.node = some (.definition "a" .variable none ⟨16⟩ (some ⟨0⟩)) ∧
        (tree.expr? ⟨2⟩).map Expr.node = some (.signature (some ⟨1⟩) Builtin.void.handle ⟨1⟩) ∧
        (tree.expr? ⟨4⟩).map Expr.node = some (.function "f" ⟨18⟩ ⟨2⟩ ⟨3⟩))) = true := by
    decide +kernel
  obtain ⟨tree, hparse, hcheck⟩ := exists_parse hrun
  obtain ⟨hb, ha, hsignature, hfunction⟩ := of_decide_eq_true hcheck
  obtain ⟨_, hb⟩ := exists_span hb
  obtain ⟨_, ha⟩ := exists_span ha
  obtain ⟨_, hsignature⟩ := exists_span hsignature
  obtain ⟨_, hfunction⟩ := exists_span hfunction
  obtain ⟨_, _, _, _, canonical, params, defs, hheader, hentity, hchain, _, hexact⟩ :=
    (parameters_and_members_recovered hparse).1 _ _ _ _ _ _ hfunction
  cases hsignature.symm.trans hheader
  have hwritten : tree.Chain (some ⟨1⟩) [⟨1⟩, ⟨0⟩] := .cons ha (.cons hb .nil)
  obtain rfl := hchain.unique hwritten
  refine ⟨tree, params, hparse, ⟨canonical, _, hentity⟩, hwritten, hexact.2 ?_⟩
  rintro v _ ⟨d, hd, value, ⟨_, _, _, _, _, he⟩, _⟩
  rcases List.mem_pair.1 hd with rfl | rfl
  · cases ha.symm.trans he
  · cases hb.symm.trans he

/-- A parameter that the default value of another one defines comes before that one, although only
the other is in the list of parameters that is written. -/
theorem parameter_defined_in_default_value :
    ¬∀ (source : String) (tree : Tree), parseSource source = .ok tree →
      ∀ id name function header body span first result frame place canonical params result' defs,
        tree.expr? id = some ⟨.function name function header body, span⟩ →
        tree.expr? header = some ⟨.signature first result frame, place⟩ →
        tree.entity? function = some ⟨canonical, .function params result'⟩ →
        tree.Chain first defs → List.Forall₂ tree.Defines defs params := by
  intro h
  have hrun : (parseSource "f :: (a : s32 = b : s32 = 1) \x7b \x7d\n").toOption.any (fun tree =>
      decide ((tree.expr? ⟨2⟩).map Expr.node =
          some (.definition "a" .variable (some ⟨1⟩) ⟨17⟩ none) ∧
        (tree.expr? ⟨3⟩).map Expr.node = some (.signature (some ⟨2⟩) Builtin.void.handle ⟨1⟩) ∧
        (tree.expr? ⟨5⟩).map Expr.node = some (.function "f" ⟨18⟩ ⟨3⟩ ⟨4⟩) ∧
        (tree.entity? ⟨18⟩).map Entity.kind =
          some (.function [⟨16⟩, ⟨17⟩] Builtin.void.handle))) = true := by decide +kernel
  obtain ⟨tree, hparse, hcheck⟩ := exists_parse hrun
  obtain ⟨ha, hsignature, hfunction, hentity⟩ := of_decide_eq_true hcheck
  obtain ⟨_, ha⟩ := exists_span ha
  obtain ⟨_, hsignature⟩ := exists_span hsignature
  obtain ⟨_, hfunction⟩ := exists_span hfunction
  obtain ⟨⟨_, _⟩, hentity, rfl⟩ := Option.map_eq_some_iff.1 hentity
  cases (h _ tree hparse _ _ _ _ _ _ _ _ _ _ _ _ _ _ hfunction hsignature hentity
    (.cons ha .nil)).length_eq

end Grammar

end OnePass

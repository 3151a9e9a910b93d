import OnePass.Proofs.Order
import OnePass.Proofs.Parts
import OnePass.Proofs.Primary

/-!
# Chains of definitions

Definitions that are separated by commas are linked one to the next (`Tree.Chain`), and the
members of a record are chains and functions (`Tree.Members`). A chain that is read in a frame
binds a variable for each of its definitions there, in order, but also the variables of
definitions that stand within the values (`Tree.DefinedWithin`): those are defined in the same
frame. `Lists` says this of what a log binds in a frame. It holds of a chain, of a member
function, which binds no variable there, and so of the members of a record, one after the other
(`Reads.lists_chain`, `Reads.lists_function`, `Reads.lists_members`).

No definition of a chain or of a record stands within the value of another one
(`Tree.Chain.apart`, `Tree.Members.apart`).
-/

namespace OnePass

namespace Tree

variable {t t' : Tree} {id d d' value : ExprId} {first : Option ExprId}
  {members members' defs defs' : List ExprId} {entity : EntityId} {e : Expr}

/-! ## Chains -/

/-- The definitions that are linked to one another, from an expression on. -/
inductive Chain (t : Tree) : Option ExprId → List ExprId → Prop where
  | nil : Chain t none []
  | cons {id : ExprId} {name : String} {op : DefOp} {init next : Option ExprId} {entity : EntityId}
      {span : Span} {rest : List ExprId}
      (he : t.expr? id = some ⟨.definition name op init entity next, span⟩)
      (hrest : Chain t next rest) : Chain t (some id) (id :: rest)

/-- The definitions among the members of a record, those that are linked to a member included;
the other members are functions. -/
inductive Members (t : Tree) : List ExprId → List ExprId → Prop where
  | nil : Members t [] []
  | chain {id : ExprId} {rest defs defs' : List ExprId} (hchain : t.Chain (some id) defs)
      (hrest : Members t rest defs') : Members t (id :: rest) (defs ++ defs')
  | function {id : ExprId} {name : String} {function : EntityId} {header body : ExprId}
      {span : Span} {rest defs : List ExprId}
      (he : t.expr? id = some ⟨.function name function header body, span⟩)
      (hrest : Members t rest defs) : Members t (id :: rest) defs

/-- The entity is defined within the value of one of the definitions. -/
def DefinedWithin (t : Tree) (defs : List ExprId) (entity : EntityId) : Prop :=
  ∃ d ∈ defs, ∃ value, t.HasValue d value ∧
    ∃ inner, t.Below value inner ∧ t.Defines inner entity

/-- None of the definitions stands within the value of one of them. -/
def Apart (t : Tree) (defs : List ExprId) : Prop :=
  ∀ d ∈ defs, ∀ d' ∈ defs, ∀ value, t.HasValue d' value → ¬t.Below value d

namespace Chain

theorem mono (h : t.Chain first defs) (hgrows : t.Extends t') : t'.Chain first defs := by
  induction h with
  | nil => exact .nil
  | cons he _ ih => exact .cons (hgrows.expr he) ih

/-- The definitions of one chain are determined. -/
theorem unique (h : t.Chain first defs) (h' : t.Chain first defs') : defs = defs' := by
  induction h generalizing defs' with
  | nil =>
    cases h'
    rfl
  | cons he _ ih =>
    cases h' with
    | cons he' hrest' =>
      cases he.symm.trans he'
      rw [ih hrest']

/-- The definitions of a chain are parts of the first one. -/
theorem part_of_first (h : t.Chain first defs) (hd : d ∈ defs) :
    ∃ id, first = some id ∧ t.Below id d := by
  induction h with
  | nil => cases hd
  | @cons id _ _ _ _ _ _ _ he _ ih =>
    refine ⟨id, rfl, ?_⟩
    rcases List.mem_cons.1 hd with rfl | hd
    · exact .root
    · obtain ⟨next, rfl, hbelow⟩ := ih hd
      exact (Below.child he (List.mem_append_right _ List.mem_cons_self)).trans hbelow

/-- The definitions of a chain stand apart: value and next definition are two children. -/
theorem apart (h : t.Chain first defs) (ht : t.OneTree) : t.Apart defs := by
  induction h with
  | nil => exact nofun
  | @cons id _ _ init next _ _ rest he hrest ih =>
    intro d hd d' hd' value hvalue hbelow
    obtain ⟨x, hx, hchild⟩ := hvalue.child
    have hle := ht.le_of_below hbelow
    have hlt := ht.older hx value hchild
    rcases List.mem_cons.1 hd with rfl | hlater <;> rcases List.mem_cons.1 hd' with rfl | hlater'
    · omega
    · -- the first definition is younger than those after it
      obtain ⟨next, rfl, hnext⟩ := hrest.part_of_first hlater'
      have hfirst := ht.older he next (List.mem_append_right _ List.mem_cons_self)
      have hpart := ht.le_of_below hnext
      omega
    · obtain ⟨next, rfl, hnext⟩ := hrest.part_of_first hlater
      obtain ⟨_, _, _, _, _, he'⟩ := hvalue
      cases he.symm.trans he'
      have hsame := ht.child_eq he (List.mem_append_left _ List.mem_cons_self)
        (List.mem_append_right _ List.mem_cons_self) hbelow hnext
      have honce : [value, next].Nodup := ht.nodup_children he
      rw [hsame] at honce
      exact (List.nodup_cons.1 honce).1 (List.mem_singleton_self _)
    · exact ih d hlater d' hlater' value hvalue hbelow

end Chain

namespace Members

theorem mono (h : t.Members members defs) (hgrows : t.Extends t') : t'.Members members defs := by
  induction h with
  | nil => exact .nil
  | chain hchain _ ih => exact .chain (hchain.mono hgrows) ih
  | function he _ ih => exact .function (hgrows.expr he) ih

theorem append (h : t.Members members defs) (h' : t.Members members' defs') :
    t.Members (members ++ members') (defs ++ defs') := by
  induction h with
  | nil => exact h'
  | chain hchain _ ih =>
    rw [List.append_assoc]
    exact .chain hchain ih
  | function he _ ih => exact .function he ih

/-- The definitions are parts of the members. -/
theorem part_of_member (h : t.Members members defs) (hd : d ∈ defs) :
    ∃ m ∈ members, t.Below m d := by
  induction h with
  | nil => cases hd
  | chain hchain _ ih =>
    rcases List.mem_append.1 hd with hd | hd
    · obtain ⟨_, ⟨⟩, hbelow⟩ := hchain.part_of_first hd
      exact ⟨_, List.mem_cons_self, hbelow⟩
    · obtain ⟨m, hm, hbelow⟩ := ih hd
      exact ⟨m, List.mem_cons_of_mem _ hm, hbelow⟩
  | function _ _ ih =>
    obtain ⟨m, hm, hbelow⟩ := ih hd
    exact ⟨m, List.mem_cons_of_mem _ hm, hbelow⟩

/-- The definitions among the children of an expression stand apart. -/
theorem apart (h : t.Members members defs) (ht : t.OneTree) (he : t.expr? id = some e)
    (hmembers : ∀ m ∈ members, m ∈ e.node.children) (honce : members.Nodup) : t.Apart defs := by
  induction h with
  | nil => exact nofun
  | @chain first rest _ _ hchain hrest ih =>
    rw [List.nodup_cons] at honce
    have hother : ∀ m ∈ rest, m ∈ e.node.children := fun m hm =>
      hmembers m (List.mem_cons_of_mem _ hm)
    -- the chain has no part in common with the members after it
    have hcommon : ∀ m ∈ rest, ∀ part, t.Below first part → ¬t.Below m part := by
      intro m hm part hfirst hpart
      have heq := ht.child_eq he (hmembers first List.mem_cons_self) (hother m hm) hfirst hpart
      exact honce.1 (heq ▸ hm)
    intro d hd d' hd' value hvalue hbelow
    obtain ⟨x, hx, hchild⟩ := hvalue.child
    have hinner := (Below.child hx hchild).trans hbelow
    rcases List.mem_append.1 hd with hd | hd <;> rcases List.mem_append.1 hd' with hd' | hd'
    · exact hchain.apart ht d hd d' hd' value hvalue hbelow
    · obtain ⟨_, ⟨⟩, hfirst⟩ := hchain.part_of_first hd
      obtain ⟨m, hm, hpart⟩ := hrest.part_of_member hd'
      exact hcommon m hm d hfirst (hpart.trans hinner)
    · obtain ⟨m, hm, hpart⟩ := hrest.part_of_member hd
      obtain ⟨_, ⟨⟩, hfirst⟩ := hchain.part_of_first hd'
      exact hcommon m hm d (hfirst.trans hinner) hpart
    · exact ih hother honce.2 d hd d' hd' value hvalue hbelow
  | function _ _ ih =>
    exact ih (fun m hm => hmembers m (List.mem_cons_of_mem _ hm)) (List.nodup_cons.1 honce).2

end Members

theorem DefinedWithin.mono (h : t.DefinedWithin defs entity) (hgrows : t.Extends t') :
    t'.DefinedWithin defs entity := by
  obtain ⟨d, hd, value, hvalue, inner, hbelow, hdefines⟩ := h
  exact ⟨d, hd, value, hvalue.mono hgrows, inner, hbelow.mono hgrows, hdefines.mono hgrows⟩

theorem DefinedWithin.subset (h : t.DefinedWithin defs entity) (hsubset : defs ⊆ defs') :
    t.DefinedWithin defs' entity := by
  obtain ⟨d, hd, hvalue⟩ := h
  exact ⟨d, hsubset hd, hvalue⟩

end Tree

namespace Grammar

variable {s s₀ s₁ s₂ s' : State} {t t' : Tree} {f : FrameId} {log log' : List Binding}
  {defs defs' : List ExprId} {written written' : List EntityId} {name symbol : Token}
  {closing : TokenSet} {id : ExprId} {e : Expr}

/-! ## What definitions list -/

/-- Of the variables that a log binds in a frame, some are those of the definitions, in order,
and all others are defined within the values of these. -/
structure Lists (t : Tree) (f : FrameId) (log : List Binding) (defs : List ExprId)
    (written : List EntityId) : Prop where
  defines : List.Forall₂ t.Defines defs written
  ordered : written.Sublist (boundIn f log)
  there : ∀ v ∈ boundIn f log, t.HasEntity v
  vars : ∀ v ∈ written, ∃ x, t.entity? v = some x ∧ x.isVar = true
  others : ∀ v ∈ boundIn f log, ∀ x, t.entity? v = some x → x.isVar = true →
    v ∈ written ∨ t.DefinedWithin defs v

namespace Lists

theorem nil : Lists t f [] [] [] := ⟨.nil, .slnil, nofun, nofun, nofun⟩

theorem mono (h : Lists t f log defs written) (hgrows : t.Extends t') :
    Lists t' f log defs written := by
  refine ⟨h.defines.imp fun _ _ hd => hd.mono hgrows, h.ordered,
    fun v hv => hgrows.hasEntity (h.there v hv), ?_, ?_⟩
  · intro v hv
    obtain ⟨x, hx, hvar⟩ := h.vars v hv
    exact ⟨x, hgrows.entity hx, hvar⟩
  · intro v hv x hx hvar
    rw [hgrows.entity_eq (h.there v hv)] at hx
    exact (h.others v hv x hx hvar).imp_right fun hwithin => hwithin.mono hgrows

/-- Two parts of a reading, of which the second finds all its names free. -/
theorem append (h : Lists t f log defs written) (h' : Lists t f log' defs' written')
    (hfree : ∀ c ∈ log', ∀ b ∈ log, ¬b.Same c) :
    Lists t f (log ++ log') (defs ++ defs') (written ++ written') := by
  have hbound := boundIn_append (f := f) hfree
  refine ⟨List.rel_append h.defines h'.defines, ?_, ?_, ?_, ?_⟩
  · rw [hbound]
    exact h.ordered.append h'.ordered
  · intro v hv
    rw [hbound] at hv
    exact (List.mem_append.1 hv).elim (h.there v) (h'.there v)
  · exact fun v hv => (List.mem_append.1 hv).elim (h.vars v) (h'.vars v)
  · intro v hv x hx hvar
    rw [hbound] at hv
    rcases List.mem_append.1 hv with hv | hv
    · exact (h.others v hv x hx hvar).imp (List.mem_append_left _)
        fun hwithin => hwithin.subset (List.subset_append_left _ _)
    · exact (h'.others v hv x hx hvar).imp (List.mem_append_right _)
        fun hwithin => hwithin.subset (List.subset_append_right _ _)

end Lists

/-- The names of a part that finds them all free are those of no part before. -/
theorem Tidy.apart {t₁ : Tree} (h' : Tidy t₁ log' t') (h : Track t log t₁) :
    ∀ c ∈ log', ∀ b ∈ log, ¬b.Same c := fun c hc => (h.free_before (h'.free c hc)).2

/-- Of a frame that a phrase leaves as it was, its log binds no names. -/
theorem Tidy.untouched (h : Tidy t log t') (hf : t'.frame? f = t.frame? f) :
    ∀ b ∈ log, b.frame ≠ f := by
  rintro b hb rfl
  have hbinding : t'.binding? b.frame b.name = t.binding? b.frame b.name := by
    unfold Tree.binding?
    rw [hf]
  rw [h.replay, h.free b hb, Option.or_eq_none_iff, boundBy_eq_none] at hbinding
  exact hbinding.1 b hb ⟨rfl, rfl⟩

/-! ## One definition -/

/-- The variables that are defined while a value is read are defined within it. -/
theorem Reads.value_nested {op : DefOp} {value : ExprId} {b : Binding} {x : Entity}
    (h : Reads (.initialValue op symbol closing (some value)) s log s') (hs : s.tree.Sound)
    (hb : b ∈ log) (hx : s'.tree.entity? b.entity = some x) (hvar : x.isVar = true) :
    ∃ inner, s'.tree.Below value inner ∧ s'.tree.Defines inner b.entity := by
  have hnames : Tidy s.tree log s'.tree := h.names hs.framed
  have hnew : ¬s.tree.HasEntity b.entity := Nat.not_lt.2 (hnames.fresh b hb).1
  obtain ⟨inner, hinner, hdefines⟩ :=
    ((h.accounts hs True.intro).defining hx hvar).resolve_left hnew
  obtain ⟨name, op, init, next, span, he⟩ := id hdefines
  have hnothing : s.tree.Forest s.tree.exprs.size [] s.tree.exprs.size := .nil
  have hforest := (h.grows hs True.intro True.intro).forest hnothing
  rcases hforest.covers (Nat.not_lt.1 hinner) (Tree.hasExpr_iff.2 ⟨_, he⟩) with hbelow | hname
  · obtain ⟨root, hroot, hbelow⟩ := hbelow
    obtain rfl := List.mem_singleton.1 hroot
    exact ⟨inner, hbelow, hdefines⟩
  · obtain ⟨_, _, _, hname⟩ := hname
    cases he.symm.trans hname

/-- A definition lists its variable, after its value has been read. -/
theorem Lists.definition (b : Binding) {op : DefOp} {init next : Option ExprId} {defined : String}
    {span : Span} {x : Entity} (hinit : Reads (.initialValue op symbol closing init) s log s')
    (hs : s.tree.Sound) (hgrows : s'.tree.Extends t) (hentity : t.entity? b.entity = some x)
    (hvariable : x.isVar = true)
    (he : t.expr? id = some ⟨.definition defined op init b.entity next, span⟩) :
    Lists t b.frame (log ++ [b]) [id] [b.entity] := by
  have hdefines : t.Defines id b.entity := ⟨_, _, _, _, _, he⟩
  refine ⟨.cons hdefines .nil, List.singleton_sublist.2 (mem_boundIn_last log b), ?_,
    List.forall_mem_singleton.2 ⟨x, hentity, hvariable⟩, ?_⟩
  · intro v hv
    obtain ⟨c, hc, _, rfl⟩ := mem_boundIn hv
    rcases List.mem_append.1 hc with hc | hc
    · obtain ⟨x, hx, _⟩ := (hinit.accounts hs True.intro).bound c hc
      exact Tree.hasEntity_iff.2 ⟨x, hgrows.entity hx⟩
    · rw [List.mem_singleton.1 hc]
      exact Tree.hasEntity_iff.2 ⟨x, hentity⟩
  · intro v hv x hx hvar
    obtain ⟨c, hc, _, rfl⟩ := mem_boundIn hv
    rcases List.mem_append.1 hc with hc | hc
    · cases init with
      | none =>
        cases hinit
        cases hc
      | some value =>
        obtain ⟨y, hy, _⟩ := (hinit.accounts hs True.intro).bound c hc
        obtain rfl := Option.some.inj ((hgrows.entity hy).symm.trans hx)
        obtain ⟨inner, hbelow, hinner⟩ := hinit.value_nested hs hc hy hvar
        exact .inr ⟨id, List.mem_singleton_self id, value, ⟨_, _, _, _, _, he⟩, inner,
          hbelow.mono hgrows, hinner.mono hgrows⟩
    · rw [List.mem_singleton.1 hc]
      exact .inl (List.mem_singleton_self _)

/-! ## Chains of definitions -/

/-- What follows the comma after a definition is a definition again. -/
theorem Reads.next_definition {next : ExprId}
    (h : Reads (.nextDefinition closing (some next)) s log s') :
    ∃ name symbol s₀ s₁ e, Reads (.definition name symbol closing next) s₀ log s₁ ∧
      s₀.tree = s.tree ∧ s'.tree = s₁.tree ∧ s₁.tree.expr? next = some e ∧
      isDefinition e.node = true := by
  cases h with
  | nextSome _ hstep hexpr hdefinition =>
    obtain ⟨name, symbol, s₀, s₁, hread, hbefore, hafter⟩ :=
      hstep.step_definition hexpr (defined?_of_isDefinition hdefinition)
    exact ⟨name, symbol, s₀, s₁, _, hread, hbefore, hafter, hafter ▸ hexpr, hdefinition⟩

/-- A definition of a variable: what it lists by itself, and what is read after it. -/
theorem Reads.first_definition (h : Reads (.definition name symbol closing id) s log s')
    (hs : s.tree.Sound) (he : s'.tree.expr? id = some e) (hnode : isDefinition e.node = true) :
    ∃ (head after : List Binding) (next : Option ExprId) (entity : EntityId) (s₁ s₂ : State),
      log = head ++ after ∧ head ≠ [] ∧ Reads (.nextDefinition closing next) s₁ after s₂ ∧
      s₁.tree.Sound ∧ s₁.tree.currentFrame = s.tree.currentFrame ∧ s₂.tree.Extends s'.tree ∧
      (∀ c ∈ after, ∀ b ∈ head, ¬b.Same c) ∧
      Lists s'.tree s.tree.currentFrame head [id] [entity] ∧
      ∃ defined op init span,
        s'.tree.expr? id = some ⟨.definition defined op init entity next, span⟩ := by
  cases h with
  | definitionFunction _ _ _ _ _ _ hfunction =>
    obtain ⟨_, _, hfound⟩ := hfunction.defines_function
    cases he.symm.trans hfound
    cases hnode
  | definitionRecord _ _ _ _ _ _ htypedef =>
    obtain ⟨_, hfound⟩ := htypedef.defines_record
    cases he.symm.trans hfound
    cases hnode
  | @definitionVariable _ _ _ op type init defined _ before _ after _ s₁ s₂ _ hnew _ htype hinit _
      hdefined hdeclaration hwithin =>
    cases hdeclaration with
    | @declaration _ _ _ _ _ next within _ _ s₃ hnext =>
      have hs₁ := htype.tree.symm ▸ hs
      have hs₂ := hinit.sound hs₁ True.intro
      have hcurrent : s₂.tree.currentFrame = s.tree.currentFrame :=
        hinit.leaves.current.trans htype.current
      have hfits := hdefined.fits hs₂ (fun d hd => (hd ▸ htype).isType.mono hinit.extends)
        fun i hi => hinit.made rfl hi
      obtain ⟨hs', hevolves, hentity⟩ : (s₂.install (.var name.text defined)).tree.Sound ∧ _ ∧ _ :=
        sound_named (e := .var name.text defined) hs₂ (And.intro hfits.1.hasEntity hfits.1) rfl
      have hnode' := expr?_newExpr s₃ (.definition name.text op init s₂.newEntity next)
        (name.span.merge s₃.cursor.previousSpan)
      have hadd := s₃.tree.pushExpr_extends ⟨.definition name.text op init s₂.newEntity next,
        name.span.merge s₃.cursor.previousSpan⟩
      have hlast := hnext.extends.trans hadd
      -- the name is bound after those of the value, and what follows finds all of them bound
      have hinitial : Tidy s.tree before s₂.tree :=
        (htype.tidy hs.framed).append (hinit.names hs₁.framed)
      have hname : (Entity.var name.text defined).name = name.text := rfl
      have hhead := hinitial.define (Named.install hs₂.framed hname within) hcurrent hnew hwithin
      have hrest : Tidy _ after s₃.tree := hnext.names hs'.framed
      have hlists := Lists.definition ⟨s₂.tree.currentFrame, name.text, s₂.newEntity, within⟩ hinit
        hs₁ (hevolves.toExtends.trans hlast) (hlast.entity hentity) rfl hnode'
      rw [hcurrent] at hlists
      refine ⟨before ++ [⟨s₂.tree.currentFrame, name.text, s₂.newEntity, within⟩], after, next,
        s₂.newEntity, _, _, List.append_cons .., List.append_ne_nil_of_right_ne_nil _ nofun, hnext,
        hs', hcurrent, hadd, hrest.apart hhead.toTrack, ?_, _, _, _, _, hnode'⟩
      rw [hcurrent]
      exact hlists

/-- A chain of definitions lists their variables. -/
theorem Reads.lists_chain (h : Reads (.definition name symbol closing id) s log s')
    (hs : s.tree.Sound) (he : s'.tree.expr? id = some e) (hnode : isDefinition e.node = true) :
    ∃ defs written, s'.tree.Chain (some id) defs ∧
      Lists s'.tree s.tree.currentFrame log defs written := by
  induction hn : log.length using Nat.strongRecOn
    generalizing name symbol closing id s log s' e with
  | ind n ih =>
    subst hn
    obtain ⟨head, after, next, entity, s₁, s₂, rfl, hne, hnext, hs₁, hcurrent, hgrows, hfree, hhead,
      _, _, _, _, hfound⟩ := h.first_definition hs he hnode
    cases next with
    | none =>
      cases hnext
      rw [List.append_nil]
      exact ⟨[id], [entity], .cons hfound .nil, hhead⟩
    | some next =>
      obtain ⟨_, _, s₃, s₄, e, hread, hbefore, hafter, hexpr, hdefinition⟩ := hnext.next_definition
      have hlen : after.length < (head ++ after).length := by
        rw [List.length_append]
        exact Nat.lt_add_of_pos_left (List.length_pos_iff.2 hne)
      obtain ⟨defs, written, hchain, hlists⟩ :=
        ih after.length hlen hread (hbefore ▸ hs₁) hexpr hdefinition rfl
      rw [← hafter] at hchain hlists
      rw [hbefore, hcurrent] at hlists
      exact ⟨id :: defs, entity :: written, .cons hfound (hchain.mono hgrows),
        hhead.append (hlists.mono hgrows) hfree⟩

/-- An expression that is a definition lists the variables of its chain. -/
theorem Reads.lists_definition (h : Reads (.extend none closing (some id)) s log s')
    (hs : s.tree.Sound) (he : s'.tree.expr? id = some e) (hnode : isDefinition e.node = true) :
    ∃ defs written, s'.tree.Chain (some id) defs ∧
      Lists s'.tree s.tree.currentFrame log defs written := by
  obtain ⟨_, _, s₀, s₁, hread, hbefore, hafter⟩ :=
    h.extend_definition he (defined?_of_isDefinition hnode)
  have hlists := hread.lists_chain (hbefore ▸ hs) (hafter ▸ he) hnode
  rw [hbefore, ← hafter] at hlists
  exact hlists

/-- What is between two parentheses before a result lists the parameters. -/
theorem Reads.lists_content {content : Option ExprId}
    (h : Reads (.extend none closing content) s log s') (hs : s.tree.Sound)
    (hdefinition : ∀ c, content = some c →
      ∃ e, s'.tree.expr? c = some e ∧ isDefinition e.node = true) :
    ∃ defs written, s'.tree.Chain content defs ∧
      Lists s'.tree s.tree.currentFrame log defs written := by
  cases content with
  | none =>
    obtain ⟨rfl, _⟩ := h.extend_nothing
    exact ⟨[], [], .nil, .nil⟩
  | some c =>
    obtain ⟨e, he, hnode⟩ := hdefinition c rfl
    exact h.lists_definition hs he hnode

/-! ## Functions -/

/-- A value that has parameters was read as a group. -/
theorem Reads.value_group {op : DefOp} {value : ExprId}
    (h : Reads (.initialValue op symbol closing (some value)) s log s')
    (he : s'.tree.expr? value = some e) (hsignature : e.node.signatureFrame?.isSome = true) :
    ∃ paren s₀ s₁, Reads (.group paren value) s₀ log s₁ ∧ s₀.tree = s.tree ∧ s'.tree = s₁.tree := by
  cases h with
  | initialConstant hvalue => exact hvalue.extend_signature he hsignature
  | initialSome _ hvalue => exact hvalue.extend_signature he hsignature

/-- What a function binds in the frame that it is defined in stands for the function itself: its
body is read in the frame of its signature. -/
theorem Reads.function_binds {header : ExprId} {b : Binding}
    (h : Reads (.function name header id) s log s') (hs : s.tree.Framed) (hb : b ∈ log)
    (hframe : b.frame = s.tree.currentFrame) : b.entity = s.newEntity := by
  cases h with
  | @function _ _ _ _ _ _ _ canonical _ within _ _ _ s₁ s₂ _ _ _ _ _ hnamed henter _ hbody =>
    rcases List.mem_cons.1 hb with rfl | hb
    · rfl
    rcases List.mem_append.1 hb with hb | hb
    · exact entity_newBinding b hb
    · have hnames := Named.named hs canonical within hnamed
      have hs₂ := (Step.enters henter).framed hnames.framed
      have hthere := (hnames.grows.trans (Step.enters henter).extends).hasFrame hs.current
      have hcurrent :
          (s₁.bindNew canonical s.newEntity).tree.currentFrame = s.tree.currentFrame := by
        subst hnamed
        unfold State.bindNew
        split <;> rfl
      -- the frame of the signature is younger than the one around it
      obtain ⟨x, hx, hparent⟩ := Option.bind_eq_some_iff.1 henter.eq.1
      have hinner := hnames.framed.parent hx hparent
      rw [hcurrent] at hinner
      have hbody' : Tidy s₂.tree _ _ := hbody.names hs₂
      refine absurd hframe (hbody'.untouched (hbody.leaves.frames _ hthere ?_) b hb)
      intro (heq : s.tree.currentFrame = s₂.tree.currentFrame)
      rw [heq, henter.current] at hinner
      exact Nat.lt_irrefl _ hinner

/-- A definition of a function binds no variable in the frame that it stands in. -/
theorem Reads.lists_function {defined : String} {function : EntityId} {header body : ExprId}
    {span : Span} (h : Reads (.definition name symbol closing id) s log s') (hs : s.tree.Sound)
    (he : s'.tree.expr? id = some ⟨.function defined function header body, span⟩) :
    Lists s'.tree s.tree.currentFrame log [] [] := by
  have hthere : ∀ v ∈ boundIn s.tree.currentFrame log, s'.tree.HasEntity v := by
    intro v hv
    obtain ⟨b, hb, _, rfl⟩ := mem_boundIn hv
    obtain ⟨x, hx, _⟩ := (h.accounts hs True.intro).bound b hb
    exact Tree.hasEntity_iff.2 ⟨x, hx⟩
  refine ⟨.nil, List.nil_sublist _, hthere, nofun, ?_⟩
  intro v hv x hx hvar
  obtain ⟨b, hb, hframe, rfl⟩ := mem_boundIn hv
  exfalso
  obtain ⟨op, type, s₁, s₂, before, after, rfl, htype, hinit, hfunction, rfl⟩ := h.of_function he
  have hs₁ := htype.tree.symm ▸ hs
  obtain ⟨_, _, _, _, _, _, hheader, _, hfound⟩ := hfunction.function_entity
  rcases List.mem_append.1 hb with hb | hb
  · -- the parameters are bound in the frame of the signature
    obtain ⟨_, s₃, s₄, hgroup, hbefore, hafter⟩ := hinit.value_group hheader rfl
    have hs₃ : s₃.tree.Framed := hbefore ▸ hs₁.framed
    have hnames : Tidy s₃.tree _ s₄.tree := hgroup.names hs₃
    have hsame : s₃.tree = s.tree := hbefore.trans htype.tree
    have hkept := hgroup.leaves.frames s.tree.currentFrame (hsame ▸ hs.framed.current)
      (Phrase.Closed.touches (φ := .group _ _) True.intro _)
    exact hnames.untouched hkept b hb hframe
  · have hcurrent : s₂.tree.currentFrame = s.tree.currentFrame :=
      hinit.leaves.current.trans htype.current
    have hs₂ := hinit.sound hs₁ True.intro
    have hentity := hfunction.function_binds hs₂.framed hb (hframe.trans hcurrent.symm)
    rw [hentity] at hx
    cases hx.symm.trans hfound
    cases hvar

/-! ## Members of records -/

/-- What may stand in a record is the definition of a variable or of a function. -/
theorem cases_of_mayHold {form : RecordForm} {node : Node} (h : mayHold form node = true) :
    isDefinition node = true ∨
      ∃ name function header body, node = .function name function header body := by
  cases node with
  | definition => exact .inl rfl
  | function name function header body => exact .inr ⟨name, function, header, body, rfl⟩
  | _ => cases form <;> cases h

/-- One member of a record lists the variables of its definitions. -/
theorem Reads.lists_member {form : RecordForm} {item : Option ExprId}
    (h : Reads (.extend none closing item) s log s') (hs : s.tree.Sound)
    (hmember : ∀ m, item = some m → ∃ e, s'.tree.expr? m = some e ∧ mayHold form e.node = true) :
    ∃ defs written, s'.tree.Members item.toList defs ∧
      Lists s'.tree s.tree.currentFrame log defs written := by
  cases item with
  | none =>
    obtain ⟨rfl, _⟩ := h.extend_nothing
    exact ⟨[], [], .nil, .nil⟩
  | some m =>
    obtain ⟨⟨node, span⟩, he, hholds⟩ := hmember m rfl
    rcases cases_of_mayHold hholds with hnode | ⟨defined, function, header, body, rfl⟩
    · obtain ⟨defs, written, hchain, hlists⟩ := h.lists_definition hs he hnode
      have hmembers : s'.tree.Members [m] (defs ++ []) := .chain hchain .nil
      rw [List.append_nil] at hmembers
      exact ⟨defs, written, hmembers, hlists⟩
    · obtain ⟨_, _, s₀, s₁, hread, hbefore, hafter⟩ := h.extend_definition he rfl
      have hlists := hread.lists_function (hbefore ▸ hs) (hafter ▸ he)
      rw [hbefore, ← hafter] at hlists
      exact ⟨[], [], .function he .nil, hlists⟩

/-- The members of a record list the variables of their definitions, one after the other. -/
theorem Reads.lists_members {form : RecordForm} {body : Array ExprId} {answer : List ExprId}
    (h : Reads (.sequence body closing answer) s log s') (hs : s.tree.Sound)
    (hbody : ∀ b ∈ body, s.tree.HasExpr b)
    (hmembers : ∀ m ∈ answer, ∃ e, s'.tree.expr? m = some e ∧ mayHold form e.node = true) :
    ∃ members defs written, answer = body.toList ++ members ∧ s'.tree.Members members defs ∧
      Lists s'.tree s.tree.currentFrame log defs written := by
  generalize hφ : Phrase.sequence body closing answer = φ at h
  induction h generalizing body with
  | sequenceClosing =>
    cases hφ
    exact ⟨[], [], [], (List.append_nil _).symm, .nil, .nil⟩
  | @sequenceItem _ _ item _ _ _ s s₁ s' _ _ hitem hrest _ ih =>
    cases hφ
    have hs₁ := hitem.sound hs nofun
    have hgrows := hrest.extends
    have hmade : ∀ i, item = some i → s₁.tree.HasExpr i := fun i hi => hitem.made rfl hi
    obtain ⟨members, defs', written', hanswer, hrest', hlists'⟩ :=
      ih hs₁ (hasExpr_item (fun b hb => hitem.extends.hasExpr (hbody b hb)) hmade) hmembers rfl
    rw [toList_item, List.append_assoc] at hanswer
    have hfirst : ∀ m, item = some m →
        ∃ e, s₁.tree.expr? m = some e ∧ mayHold form e.node = true := by
      intro m hm
      obtain ⟨e, he, hholds⟩ := hmembers m (by simp [hanswer, hm])
      rw [hgrows.expr_eq (hmade m hm)] at he
      exact ⟨e, he, hholds⟩
    obtain ⟨defs, written, hlist, hlists⟩ := hitem.lists_member hs hfirst
    have hnames : Tidy (s.past separators).tree _ s₁.tree := hitem.names hs.framed
    have hrestNames : Tidy s₁.tree _ s'.tree := hrest.names hs₁.framed
    rw [hitem.leaves.current] at hlists'
    exact ⟨item.toList ++ members, defs ++ defs', written ++ written', hanswer,
      (hlist.mono hgrows).append hrest',
      (hlists.mono hgrows).append hlists' (hrestNames.apart hnames.toTrack)⟩
  | _ => cases hφ

end Grammar

end OnePass

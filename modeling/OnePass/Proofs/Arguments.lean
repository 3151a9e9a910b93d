import OnePass.Proofs.Building
import OnePass.Proofs.Progress
import OnePass.Proofs.Rebinding

/-!
# Arguments

Each parameter of a function that is called, and each variable of a structure in a literal, gets
the argument that stands in its place: the chain of arguments has one for each of them, in
order, that converts into its type (`Tree.Binds`). This is read off the reading that made the
call (`Origin.call`) and still holds in the final tree.

How many arguments a source offers does not depend on the parameters (`Offers`). A call that
is offered more or fewer, or a comma after the last one, ends with a fault.
-/

namespace OnePass

namespace Tree

variable {t t' : Tree}

/-! ## Variables of a frame -/

/-- The entities are the variables that names of the frame stand for, each once, in the order of
definition. -/
structure VariablesOf (t : Tree) (f : Frame) (members : List EntityId) : Prop where
  once : members.Nodup
  ordered : members.Sublist f.names.values
  mem_iff : ∀ m, m ∈ members ↔
    m ∈ f.names.values ∧ ∃ e, t.entity? m = some e ∧ e.isVar = true

theorem variables?_spec {frame : FrameId} {members : List EntityId}
    (h : t.variables? frame = some members) :
    ∃ f, t.frame? frame = some f ∧ t.VariablesOf f members := by
  obtain ⟨f, hf, hamong⟩ := Option.bind_eq_some_iff.1 h
  obtain ⟨hsublist, hmem⟩ := variablesAmong?_spec hamong
  refine ⟨f, hf, (nodup_eraseDups _).sublist hsublist, hsublist.trans (eraseDups_sublist _), ?_⟩
  intro m
  rw [hmem]
  exact and_congr_left fun _ => Frame.mem_entities

/-! ## Chains of arguments -/

/-- The chain of arguments gives these values, one argument each. -/
inductive Gives (t : Tree) : Option ExprId → List ExprId → Prop where
  | nil : Gives t none []
  | cons {arg value : ExprId} {next : Option ExprId} {span : Span} {values : List ExprId}
      (harg : t.expr? arg = some ⟨.argument value next, span⟩) (hnext : Gives t next values) :
      Gives t (some arg) (value :: values)

/-- The value converts into the type of a parameter or variable without being told to. -/
def Suits (t : Tree) (value : ExprId) (param : EntityId) : Prop :=
  ∃ target, t.entityType? param = some target ∧ t.Fills value target

/-- The chain of arguments has one for each parameter, in order, which suits it. -/
def Binds (t : Tree) (args : Option ExprId) (params : List EntityId) : Prop :=
  ∃ values, t.Gives args values ∧ List.Forall₂ t.Suits values params

/-- In every call and in every literal of a structure the arguments are bound exactly. -/
structure BindsArguments (t : Tree) : Prop where
  call : ∀ {id callee function args span},
    t.expr? id = some ⟨.call callee function args, span⟩ →
      t.exprType? callee = some function ∧ ∃ name params result,
        t.entity? function = some ⟨name, .function params result⟩ ∧ t.Binds args params
  structLiteral : ∀ {id type args span},
    t.expr? id = some ⟨.structLiteral type args, span⟩ → ∃ name frame f members,
      t.entity? type = some ⟨name, .struct frame⟩ ∧ t.frame? frame = some f ∧
        t.variables? frame = some members ∧ t.VariablesOf f members ∧ t.Binds args members

theorem Gives.mono {args : Option ExprId} {values : List ExprId} (h : t.Gives args values)
    (hgrows : t.Extends t') : t'.Gives args values := by
  induction h with
  | nil => exact .nil
  | cons harg _ ih => exact .cons (hgrows.expr harg) ih

theorem Suits.mono {value : ExprId} {param : EntityId} (h : t.Suits value param) (ht : t.Sound)
    (hevolves : t.Evolves t') : t'.Suits value param := by
  obtain ⟨target, htarget, hfills⟩ := h
  exact ⟨target, entityType?_mono hevolves.toExtends htarget,
    hfills.mono hevolves ht.builtins ht.hasRecords⟩

theorem Binds.mono {args : Option ExprId} {params : List EntityId} (h : t.Binds args params)
    (ht : t.Sound) (hevolves : t.Evolves t') : t'.Binds args params := by
  obtain ⟨values, hgives, hsuits⟩ := h
  exact ⟨values, hgives.mono hevolves.toExtends, hsuits.imp fun _ _ h => h.mono ht hevolves⟩

end Tree

namespace Grammar

variable {s s₁ s₂ s' : State} {log : List Binding} {p : Productions} {closing : TokenSet}
  {params : List EntityId} {args : Option ExprId} {values values' : List ExprId} {n : Nat}
  {after trailing trailing' : Bool}

/-- The arguments that are read are one for each parameter. -/
theorem Reads.binds (h : Reads (.arguments closing params args) s log s') (hs : s.tree.Sound)
    (hparams : ∀ p ∈ params, s.tree.HasEntity p) : s'.tree.Binds args params := by
  generalize hφ : Phrase.arguments closing params args = φ at h
  induction h generalizing params args with
  | argumentsNil =>
    cases hφ
    exact ⟨[], .nil, .nil⟩
  | @argumentsCons _ param rest value next _ _ e _ _ s s₁ s₂ s' hvalue hsource htarget hconverts
      hseparates hrest _ _ ih =>
    cases hφ
    have hs₁ := hvalue.sound hs nofun
    have hs₂ : s₂.tree.Sound := hseparates.tree ▸ hs₁
    have hrestParams : ∀ p ∈ rest, s₂.tree.HasEntity p := fun p hp =>
      (hvalue.extends.trans hseparates.trail.extends).hasEntity
        (hparams p (List.mem_cons_of_mem _ hp))
    have hs' := hrest.sound hs₂ hrestParams
    obtain ⟨values, hgives, hsuits⟩ := ih hs₂ hrestParams rfl
    have hlast : s'.tree.Evolves (s'.add (.argument value next) e.span).tree :=
      s'.tree.pushExpr_evolves _
    have hevolves : s₁.tree.Evolves s'.tree := hseparates.tree ▸ hrest.evolves hs₂
    have hhere : s₁.tree.Suits value param := ⟨_, htarget, _, hsource, hconverts⟩
    refine ⟨value :: values, .cons (expr?_newExpr _ _ _) (hgives.mono hlast.toExtends), ?_⟩
    exact .cons ((hhere.mono hs₁ hevolves).mono hs' hlast)
      (hsuits.imp fun _ _ h => h.mono hs' hlast)
  | _ => cases hφ

/-! ## Arguments that are offered -/

/-- The tokens that come next are arguments with these values, up to a closing token. A comma may
stand before them (`after`), and `trailing` says that one stands before the closing token. -/
inductive Offers (p : Productions) (closing : TokenSet) :
    Bool → State → List ExprId → Bool → Prop where
  | none {after : Bool} {s : State} (hclosing : (s.past {.newline}).cursor.isAt closing = true) :
      Offers p closing after s [] after
  | last {after : Bool} {s s₁ : State} {value : ExprId}
      (hvalue : p.expr ({.comma} ∪ closing) (s.past {.newline}) = .ok (some value) s₁)
      (hcomma : (s₁.past {.newline}).cursor.isAt {.comma} = false)
      (hclosing : (s₁.past {.newline}).cursor.isAt closing = true) :
      Offers p closing after s [value] false
  | more {after trailing : Bool} {s s₁ : State} {value : ExprId} {values : List ExprId}
      (hvalue : p.expr ({.comma} ∪ closing) (s.past {.newline}) = .ok (some value) s₁)
      (hcomma : (s₁.past {.newline}).cursor.isAt {.comma} = true)
      (hrest : Offers p closing true (s₁.past {.newline}).next values trailing) :
      Offers p closing after s (value :: values) trailing

/-- What the tokens offer, as far as `steps` arguments go. -/
def offered? (p : Productions) (closing : TokenSet) :
    Nat → Bool → State → Option (List ExprId × Bool)
  | 0, _, _ => none
  | steps + 1, after, s =>
    if (s.past {.newline}).cursor.isAt closing then some ([], after)
    else match p.expr ({.comma} ∪ closing) (s.past {.newline}) with
      | .ok (some value) s₁ =>
        if (s₁.past {.newline}).cursor.isAt {.comma} then
          (offered? p closing steps true (s₁.past {.newline}).next).map fun (values, trailing) =>
            (value :: values, trailing)
        else if (s₁.past {.newline}).cursor.isAt closing then some ([value], false)
        else none
      | _ => none

theorem offers_of_offered? {steps : Nat}
    (h : offered? p closing steps after s = some (values, trailing)) :
    Offers p closing after s values trailing := by
  induction steps generalizing after s values with
  | zero => cases h
  | succ steps ih =>
    unfold offered? at h
    split at h
    · cases h
      exact .none ‹_›
    · split at h
      · rename_i value s₁ hvalue
        split at h
        · obtain ⟨⟨rest, _⟩, hrest, h⟩ := Option.map_eq_some_iff.1 h
          cases h
          exact .more hvalue ‹_› (ih hrest)
        · rename_i hcomma
          split at h
          · cases h
            exact .last hvalue (Bool.eq_false_iff.2 hcomma) ‹_›
          · cases h
      · cases h

theorem past_past {wanted : TokenSet} : (s.past wanted).past wanted = s.past wanted :=
  congrArg (State.mk · s.tree s.constructs) Cursor.skip_skip

/-- Where the arguments end there is no value. -/
theorem Productions.Faithful.not_closing (hp : p.Faithful) {value : ExprId}
    (hvalue : p.expr ({.comma} ∪ closing) s = .ok (some value) s') :
    s.cursor.isAt closing = false := by
  obtain ⟨log, hread⟩ := hp.extend hvalue
  cases hread with
  | extendStep hclosing =>
    rw [Bool.eq_false_iff] at hclosing ⊢
    exact fun hat => hclosing (isAt_union.2 (.inr hat))

/-- The arguments that are accepted are as many as the parameters, with no comma behind. -/
theorem arguments_offers (h : arguments p closing params s = .ok args s')
    (hafter : after = true → params ≠ []) :
    ∃ values, Offers p closing after s values false ∧ values.length = params.length := by
  induction params generalizing s s' args after with
  | nil =>
    obtain ⟨hclosing, _, _⟩ := arguments_nil_ok h
    obtain rfl : after = false := Bool.eq_false_iff.2 fun h => hafter h rfl
    exact ⟨[], .none hclosing, rfl⟩
  | cons param rest ih =>
    obtain ⟨value, s₁, _, _, s₂, next, s₃, _, hvalue, _, _, _, hseparates, hnext, _⟩ :=
      arguments_cons_ok h
    cases hseparates with
    | last hcomma =>
      obtain ⟨hclosing, _, _⟩ := arguments_nil_ok hnext
      rw [past_past] at hclosing
      exact ⟨[value], .last hvalue hcomma hclosing, rfl⟩
    | comma hcomma =>
      obtain ⟨values, hoffers, hlength⟩ := ih hnext fun _ => List.cons_ne_nil _ _
      exact ⟨value :: values, .more hvalue hcomma hoffers, congrArg Nat.succ hlength⟩
    | surplus hcomma hclosing =>
      obtain ⟨hclosing', _, _⟩ := arguments_nil_ok hnext
      rw [past_past, hclosing] at hclosing'
      cases hclosing'

/-- What the tokens offer, they offer in one way only. -/
theorem Offers.unique (hp : p.Faithful) (h : Offers p closing after s values trailing)
    (h' : Offers p closing after s values' trailing') :
    values = values' ∧ trailing = trailing' := by
  induction h generalizing values' trailing' with
  | none hclosing =>
    cases h' with
    | none => exact ⟨rfl, rfl⟩
    | last hvalue | more hvalue => cases hclosing.symm.trans (hp.not_closing hvalue)
  | last hvalue hcomma =>
    cases h' with
    | none hclosing => cases hclosing.symm.trans (hp.not_closing hvalue)
    | last hvalue' =>
      cases hvalue.symm.trans hvalue'
      exact ⟨rfl, rfl⟩
    | more hvalue' hcomma' =>
      cases hvalue.symm.trans hvalue'
      cases hcomma.symm.trans hcomma'
  | more hvalue hcomma _ ih =>
    cases h' with
    | none hclosing => cases hclosing.symm.trans (hp.not_closing hvalue)
    | last hvalue' hcomma' =>
      cases hvalue.symm.trans hvalue'
      cases hcomma.symm.trans hcomma'
    | more hvalue' _ hrest' =>
      cases hvalue.symm.trans hvalue'
      obtain ⟨rfl, rfl⟩ := ih hrest'
      exact ⟨rfl, rfl⟩

/-- A production that ends in `run` reads arguments for just these parameters: as many as they are
and with no comma behind. Whatever else is offered, the production ends with a fault. -/
structure ReadsExactly (p : Productions) (closing : TokenSet) (s : State) (params : List EntityId)
    (run : EStateM.Result Fault State ExprId) : Prop where
  accepted : ∀ {id s'}, run = .ok id s' →
    ∃ values, Offers p closing false s values false ∧ values.length = params.length
  refused : ∀ {values trailing}, Offers p closing false s values trailing →
    trailing = true ∨ values.length ≠ params.length → ∃ fault s', run = .error fault s'

theorem readsExactly_of_arguments (hp : p.Faithful) {run : EStateM.Result Fault State ExprId}
    (h : ∀ {id s'}, run = .ok id s' → ∃ args s₁, arguments p closing params s = .ok args s₁) :
    ReadsExactly p closing s params run := by
  have haccepted : ∀ {id s'}, run = .ok id s' →
      ∃ values, Offers p closing false s values false ∧ values.length = params.length := by
    intro id s' hrun
    obtain ⟨args, s₁, hargs⟩ := h hrun
    exact arguments_offers hargs nofun
  refine ⟨haccepted, ?_⟩
  intro values trailing hoffers hwrong
  cases hrun : run with
  | error fault s' => exact ⟨fault, s', rfl⟩
  | ok id s' =>
    obtain ⟨values', hoffers', hlength⟩ := haccepted hrun
    obtain ⟨rfl, rfl⟩ := hoffers.unique hp hoffers'
    rcases hwrong with htrailing | hne
    · cases htrailing
    · exact absurd hlength hne

theorem call_readsExactly (hp : p.Faithful) {callee : ExprId} {paren : Token}
    {function : EntityId} {name : String} {result : EntityId}
    (htype : s.tree.exprType? callee = some function)
    (hentity : s.tree.entity? function = some ⟨name, .function params result⟩) :
    ReadsExactly p {.closeParen} s params (call p callee paren s) := by
  refine readsExactly_of_arguments hp ?_
  intro id s' hrun
  obtain ⟨_, _, _, _, args, s₁, _, htype', hentity', hfunction, hargs, _⟩ := call_ok hrun
  cases htype.symm.trans htype'
  cases hentity.symm.trans hentity'
  cases hfunction
  exact ⟨args, s₁, hargs⟩

theorem structLiteral_readsExactly (hp : p.Faithful) {base : ExprId} {brace : Token}
    {type : EntityId} {frame : FrameId} (hstruct : namedStruct? s.tree base = some (type, frame))
    (hmembers : s.tree.variables? frame = some params) :
    ReadsExactly p {.closeBrace} s params (structLiteral p base brace s) := by
  refine readsExactly_of_arguments hp ?_
  intro id s' hrun
  obtain ⟨_, _, _, args, s₁, _, hstruct', hmembers', hargs, _⟩ := structLiteral_ok hrun
  cases hstruct.symm.trans hstruct'
  cases hmembers.symm.trans hmembers'
  exact ⟨args, s₁, hargs⟩

/-! ## Sources -/

theorem function_of_function? {e : Entity} {result : EntityId}
    (h : e.function? = some (params, result)) : e.kind = .function params result := by
  obtain ⟨name, kind⟩ := e
  cases kind with
  | function =>
    cases h
    rfl
  | _ => cases h

theorem struct_of_structFrame? {e : Entity} {frame : FrameId}
    (h : e.structFrame? = some frame) : e.kind = .struct frame := by
  obtain ⟨name, kind⟩ := e
  cases kind with
  | struct =>
    cases h
    rfl
  | _ => cases h

theorem bindsArguments_of_parse {tokens : TokenList} {tree : Tree}
    (h : parse tokens = .ok tree) : tree.BindsArguments := by
  refine ⟨?_, ?_⟩
  · intro id callee function args span he
    have horigin := (origin_of_parse h he).resolve_right fun ⟨_, _, hmain⟩ => nomatch hmain
    obtain ⟨s, s', f, params, result, log, htype, hentity, hfunction, hargs, hs, hevolves⟩ :=
      horigin.call
    have hall := (hargs.evolves hs).trans hevolves
    have hparams := params_hasEntity hs hentity hfunction
    refine ⟨Tree.exprType?_mono hall.toExtends hs.builtins htype, f.name, params, result, ?_, ?_⟩
    · rw [hall.toExtends.entity hentity, ← function_of_function? hfunction]
    · exact (hargs.binds hs hparams).mono (hargs.sound hs hparams) hevolves
  · intro id type args span he
    have horigin := (origin_of_parse h he).resolve_right fun ⟨_, _, hmain⟩ => nomatch hmain
    obtain ⟨s, s', f, frame, members, log, hentity, hframe, hvariables, hargs, hs, hevolves⟩ :=
      horigin.structLiteral
    have hall := (hargs.evolves hs).trans hevolves
    have hmembers := variables?_hasEntity hs hvariables
    have hkind := struct_of_structFrame? hframe
    have hrecord : s.tree.IsRecordFrame frame :=
      hs.hasRecords type f frame hentity (by unfold Entity.recordFrame?; rw [hkind])
    have hvariables' := Tree.variables?_mono hall.toExtends (hall.record frame hrecord) hvariables
    obtain ⟨fr, hfr, hspec⟩ := Tree.variables?_spec hvariables'
    refine ⟨f.name, frame, fr, members, ?_, hfr, hvariables', hspec, ?_⟩
    · rw [hall.toExtends.entity hentity, ← hkind]
    · exact (hargs.binds hs hmembers).mono (hargs.sound hs hmembers) hevolves

/-- In a source that is accepted every call binds its arguments to the parameters of the
function, and every literal of a structure to its variables, one by one; and calls and literals
accept no other number of arguments, and no comma behind the last. -/
theorem arguments_bound_exactly :
    (∀ (source : String) (tree : Tree), parseSource source = .ok tree → tree.BindsArguments) ∧
      (∀ (n : Nat) (callee : ExprId) (paren : Token) (s : State) (function : EntityId)
        (name : String) (params : List EntityId) (result : EntityId),
        s.tree.exprType? callee = some function →
        s.tree.entity? function = some ⟨name, .function params result⟩ →
          ReadsExactly (level n) {.closeParen} s params (call (level n) callee paren s)) ∧
      ∀ (n : Nat) (base : ExprId) (brace : Token) (s : State) (type : EntityId)
        (frame : FrameId) (members : List EntityId), namedStruct? s.tree base = some (type, frame) →
        s.tree.variables? frame = some members →
          ReadsExactly (level n) {.closeBrace} s members
            (structLiteral (level n) base brace s) := by
  refine ⟨?_, ?_, ?_⟩
  · intro source tree h
    obtain ⟨tokens, _, hparse⟩ := parseSource_ok h
    exact bindsArguments_of_parse hparse
  · intro n callee paren s function name params result htype hentity
    exact call_readsExactly (faithful_level n) htype hentity
  · intro n base brace s type frame members hstruct hmembers
    exact structLiteral_readsExactly (faithful_level n) hstruct hmembers

/-- A structure and a function for one number each, and their names. -/
def singleSource : String := "P :: struct\x7ba : s32\x7d\nf :: (n : s32)\x7b\x7d\nP\nf\n"

/-- The tree of `singleSource`, before the tokens of a text. -/
def singleState (text : String) : State :=
  match parseSource singleSource, Lexicon.tokenize text.toList with
  | .ok tree, .ok tokens => ⟨.start tokens, tree, []⟩
  | _, _ => .initial default

/-- One argument is bound, and none, two, or a comma behind it are refused. -/
theorem arguments_bound_exactly_single :
    (∃ tree, parseSource (singleSource ++ "f(1)\nP\x7b2\x7d\n") = .ok tree ∧
        tree.BindsArguments) ∧
      (∀ text ∈ [")", "1, 2)", "1,)"], ∃ fault s',
        call (level 20) ⟨8⟩ default (singleState text) = .error fault s') ∧
      ∃ fault s', structLiteral (level 20) ⟨7⟩ default (singleState "1,\x7d") =
        .error fault s' := by
  have haccepted : (parseSource (singleSource ++ "f(1)\nP\x7b2\x7d\n")).isOk = true := by
    decide +kernel
  refine ⟨?_, ?_, ?_⟩
  · cases hparse : parseSource (singleSource ++ "f(1)\nP\x7b2\x7d\n") with
    | error fault =>
      rw [hparse] at haccepted
      cases haccepted
    | ok tree => exact ⟨tree, rfl, arguments_bound_exactly.1 _ tree hparse⟩
  · have hcall : ∀ text ∈ [")", "1, 2)", "1,)"],
        (singleState text).tree.exprType? ⟨8⟩ = some ⟨19⟩ ∧
          (singleState text).tree.entity? ⟨19⟩ = some ⟨"(n: s32)", .function [⟨18⟩] ⟨0⟩⟩ ∧
          ((offered? (level 20) {.closeParen} 5 false (singleState text)).any
            fun (values, trailing) => trailing = true ∨ values.length ≠ 1) = true := by
      decide +kernel
    intro text htext
    obtain ⟨htype, hentity, hoffered⟩ := hcall text htext
    obtain ⟨⟨values, trailing⟩, hoffered, hwrong⟩ := (Option.any_eq_true _ _).1 hoffered
    exact (arguments_bound_exactly.2.1 20 _ default _ _ _ _ _ htype hentity).refused
      (offers_of_offered? hoffered) (of_decide_eq_true hwrong)
  · obtain ⟨hstruct, hmembers, hoffered⟩ :
        namedStruct? (singleState "1,\x7d").tree ⟨7⟩ = some (⟨17⟩, ⟨1⟩) ∧
          (singleState "1,\x7d").tree.variables? ⟨1⟩ = some [⟨16⟩] ∧
          offered? (level 20) {.closeBrace} 5 false (singleState "1,\x7d") =
            some ([⟨10⟩], true) := by
      decide +kernel
    exact (arguments_bound_exactly.2.2 20 _ default _ _ _ _ hstruct hmembers).refused
      (offers_of_offered? hoffered) (.inl rfl)

end Grammar

end OnePass

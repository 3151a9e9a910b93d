import OnePass.Proofs.Names
import OnePass.Proofs.NodeFrames
import OnePass.Proofs.Scanning
import OnePass.Proofs.Steady
import OnePass.Types.Signature

/-!
# Registration of functions

The definition of a function changes the frame around it three times. Before the body is read the
name of the function and, if that is free, the name of its signature are bound (`Introduced`), and
when it has been read it becomes the body of the function (`Completed`). In between the body may
define other functions, but in other frames.

The name of a signature holds a parenthesis, which no name in a source does (`TokenList.Plain`).
So nothing but functions is bound to it, and of the functions of a frame with this name it stands
for the earliest (`Registers.first`). What a course does for the functions that it makes
(`Course.registers`) is then known of every source that is accepted (`accepted_functions`).
-/

namespace OnePass

/-! ## Names with a parenthesis -/

/-- The name holds an opening parenthesis, as those of signatures do. -/
def Parenthesized (name : String) : Prop := '(' ∈ name.toList

/-- No name among the tokens holds a parenthesis. -/
def TokenList.Plain (tokens : TokenList) : Prop := ∀ name, tokens.Names name → ¬Parenthesized name

namespace Lexicon

/-- Every token is what some rule describes. -/
theorem tokenize_described {source : List Char} {tokens : TokenList}
    (h : tokenize source = .ok tokens) :
    ∀ x ∈ tokens.body, Describes x.text.toList (.token x.kind) := by
  refine tokenize_all (fun span hmunch => ?_) h
  rw [String.toList_ofList]
  exact (longest_of_munch? hmunch).1.described
/-- The names in a source hold no parenthesis. -/
theorem plain_of_tokenize {source : List Char} {tokens : TokenList}
    (h : tokenize source = .ok tokens) : tokens.Plain := by
  have hrules : ∀ rule ∈ rules, rule.role = .token .name → rule.pattern.allows '(' = false := by
    decide
  rintro name ⟨token, htoken, hkind, rfl⟩ hmem
  rcases List.mem_append.1 htoken with htoken | htoken
  · obtain ⟨rule, hrule, hrole, hmatch⟩ :=
      tokenize_described h token (Array.mem_toList_iff.1 htoken)
    rw [hkind] at hrole
    have hallows := Pattern.allows_of_mem hmatch hmem
    rw [hrules rule hrule hrole] at hallows
    cases hallows
  · rw [List.mem_singleton.1 htoken, (tokenize_eof h).2] at hkind
    cases hkind

end Lexicon

namespace Tree

variable {t t' : Tree} {outer outer' frame : FrameId} {id body body' : ExprId}
  {function function' result : EntityId} {params : List EntityId} {name name' : String}

theorem typeName?_mono (h : t.Extends t') {entity : EntityId}
    (hname : t.typeName? entity = some name) : t'.typeName? entity = some name := by
  unfold typeName? at hname ⊢
  obtain ⟨type, htype, hname⟩ := Option.bind_eq_some_iff.1 hname
  obtain ⟨e, he, hname⟩ := Option.bind_eq_some_iff.1 hname
  rw [entityType?_mono h htype, Option.bind_eq_bind, Option.bind_some, h.entity he]
  exact hname

theorem paramText?_mono (h : t.Extends t') {param : EntityId} {text : String}
    (htext : t.paramText? param = some text) : t'.paramText? param = some text := by
  unfold paramText? at htext ⊢
  obtain ⟨e, he, htext⟩ := Option.bind_eq_some_iff.1 htext
  obtain ⟨type, htype, htext⟩ := Option.bind_eq_some_iff.1 htext
  rw [h.entity he, Option.bind_eq_bind, Option.bind_some, typeName?_mono h htype]
  exact htext

theorem mapM_paramText?_mono (h : t.Extends t') {texts : List String}
    (htexts : params.mapM t.paramText? = some texts) : params.mapM t'.paramText? = some texts := by
  induction params generalizing texts with
  | nil => exact htexts
  | cons param rest ih =>
    rw [List.mapM_cons] at htexts ⊢
    obtain ⟨text, htext, htexts⟩ := Option.bind_eq_some_iff.1 htexts
    obtain ⟨others, hothers, htexts⟩ := Option.bind_eq_some_iff.1 htexts
    rw [paramText?_mono h htext, ih hothers]
    exact htexts

theorem signatureName?_mono (h : t.Extends t')
    (hname : t.signatureName? params result = some name) :
    t'.signatureName? params result = some name := by
  unfold signatureName? at hname ⊢
  obtain ⟨texts, htexts, hname⟩ := Option.bind_eq_some_iff.1 hname
  obtain ⟨type, htype, hname⟩ := Option.bind_eq_some_iff.1 hname
  refine Option.bind_eq_some_iff.2 ⟨texts, mapM_paramText?_mono h htexts, ?_⟩
  refine Option.bind_eq_some_iff.2 ⟨type, entityType?_mono h htype, ?_⟩
  by_cases hvoid : type = Builtin.void.handle
  · rw [if_pos hvoid] at hname ⊢
    exact hname
  · rw [if_neg hvoid] at hname ⊢
    obtain ⟨text, htext, hname⟩ := Option.bind_eq_some_iff.1 hname
    exact Option.bind_eq_some_iff.2 ⟨text, typeName?_mono h htext, hname⟩

theorem parenthesized_of_signatureName? (h : t.signatureName? params result = some name) :
    Parenthesized name := by
  unfold signatureName? at h
  obtain ⟨texts, htexts, h⟩ := Option.bind_eq_some_iff.1 h
  obtain ⟨type, htype, h⟩ := Option.bind_eq_some_iff.1 h
  split at h
  · obtain rfl := Option.some.inj h
    simp [Parenthesized]
  · obtain ⟨text, htext, h⟩ := Option.bind_eq_some_iff.1 h
    obtain rfl := Option.some.inj h
    simp [Parenthesized]

/-! ## Functions in frames -/

/-- The bodies of functions that are kept in a frame. -/
def bodiesIn (t : Tree) (outer : FrameId) : Assoc EntityId ExprId :=
  ((t.frame? outer).map Frame.bodies).getD .empty

/-- The expression is a function with the body `body`, defined in the frame `outer`, in which the
frame of its header lies. It stands for the entity `function`, which is called after its
parameters and result. -/
def FunctionIn (t : Tree) (outer : FrameId) (name : String) (id : ExprId) (function : EntityId)
    (body : ExprId) : Prop :=
  ∃ word header params? params result frame span span',
    t.expr? id = some ⟨.function word function header body, span⟩ ∧
    t.expr? header = some ⟨.signature params? result frame, span'⟩ ∧ t.Parent outer frame ∧
    t.entity? function = some ⟨name, .function params result⟩ ∧
    t.signatureName? params result = some name

theorem bodiesIn_bind (t : Tree) (name : String) (entity : EntityId) (outer : FrameId) :
    (t.bind name entity).bodiesIn outer = t.bodiesIn outer :=
  asked_modifyFrame (f := (·.bind name entity)) (fun x => (x.map Frame.bodies).getD .empty)
    (fun _ => rfl) t.currentFrame outer

theorem bodiesIn_withChild (t : Tree) (outer : FrameId) :
    t.withChild.bodiesIn outer = t.bodiesIn outer :=
  asked_withChild (fun x => (x.map Frame.bodies).getD .empty) (fun _ _ => rfl) outer

theorem bodiesIn_setBody (h : t.HasFrame frame) (outer : FrameId) :
    (t.modifyFrame frame (·.setBody function body)).bodiesIn outer =
      if frame = outer then (t.bodiesIn outer).put function body else t.bodiesIn outer := by
  obtain ⟨f, hf⟩ := hasFrame_iff.1 h
  unfold bodiesIn
  rw [frame?_modifyFrame]
  by_cases houter : frame = outer
  · subst houter
    rw [if_pos rfl, if_pos rfl, hf]
    rfl
  · rw [if_neg houter, if_neg houter]

namespace FunctionIn

theorem mono (h : t.FunctionIn outer name id function body) (hgrows : t.Extends t') :
    t'.FunctionIn outer name id function body := by
  obtain ⟨_, _, _, _, _, _, _, _, hexpr, hheader, hparent, hentity, hname⟩ := h
  exact ⟨_, _, _, _, _, _, _, _, hgrows.expr hexpr, hgrows.expr hheader, hparent.mono hgrows,
    hgrows.entity hentity, signatureName?_mono hgrows hname⟩

theorem hasExpr (h : t.FunctionIn outer name id function body) : t.HasExpr id := by
  obtain ⟨_, _, _, _, _, _, _, _, hexpr, _⟩ := h
  exact hasExpr_iff.2 ⟨_, hexpr⟩

theorem hasEntity (h : t.FunctionIn outer name id function body) : t.HasEntity function := by
  obtain ⟨_, _, _, _, _, _, _, _, _, _, _, hentity, _⟩ := h
  exact hasEntity_iff.2 ⟨_, hentity⟩

theorem parenthesized (h : t.FunctionIn outer name id function body) : Parenthesized name := by
  obtain ⟨_, _, _, _, _, _, _, _, _, _, _, _, hname⟩ := h
  exact parenthesized_of_signatureName? hname

/-- A function is defined in one frame, with one name, entity and body. -/
theorem unique (h : t.FunctionIn outer name id function body)
    (h' : t.FunctionIn outer' name' id function' body') :
    outer = outer' ∧ name = name' ∧ function = function' ∧ body = body' := by
  obtain ⟨_, _, _, _, _, _, _, _, hexpr, hheader, hparent, hentity, -⟩ := h
  obtain ⟨_, _, _, _, _, _, _, _, hexpr', hheader', hparent', hentity', -⟩ := h'
  cases hexpr.symm.trans hexpr'
  cases hheader.symm.trans hheader'
  cases hentity.symm.trans hentity'
  exact ⟨Option.some.inj (hparent.symm.trans hparent'), rfl, rfl, rfl⟩

end FunctionIn

end Tree

namespace Grammar

variable {t t₁ t₂ t' : Tree} {s s₁ s' : State} {places places' : FrameId → Prop}
  {outer current frame : FrameId} {id body : ExprId} {function entity : EntityId}
  {name word : String} {node : Node} {span : Span}

/-! ## What a course does for functions -/

/-- The function is the earliest with the name that is defined in the frame and is not in `t`. -/
def EarliestIn (t t' : Tree) (outer : FrameId) (name : String) (function : EntityId) : Prop :=
  ∃ id body, t'.FunctionIn outer name id function body ∧ ¬t.HasExpr id ∧
    ∀ {id' function' body'}, t'.FunctionIn outer name id' function' body' → ¬t.HasExpr id' →
      id.index ≤ id'.index ∧ function.index ≤ function'.index

/-- The new functions are defined in some of the places. The frame of a new function keeps its
body, and lets its name stand for the earliest of the new functions, unless it stood for another
before. No more bodies are kept. -/
structure Registers (t : Tree) (places : FrameId → Prop) (t' : Tree) : Prop where
  grows : t.Extends t'
  functions : ∀ {id word function header body span},
    t'.expr? id = some ⟨.function word function header body, span⟩ → ¬t.HasExpr id →
    ∃ outer name, t'.FunctionIn outer name id function body
  place : ∀ {outer name id function body}, t'.FunctionIn outer name id function body →
    ¬t.HasExpr id → ¬t.HasEntity function ∧ places outer
  keepsBody : ∀ {outer function body}, (t.bodiesIn outer).get? function = some body →
    (t'.bodiesIn outer).get? function = some body
  hasBody : ∀ {outer name id function body}, t'.FunctionIn outer name id function body →
    ¬t.HasExpr id → (t'.bodiesIn outer).get? function = some body
  bodies : ∀ {outer b}, b ∈ (t'.bodiesIn outer).entries →
    b ∈ (t.bodiesIn outer).entries ∨ ∃ name id, t'.FunctionIn outer name id b.1 b.2
  keepsName : ∀ {outer name function}, Parenthesized name →
    t.binding? outer name = some function → t'.binding? outer name = some function
  bound : ∀ {outer name id function body}, t'.FunctionIn outer name id function body →
    ¬t.HasExpr id → ∃ first, t'.binding? outer name = some first
  first : ∀ {outer name function}, Parenthesized name → t.binding? outer name = none →
    t'.binding? outer name = some function → EarliestIn t t' outer name function

namespace Registers

/-- No function is defined. -/
theorem none (hgrows : t.Extends t') (hbodies : ∀ outer, t'.bodiesIn outer = t.bodiesIn outer)
    (hnames : ∀ {outer name}, Parenthesized name → t'.binding? outer name = t.binding? outer name)
    (hnone : ∀ {id word function header body span},
      t'.expr? id = some ⟨.function word function header body, span⟩ → t.HasExpr id) :
    Registers t places t' := by
  have hold : ∀ {outer name id function body}, t'.FunctionIn outer name id function body →
      t.HasExpr id := by
    rintro _ _ _ _ _ ⟨_, _, _, _, _, _, _, _, hexpr, _⟩
    exact hnone hexpr
  refine ⟨hgrows, fun he hnew => absurd (hnone he) hnew, fun h hnew => absurd (hold h) hnew, ?_,
    fun h hnew => absurd (hold h) hnew, ?_, ?_, fun h hnew => absurd (hold h) hnew, ?_⟩
  · intro outer function body hbody
    rwa [hbodies]
  · intro outer b hb
    exact .inl (hbodies outer ▸ hb)
  · intro outer name function hname hbound
    rwa [hnames hname]
  · intro outer name function hname hfree hbound
    rw [hnames hname, hfree] at hbound
    cases hbound

theorem imp (h : Registers t places t') (hplaces : ∀ outer, places outer → places' outer) :
    Registers t places' t' :=
  { h with place := fun hid hnew => (h.place hid hnew).imp_right (hplaces _) }

/-- A new function that was there in between was the same then. -/
theorem before (h : Registers t places t₁) (hgrows : t₁.Extends t')
    (hid : t'.FunctionIn outer name id function body) (hnew : ¬t.HasExpr id)
    (hmid : t₁.HasExpr id) : t₁.FunctionIn outer name id function body := by
  have ⟨_, _, _, _, _, _, _, _, hexpr, _⟩ := hid
  obtain ⟨outer', name', hbefore⟩ := h.functions ((hgrows.expr_eq hmid).symm.trans hexpr) hnew
  obtain ⟨rfl, rfl, -, -⟩ := (hbefore.mono hgrows).unique hid
  exact hbefore

theorem trans (h : Registers t places t₁) (h' : Registers t₁ places t') :
    Registers t places t' := by
  refine ⟨h.grows.trans h'.grows, ?_, ?_, fun hbody => h'.keepsBody (h.keepsBody hbody), ?_, ?_,
    fun hname hbound => h'.keepsName hname (h.keepsName hname hbound), ?_, ?_⟩
  · intro id word function header body span he hnew
    by_cases hmid : t₁.HasExpr id
    · obtain ⟨outer, name, hid⟩ := h.functions ((h'.grows.expr_eq hmid).symm.trans he) hnew
      exact ⟨outer, name, hid.mono h'.grows⟩
    · exact h'.functions he hmid
  · intro outer name id function body hid hnew
    by_cases hmid : t₁.HasExpr id
    · exact h.place (h.before h'.grows hid hnew hmid) hnew
    · exact (h'.place hid hmid).imp_left (mt h.grows.hasEntity)
  · intro outer name id function body hid hnew
    by_cases hmid : t₁.HasExpr id
    · exact h'.keepsBody (h.hasBody (h.before h'.grows hid hnew hmid) hnew)
    · exact h'.hasBody hid hmid
  · intro outer b hb
    rcases h'.bodies hb with hb | hnew
    · refine (h.bodies hb).imp_right ?_
      rintro ⟨name, id, hid⟩
      exact ⟨name, id, hid.mono h'.grows⟩
    · exact .inr hnew
  · intro outer name id function body hid hnew
    by_cases hmid : t₁.HasExpr id
    · obtain ⟨first, hfirst⟩ := h.bound (h.before h'.grows hid hnew hmid) hnew
      exact ⟨first, h'.keepsName hid.parenthesized hfirst⟩
    · exact h'.bound hid hmid
  · intro outer name function hname hfree hbound
    cases hmiddle : t₁.binding? outer name with
    | none =>
      -- none of the functions before the middle has the name
      obtain ⟨id, body, hid, hnew, hleast⟩ := h'.first hname hmiddle hbound
      refine ⟨id, body, hid, mt h.grows.hasExpr hnew, ?_⟩
      intro id' function' body' hid' hnew'
      by_cases hmid : t₁.HasExpr id'
      · obtain ⟨first, hfirst⟩ := h.bound (h.before h'.grows hid' hnew' hmid) hnew'
        cases hmiddle.symm.trans hfirst
      · exact hleast hid' hmid
    | some first =>
      obtain rfl := Option.some.inj ((h'.keepsName hname hmiddle).symm.trans hbound)
      obtain ⟨id, body, hid, hnew, hleast⟩ := h.first hname hfree hmiddle
      refine ⟨id, body, hid.mono h'.grows, hnew, ?_⟩
      intro id' function' body' hid' hnew'
      by_cases hmid : t₁.HasExpr id'
      · exact hleast (h.before h'.grows hid' hnew' hmid) hnew'
      · have hlater := Nat.le_of_not_lt (h'.place hid' hmid).1
        exact ⟨Nat.le_of_lt (Nat.lt_of_lt_of_le hid.hasExpr (Nat.le_of_not_lt hmid)),
          Nat.le_of_lt (Nat.lt_of_lt_of_le hid.hasEntity hlater)⟩

end Registers

/-- The function has been made, and in the frame `current` its name stands for it, unless it stood
for another before. -/
structure Introduced (t : Tree) (current : FrameId) (name : String) (function : EntityId)
    (t' : Tree) : Prop where
  grows : t.Extends t'
  exprs : t'.exprs = t.exprs
  bodies : ∀ outer, t'.bodiesIn outer = t.bodiesIn outer
  isNew : ¬t.HasEntity function
  names : ∀ {outer other}, Parenthesized other → t'.binding? outer other =
    if current = outer ∧ name = other then some ((t.binding? outer other).getD function)
    else t.binding? outer other

/-- The function was made last, and its body is kept in the frame `current`. -/
structure Completed (t : Tree) (current : FrameId) (name : String) (id : ExprId)
    (function : EntityId) (body : ExprId) (t' : Tree) : Prop where
  grows : t.Extends t'
  defines : t'.FunctionIn current name id function body
  last : ∀ {other}, t'.HasExpr other → t.HasExpr other ∨ other = id
  isNew : ¬t.HasExpr id
  hasBody : (t'.bodiesIn current).get? function = some body
  keepsBody : ∀ {outer function body}, (t.bodiesIn outer).get? function = some body →
    (t'.bodiesIn outer).get? function = some body
  bodies : ∀ {outer b}, b ∈ (t'.bodiesIn outer).entries →
    b ∈ (t.bodiesIn outer).entries ∨ outer = current ∧ b = (function, body)
  names : ∀ {outer name}, t'.binding? outer name = t.binding? outer name

/-- A function that is new when another is completed was defined in its body, or it is the other
one. -/
theorem Completed.cases (hdone : Completed t₂ current name id function body t')
    (h : Registers t₁ places t₂) {name' : String} {id' body' : ExprId} {function' : EntityId}
    (hid : t'.FunctionIn outer name' id' function' body') (hnew : ¬t₁.HasExpr id') :
    t₂.FunctionIn outer name' id' function' body' ∨
      id' = id ∧ outer = current ∧ name' = name ∧ function' = function ∧ body' = body := by
  rcases hdone.last hid.hasExpr with hthere | rfl
  · exact .inl (h.before hdone.grows hid hnew hthere)
  · exact .inr ⟨rfl, hid.unique hdone.defines⟩

/-- A name that was free stands for the function if it is that of the function, and for the
earliest function in the body if it is not. -/
theorem Completed.first (hdone : Completed t₂ current name id function body t')
    (hintro : Introduced t current name function t₁) (h : Registers t₁ places t₂)
    (hother : ¬places current) {name' : String} {function' : EntityId} (hname : Parenthesized name')
    (hfree : t.binding? outer name' = none) (hbound : t₂.binding? outer name' = some function') :
    EarliestIn t t' outer name' function' := by
  have hexprs : ∀ {id}, t₁.HasExpr id ↔ t.HasExpr id := Tree.hasExpr_congr hintro.exprs
  have hnames : t₁.binding? outer name' = _ := hintro.names hname
  split at hnames
  · -- no function in the body is defined in the frame of this one
    rename_i hsame
    obtain ⟨rfl, rfl⟩ := hsame
    rw [hfree] at hnames
    obtain rfl := Option.some.inj ((h.keepsName hname hnames).symm.trans hbound)
    have hlast : ¬t.HasExpr id := fun hold => hdone.isNew (h.grows.hasExpr (hexprs.2 hold))
    refine ⟨id, body, hdone.defines, hlast, ?_⟩
    intro id' function' body' hid hnew
    rcases hdone.cases h hid (mt hexprs.1 hnew) with hid | ⟨rfl, -, -, rfl, -⟩
    · exact absurd (h.place hid (mt hexprs.1 hnew)).2 hother
    · exact ⟨Nat.le_refl _, Nat.le_refl _⟩
  · rename_i hdifferent
    obtain ⟨id', body', hid, hnew, hleast⟩ := h.first hname (hnames.trans hfree) hbound
    refine ⟨id', body', hid.mono hdone.grows, mt hexprs.2 hnew, ?_⟩
    intro id'' function'' body'' hid' hnew'
    rcases hdone.cases h hid' (mt hexprs.1 hnew') with hid' | ⟨-, rfl, rfl, -, -⟩
    · exact hleast hid' (mt hexprs.1 hnew')
    · exact absurd ⟨rfl, rfl⟩ hdifferent

/-- A function is introduced, other functions are defined in other frames, and the function is
completed. -/
theorem Registers.around (h : Registers t₁ places t₂)
    (hintro : Introduced t current name function t₁)
    (hdone : Completed t₂ current name id function body t')
    (hplaces : ∀ outer, places outer → places' outer) (hcurrent : places' current)
    (hother : ¬places current) : Registers t places' t' := by
  have hold : ∀ {id}, ¬t.HasExpr id → ¬t₁.HasExpr id := mt (Tree.hasExpr_congr hintro.exprs).1
  have hparenthesized := hdone.defines.parenthesized
  refine ⟨hintro.grows.trans (h.grows.trans hdone.grows), ?_, ?_, ?_, ?_, ?_, ?_, ?_, ?_⟩
  · intro id' word function' header body' span he hnew
    rcases hdone.last (Tree.hasExpr_iff.2 ⟨_, he⟩) with hthere | rfl
    · obtain ⟨outer, name', hid⟩ :=
        h.functions ((hdone.grows.expr_eq hthere).symm.trans he) (hold hnew)
      exact ⟨outer, name', hid.mono hdone.grows⟩
    · have hid := hdone.defines
      have ⟨_, _, _, _, _, _, _, _, hexpr, _⟩ := hid
      cases hexpr.symm.trans he
      exact ⟨current, name, hid⟩
  · intro outer name' id' function' body' hid hnew
    rcases hdone.cases h hid (hold hnew) with hid | ⟨-, rfl, -, rfl, -⟩
    · exact (h.place hid (hold hnew)).imp (mt hintro.grows.hasEntity) (hplaces _)
    · exact ⟨hintro.isNew, hcurrent⟩
  · intro outer function' body' hbody
    rw [← hintro.bodies] at hbody
    exact hdone.keepsBody (h.keepsBody hbody)
  · intro outer name' id' function' body' hid hnew
    rcases hdone.cases h hid (hold hnew) with hid | ⟨-, rfl, -, rfl, rfl⟩
    · exact hdone.keepsBody (h.hasBody hid (hold hnew))
    · exact hdone.hasBody
  · intro outer b hb
    rcases hdone.bodies hb with hb | ⟨rfl, rfl⟩
    · rw [← hintro.bodies]
      refine (h.bodies hb).imp_right ?_
      rintro ⟨name', id', hid⟩
      exact ⟨name', id', hid.mono hdone.grows⟩
    · exact .inr ⟨name, id, hdone.defines⟩
  · intro outer name' function' hname hbound
    rw [hdone.names]
    refine h.keepsName hname ?_
    rw [hintro.names hname, hbound]
    split <;> rfl
  · intro outer name' id' function' body' hid hnew
    rw [hdone.names]
    rcases hdone.cases h hid (hold hnew) with hid | ⟨-, rfl, rfl, -, -⟩
    · exact h.bound hid (hold hnew)
    · have hbound := (hintro.names hparenthesized).trans (if_pos ⟨rfl, rfl⟩)
      exact ⟨_, h.keepsName hparenthesized hbound⟩
  · intro outer name' function' hname hfree hbound
    rw [hdone.names] at hbound
    exact hdone.first hintro h hother hname hfree hbound

/-! ## Courses -/

theorem Registers.add (hfunction : node.isFunction = false) :
    Registers t places (t.pushExpr ⟨node, span⟩).2 := by
  refine .none (t.pushExpr_extends _) (fun _ => rfl) (fun _ => rfl) ?_
  intro id word function header body span' he
  rcases Tree.of_expr?_pushExpr he with hold | ⟨_, hnode⟩
  · exact Tree.hasExpr_iff.2 ⟨_, hold⟩
  · cases hnode
    cases hfunction

/-- A step that makes no expression, binds no name and keeps no body. -/
theorem Step.registers (h : Step s [] s') (hs : s.tree.Framed)
    (hexprs : s'.tree.exprs = s.tree.exprs)
    (hbodies : ∀ outer, s'.tree.bodiesIn outer = s.tree.bodiesIn outer) :
    Registers s.tree places s'.tree := by
  refine .none h.extends hbodies (fun _ => h.replay hs _ _) fun he => ?_
  exact (Tree.hasExpr_congr hexprs).1 (Tree.hasExpr_iff.2 ⟨_, he⟩)

theorem Opens.registers (h : Opens s frame s') (hs : s.tree.Framed) :
    Registers s.tree places s'.tree := by
  refine (Step.opens h).registers hs h.exprs fun outer => ?_
  obtain ⟨rfl, hsize, rfl⟩ := h.eq
  exact s.tree.bodiesIn_withChild outer

theorem Closes.registers (h : Closes s s') (hs : s.tree.Framed) :
    Registers s.tree places s'.tree := by
  refine (Step.closes h).registers hs h.exprs fun outer => ?_
  obtain ⟨_, rfl⟩ := h.eq
  rfl

/-- An entity that is not a function is bound to a name in the source. -/
theorem registers_install (hs : s.tree.Framed) {e : Entity} (hname : ¬Parenthesized e.name) :
    Registers s.tree places (s.install e).tree := by
  have hgrows : s.tree.Extends (s.install e).tree := (@Trail.install _ _ _ 0 rfl).extends
  refine .none hgrows (fun outer => Tree.bodiesIn_bind _ _ _ _) ?_ fun he => ?_
  · intro outer other hother
    refine (binding?_bind hs.current _ _).trans (if_neg ?_)
    rintro ⟨_, rfl⟩
    exact hname hother
  · exact Tree.hasExpr_iff.2 ⟨_, he⟩

/-- The frame is the one in which a course is taken, or it is opened on the course. -/
def Nearby (t : Tree) (outer : FrameId) : Prop := outer = t.currentFrame ∨ ¬t.HasFrame outer

theorem Course.nearby (h : Course s s') (houter : Nearby s'.tree outer) : Nearby s.tree outer :=
  houter.imp (fun heq => heq.trans h.current) (mt h.extends.hasFrame)

theorem Opens.nearby (h : Opens s frame s') (houter : Nearby s'.tree outer) :
    Nearby s.tree outer := by
  rcases houter with rfl | hnew
  · rw [h.current]
    exact .inr h.isNew
  · exact .inr (mt (Step.opens h).extends.hasFrame hnew)

/-- What is read in a frame that is opened and closed is read around it too. -/
theorem Registers.inside {s₂ : State} (h : Registers s₁.tree (Nearby s₁.tree) s₂.tree)
    (hopen : Opens s frame s₁) (hs : s.tree.Framed) (hs₂ : s₂.tree.Framed) (hclose : Closes s₂ s') :
    Registers s.tree (Nearby s.tree) s'.tree :=
  ((hopen.registers hs).trans (h.imp fun _ => hopen.nearby)).trans (hclose.registers hs₂)

theorem isFunction_of_frames (h : node.frames = [frame]) : node.isFunction = false := by
  cases node <;> first | rfl | cases h

/-! ## One function -/

theorem binding?_bindNew (hs : s.tree.Framed) {other : String} :
    (s.bindNew name entity).tree.binding? outer other =
      if s.tree.currentFrame = outer ∧ name = other then
        some ((s.tree.binding? outer other).getD entity)
      else s.tree.binding? outer other := by
  unfold State.bindNew
  by_cases hfree : (s.tree.findLocal? name).isNone = true
  · have hnone : s.tree.binding? s.tree.currentFrame name = none :=
      Option.isNone_iff_eq_none.1 hfree
    rw [if_pos hfree]
    refine (binding?_bind hs.current _ _).trans ?_
    split
    · rename_i hsame
      obtain ⟨rfl, rfl⟩ := hsame
      rw [hnone]
      rfl
    · rfl
  · have htaken : s.tree.binding? s.tree.currentFrame name ≠ none :=
      mt Option.isNone_iff_eq_none.2 hfree
    rw [if_neg hfree]
    split
    · rename_i hsame
      obtain ⟨rfl, rfl⟩ := hsame
      obtain ⟨taken, htaken⟩ := Option.ne_none_iff_exists'.1 htaken
      rw [htaken]
      rfl
    · rfl

theorem bodiesIn_bindNew : (s.bindNew name entity).tree.bodiesIn outer = s.tree.bodiesIn outer := by
  unfold State.bindNew
  split
  · exact Tree.bodiesIn_bind _ _ _ _
  · rfl

theorem entity_named {e : Entity} (hnamed : s₁ = (s.addEntity e).bind word s.newEntity) :
    (s₁.bindNew name s.newEntity).tree.entity? s.newEntity = some e := by
  subst hnamed
  have hnew : (s.addEntity e).tree.entity? s.newEntity = some e :=
    (s.tree.entity?_pushEntity e s.newEntity).trans (if_pos rfl)
  exact Trail.bindNew.extends.entity ((@Step.bind _ _ _ 0).extends.entity hnew)

/-- A function is introduced before its body is read. -/
theorem introduced {s₂ : State} {e : Entity} (hs : s.tree.Framed)
    (hnamed : s₁ = (s.addEntity e).bind word s.newEntity) (hword : ¬Parenthesized word)
    (henter : Enters (s₁.bindNew name s.newEntity) frame s₂) :
    Introduced s.tree s.tree.currentFrame name s.newEntity s₂.tree := by
  obtain ⟨_, htrail⟩ := @Trail.named _ _ _ _ name hnamed
  have hs₁ : s₁.tree.Framed := by
    subst hnamed
    exact (Trail.after .addEntity (.single (@Step.bind _ _ _ 0))).framed hs
  refine ⟨htrail.extends.trans (Step.enters henter).extends,
    (Quiet.named hnamed).exprs.symm ▸ (Quiet.bindNew.trans henter.quiet).exprs, ?_,
    Nat.lt_irrefl _, ?_⟩
  · intro outer
    obtain ⟨_, hsize, rfl⟩ := henter.eq
    subst hnamed
    exact bodiesIn_bindNew.trans (Tree.bodiesIn_bind _ _ _ _)
  · intro outer other hother
    have hbefore : s₁.tree.binding? outer other = s.tree.binding? outer other := by
      subst hnamed
      refine (binding?_bind hs.current _ _).trans (if_neg ?_)
      rintro ⟨_, rfl⟩
      exact hword hother
    have hcurrent : s₁.tree.currentFrame = s.tree.currentFrame := by
      subst hnamed
      rfl
    obtain ⟨_, hsize, rfl⟩ := henter.eq
    rw [← hbefore, ← hcurrent]
    exact binding?_bindNew hs₁

/-- A function is completed when its body has been read. -/
theorem completed {header : ExprId} (ht : t.HasFrame current)
    (hbind : t.bindBody current function body = .ok t₁)
    (hid : (t₁.pushExpr ⟨.function word function header body, span⟩).2.FunctionIn current name
      ⟨t₁.exprs.size⟩ function body) :
    Completed t current name ⟨t₁.exprs.size⟩ function body
      (t₁.pushExpr ⟨.function word function header body, span⟩).2 := by
  have hfree : (t.bodiesIn current).get? function = none := by
    obtain ⟨f, hf⟩ := Tree.hasFrame_iff.1 ht
    unfold Tree.bindBody at hbind
    rw [hf] at hbind
    unfold Tree.bodiesIn
    rw [hf]
    split at hbind
    · cases hbind
    · assumption
  obtain rfl := Tree.bindBody_ok hbind
  have hset : ∀ outer, (t.modifyFrame current (·.setBody function body)).bodiesIn outer =
      if current = outer then (t.bodiesIn outer).put function body else t.bodiesIn outer :=
    Tree.bodiesIn_setBody ht
  have hmodify := t.modifyFrame_extends current (f := (·.setBody function body)) (fun _ => rfl)
    (fun _ => rfl)
  refine ⟨hmodify.trans (Tree.pushExpr_extends _ _), hid, ?_, Nat.lt_irrefl _, ?_, ?_, ?_,
    binding?_setBody _ _ _⟩
  · intro other hother
    obtain ⟨e, he⟩ := Tree.hasExpr_iff.1 hother
    refine (Tree.of_expr?_pushExpr he).imp (fun hold => ?_) And.left
    exact Tree.hasExpr_iff.2 ⟨e, hold⟩
  · refine (congrArg (·.get? function) (hset current)).trans ?_
    rw [if_pos rfl, Assoc.get?_put, if_pos rfl]
  · intro outer function' body' hbody
    refine (congrArg (·.get? function') (hset outer)).trans ?_
    split
    · rename_i hcurrent
      subst hcurrent
      rw [Assoc.get?_put, if_neg, hbody]
      rintro rfl
      cases hfree.symm.trans hbody
    · exact hbody
  · intro outer b hb
    have hentries := hset outer ▸ hb
    split at hentries
    · rename_i hcurrent
      exact (Assoc.mem_replace hentries).imp_right fun heq => ⟨hcurrent.symm, heq⟩
    · exact .inl hentries

/-- The new functions of a course are registered in the frames in which they are defined. -/
theorem Course.registers (h : Course s s') (hs : s.tree.Framed)
    (hplain : s.cursor.tokens.Plain) : Registers s.tree (Nearby s.tree) s'.tree := by
  induction h with
  | refl => exact .none .refl (fun _ => rfl) (fun _ => rfl) fun he => Tree.hasExpr_iff.2 ⟨_, he⟩
  | trans h _ ih ih' =>
    have hrest := ih' (h.framed hs) (h.tokens ▸ hplain)
    exact (ih hs hplain).trans (hrest.imp fun _ => h.nearby)
  | still _ htree =>
    rw [htree]
    exact .none .refl (fun _ => rfl) (fun _ => rfl) fun he => Tree.hasExpr_iff.2 ⟨_, he⟩
  | add _ hfunction => exact .add hfunction
  | install hname => exact registers_install hs (hplain _ hname)
  | within hopen hinner hclose ih =>
    have hs₁ := (Step.opens hopen).framed hs
    exact (ih hs₁ (hopen.2.1 ▸ hplain)).inside hopen hs (hinner.framed hs₁) hclose
  | house hopen hinner hclose hframes ih =>
    have hs₁ := (Step.opens hopen).framed hs
    have hinside := (ih hs₁ (hopen.2.1 ▸ hplain)).inside hopen hs (hinner.framed hs₁) hclose
    exact hinside.trans (.add (isFunction_of_frames hframes))
  | @function s s₀ s₁ s₂ s₃ s₄ word name header params? result frame _ bodySpan params members tree
      span hheader hexpr _ hnew hword hname hnamed henter hbody hclose hbind ih ih' =>
    have hs₀ := hheader.framed hs
    obtain ⟨_, htrail⟩ := @Trail.named _ _ _ _ name hnamed
    have hs₂ := (Step.enters henter).framed (htrail.framed hs₀)
    have htokens : s₂.cursor.tokens = s.cursor.tokens :=
      (htrail.snoc (.enters henter)).forward.tokens.trans hheader.tokens
    have hintro := introduced hs₀ hnamed (hplain word (hheader.tokens ▸ hword)) henter
    have hparent := henter.parent
    rw [current_named hnamed, hheader.current] at hparent
    rw [hheader.current] at hintro
    have hthere : s₂.tree.HasFrame s.tree.currentFrame :=
      hintro.grows.hasFrame (hheader.extends.hasFrame hs.current)
    -- other functions are defined in the frame of the header, or in frames that are new
    have hscope : Registers s₂.tree (Nearby s₂.tree)
        (s₃.add (.scope members frame) bodySpan).tree :=
      (ih' hs₂ (htokens ▸ hplain)).trans (.add rfl)
    have hinner := hscope.trans (hclose.registers (Step.add.framed (hbody.framed hs₂)))
    -- the function is completed around that frame
    have hcurrent : s₄.tree.currentFrame = s.tree.currentFrame := by
      refine (Tree.currentFrame_congr (henter.stack_closed hbody.stack hclose)).trans ?_
      rw [current_named hnamed, hheader.current]
    have hlast := hinner.grows.trans ((Step.bindBody hbind).extends.trans
      (tree.pushExpr_extends ⟨.function word s₀.newEntity header s₃.newExpr, span⟩))
    have hall := hintro.grows.trans hlast
    rw [hcurrent] at hbind
    have hentity := (Step.enters henter).extends.entity (entity_named hnamed)
    have hdone := completed (hinner.grows.hasFrame hthere) hbind
      ⟨_, _, _, _, _, _, _, _, tree.expr?_pushExpr_new _, hall.expr hexpr, hparent.mono hlast,
        hlast.entity hentity, Tree.signatureName?_mono hall hname⟩
    refine (ih hs hplain).trans (hinner.around hintro hdone ?_ (.inl rfl) ?_)
    · rintro outer (rfl | hnew')
      · rw [henter.current]
        exact .inr (hheader.fresh.isNew ⟨_, hexpr, List.mem_singleton_self _⟩ hnew)
      · exact .inr (mt (hheader.extends.trans hintro.grows).hasFrame hnew')
    · rintro (heq | hnew')
      · rw [henter.current] at heq
        rw [heq] at hparent
        obtain ⟨f, hf, hparent⟩ := Option.bind_eq_some_iff.1 hparent
        exact Nat.lt_irrefl _ (hs₂.parent hf hparent)
      · exact hnew' hthere

/-! ## Whole sources -/

/-- No built-in type is called like a signature. -/
theorem unbound_withBuiltins (hname : Parenthesized name) :
    Tree.withBuiltins.binding? outer name = none := by
  have hnames : ∀ f ∈ Tree.withBuiltins.frames, ∀ entry ∈ f.entries, '(' ∉ entry.1.toList := by
    decide +kernel
  refine Option.eq_none_iff_forall_ne_some.2 fun entity hbound => ?_
  obtain ⟨f, hf, hfind⟩ := Option.bind_eq_some_iff.1 hbound
  exact hnames f (Array.mem_of_getElem? hf) _ (Assoc.mem_of_lookup hfind) hname

theorem bodiesIn_withBuiltins (outer : FrameId) : Tree.withBuiltins.bodiesIn outer = .empty := by
  unfold Tree.bodiesIn
  cases hf : Tree.withBuiltins.frame? outer with
  | none => rfl
  | some f => exact (frames_withBuiltins f (Array.mem_of_getElem? hf)).2

/-- All functions of a source that is accepted are registered. -/
theorem registers_of_parse {tokens : TokenList} {tree : Tree} (h : parse tokens = .ok tree)
    (hplain : tokens.Plain) :
    Registers Tree.withBuiltins (Nearby Tree.withBuiltins) tree := by
  obtain ⟨s, members, span, hcourse, hgrows, rfl⟩ := course_of_parse h
  refine (hcourse.registers framed_withBuiltins hplain).trans
    (.none hgrows (fun _ => rfl) (fun _ => rfl) fun he => ?_)
  rcases Tree.of_expr?_pushExpr (t := s.tree) he with hold | ⟨_, hnode⟩
  · exact Tree.hasExpr_iff.2 ⟨_, hold⟩
  · cases hnode

/-- Every function of a source that is accepted is registered in the frame around its header. Its
entity is called after its parameters and result. The frame keeps its body, and no bodies but
those of its functions. The name stands for the earliest function of the frame that has it. -/
theorem accepted_functions {source : String} {tree : Tree} (h : parseSource source = .ok tree) :
    (∀ id word function header body span,
      tree.expr? id = some ⟨.function word function header body, span⟩ →
      ∃ outer name, tree.FunctionIn outer name id function body) ∧
    (∀ outer name id function body, tree.FunctionIn outer name id function body →
      (tree.bodiesIn outer).get? function = some body ∧
      ∃ first id' body', tree.binding? outer name = some first ∧
        tree.FunctionIn outer name id' first body' ∧
        ∀ other function' body'', tree.FunctionIn outer name other function' body'' →
          id'.index ≤ other.index ∧ first.index ≤ function'.index) ∧
    ∀ outer function body, (function, body) ∈ (tree.bodiesIn outer).entries →
      ∃ name id, tree.FunctionIn outer name id function body := by
  obtain ⟨tokens, htokens, hparse⟩ := parseSource_ok h
  have hregisters := registers_of_parse hparse (Lexicon.plain_of_tokenize htokens)
  have hnew : ∀ {id}, ¬Tree.withBuiltins.HasExpr id := Nat.not_lt_zero _
  refine ⟨fun _ _ _ _ _ _ he => hregisters.functions he hnew, ?_, ?_⟩
  · intro outer name id function body hid
    have hname := hid.parenthesized
    obtain ⟨first, hfirst⟩ := hregisters.bound hid hnew
    obtain ⟨id', body', hid', _, hleast⟩ :=
      hregisters.first hname (unbound_withBuiltins hname) hfirst
    exact ⟨hregisters.hasBody hid hnew, first, id', body', hfirst, hid',
      fun _ _ _ hother => hleast hother hnew⟩
  · intro outer function body hbody
    refine (hregisters.bodies hbody).resolve_left fun hold => ?_
    rw [bodiesIn_withBuiltins] at hold
    cases hold

/-- Two functions of one signature. -/
def twoFunctions : String := "f :: (n : s32) \x7b \x7d\ng :: (n : s32) \x7b \x7d\n"

/-- Both keep their bodies, and the second one does not take the name of the signature over. -/
theorem accepted_functions_two : ∃ tree, parseSource twoFunctions = .ok tree ∧
    tree.FunctionIn Tree.mainFrame "(n: s32)" ⟨3⟩ ⟨17⟩ ⟨2⟩ ∧
    tree.FunctionIn Tree.mainFrame "(n: s32)" ⟨7⟩ ⟨19⟩ ⟨6⟩ ∧
    (tree.bodiesIn Tree.mainFrame).get? ⟨19⟩ = some ⟨6⟩ ∧
    ∃ first, tree.binding? Tree.mainFrame "(n: s32)" = some first ∧ first.index ≤ 17 := by
  have hrun : (parseSource twoFunctions).toOption.any (fun tree =>
      decide ((tree.expr? ⟨3⟩).map Expr.node = some (.function "f" ⟨17⟩ ⟨1⟩ ⟨2⟩) ∧
        (tree.expr? ⟨1⟩).map Expr.node = some (.signature (some ⟨0⟩) Builtin.void.handle ⟨1⟩) ∧
        (tree.expr? ⟨7⟩).map Expr.node = some (.function "g" ⟨19⟩ ⟨5⟩ ⟨6⟩) ∧
        (tree.expr? ⟨5⟩).map Expr.node = some (.signature (some ⟨4⟩) Builtin.void.handle ⟨2⟩) ∧
        (tree.frame? ⟨1⟩).bind Frame.parent = some Tree.mainFrame ∧
        (tree.frame? ⟨2⟩).bind Frame.parent = some Tree.mainFrame ∧
        tree.entity? ⟨17⟩ = some ⟨"(n: s32)", .function [⟨16⟩] Builtin.void.handle⟩ ∧
        tree.entity? ⟨19⟩ = some ⟨"(n: s32)", .function [⟨18⟩] Builtin.void.handle⟩ ∧
        tree.signatureName? [⟨16⟩] Builtin.void.handle = some "(n: s32)" ∧
        tree.signatureName? [⟨18⟩] Builtin.void.handle = some "(n: s32)")) = true := by
    decide +kernel
  obtain ⟨tree, hparse, hcheck⟩ := exists_parse hrun
  obtain ⟨hf, hheader, hg, hheader', hparent, hparent', hentity, hentity', hname, hname'⟩ :=
    of_decide_eq_true hcheck
  obtain ⟨_, hf⟩ := exists_span hf
  obtain ⟨_, hheader⟩ := exists_span hheader
  obtain ⟨_, hg⟩ := exists_span hg
  obtain ⟨_, hheader'⟩ := exists_span hheader'
  have hfirst : tree.FunctionIn Tree.mainFrame "(n: s32)" ⟨3⟩ ⟨17⟩ ⟨2⟩ :=
    ⟨_, _, _, _, _, _, _, _, hf, hheader, hparent, hentity, hname⟩
  have hsecond : tree.FunctionIn Tree.mainFrame "(n: s32)" ⟨7⟩ ⟨19⟩ ⟨6⟩ :=
    ⟨_, _, _, _, _, _, _, _, hg, hheader', hparent', hentity', hname'⟩
  obtain ⟨hbody, first, _, _, hbound, _, hleast⟩ :=
    (accepted_functions hparse).2.1 _ _ _ _ _ hsecond
  exact ⟨tree, hparse, hfirst, hsecond, hbody, first, hbound, (hleast _ _ _ hfirst).2⟩

end Grammar

end OnePass

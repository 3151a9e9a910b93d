import OnePass.Proofs.Expressions

/-!
# Runs of scopes

The productions that open scopes follow the rules: scopes themselves, branches and loops. So does
a return from the function around.
-/

namespace OnePass.Grammar

variable {p : Productions} {s s' : State} {id : ExprId}

/-! ## Scopes -/

theorem openFrame_ok {span : Span} {frame : FrameId} :
    openFrame span s = .ok frame s' ↔ Opens s frame s' := framing_ok

theorem enterFrame_ok {span : Span} {frame : FrameId} {u : Unit} :
    enterFrame span frame s = .ok u s' ↔ Enters s frame s' := framing_ok

/-- Which frame was closed is not answered, so the rule only says that there is one. -/
theorem closeFrame_ok {span : Span} {u : Unit} (h : closeFrame span s = .ok u s') :
    Closes s s' := by
  obtain ⟨frame, s₁, hrun, h⟩ := bind_ok.1 h
  obtain ⟨_, rfl⟩ := pure_ok.1 h
  exact ⟨frame, framing_ok.1 hrun⟩

theorem scopeBody_reads (hp : p.Faithful) {brace : Token} {frame : FrameId}
    (h : scopeBody p brace frame s = .ok id s') :
    ∃ log, Reads (.scopeBody brace frame id) s log s' := by
  obtain ⟨body, s₁, hbody, h⟩ := bind_ok.1 h
  rw [previousSpan_bind] at h
  obtain ⟨rfl, rfl⟩ := push_ok.1 h
  obtain ⟨log, hread⟩ := hp.sequence hbody
  exact ⟨log, .scopeBody hread⟩

theorem scope_reads (hp : p.Faithful) {brace : Token} (h : scope p brace s = .ok id s') :
    ∃ log, Reads (.scope brace id) s log s' := by
  obtain ⟨frame, s₁, hopen, h⟩ := bind_ok.1 h
  obtain ⟨body, s₂, hbody, h⟩ := bind_ok.1 h
  obtain ⟨_, s₃, hclose, h⟩ := bind_ok.1 h
  obtain ⟨rfl, rfl⟩ := pure_ok.1 h
  obtain ⟨log, hread⟩ := scopeBody_reads hp hbody
  exact ⟨log, .scope (openFrame_ok.1 hopen) hread (closeFrame_ok hclose)⟩

theorem scopeAfter_reads (hp : p.Faithful) {word : String} {keyword : Token}
    (h : scopeAfter p word keyword s = .ok id s') :
    ∃ log, Reads (.scopeAfter word keyword id) s log s' := by
  unfold scopeAfter skipNewlines at h
  rw [skip_bind] at h
  rcases accept?_bind.1 h with ⟨hat, h⟩ | ⟨_, h⟩
  · obtain ⟨log, hread⟩ := scope_reads hp h
    exact ⟨log, .scopeAfter hat hread⟩
  · exact absurd h fail_ne_ok

/-! ## Branches, loops and returns -/

/-- A condition is there, and its type converts into the truth values. -/
theorem condition_ok {anchor : Token} {expr : Option ExprId}
    (h : condition anchor expr s = .ok id s') :
    expr = some id ∧ Condition s.tree id ∧ s = s' := by
  cases expr with
  | none => exact absurd h fail_ne_ok
  | some cond =>
    obtain ⟨type, htype, h⟩ := typeOf_bind.1 h
    obtain ⟨cast, hcast, h⟩ := converts_bind.1 h
    rcases ite_ok.1 h with ⟨himplicit, h⟩ | ⟨_, h⟩
    · obtain ⟨rfl, rfl⟩ := pure_ok.1 h
      exact ⟨rfl, ⟨type, htype, cast, hcast, himplicit⟩, rfl⟩
    · obtain ⟨_, _, h⟩ := typeNameOf_bind.1 h
      exact absurd h fail_ne_ok

theorem elseScope_reads (hp : p.Faithful) {answer : Option ExprId}
    (h : elseScope p s = .ok answer s') : ∃ log, Reads (.elseScope answer) s log s' := by
  rcases accept?_bind.1 h with ⟨hat, h⟩ | ⟨hat, h⟩
  · obtain ⟨scope, s₁, hscope, h⟩ := bind_ok.1 h
    obtain ⟨rfl, rfl⟩ := pure_ok.1 h
    obtain ⟨log, hread⟩ := scopeAfter_reads hp hscope
    exact ⟨log, .elseSome hat hread⟩
  · obtain ⟨rfl, rfl⟩ := pure_ok.1 h
    exact ⟨[], .elseNone hat⟩

theorem branch_reads (hp : p.Faithful) {keyword : Token} (h : branch p keyword s = .ok id s') :
    ∃ log, Reads (.branch keyword id) s log s' := by
  obtain ⟨frame, s₁, hopen, h⟩ := bind_ok.1 h
  obtain ⟨first, s₂, hcond, h⟩ := bind_ok.1 h
  obtain ⟨cond, _, hcheck, h⟩ := bind_ok.1 h
  obtain ⟨rfl, htype, rfl⟩ := condition_ok hcheck
  obtain ⟨thenScope, s₃, hthen, h⟩ := bind_ok.1 h
  obtain ⟨elseScope, s₄, helse, h⟩ := bind_ok.1 h
  obtain ⟨_, s₅, hclose, h⟩ := bind_ok.1 h
  rw [previousSpan_bind] at h
  obtain ⟨rfl, rfl⟩ := push_ok.1 h
  obtain ⟨log, hcond⟩ := hp.extend hcond
  obtain ⟨log', hthen⟩ := scopeAfter_reads hp hthen
  obtain ⟨log'', helse⟩ := elseScope_reads hp helse
  exact ⟨_, .branch (openFrame_ok.1 hopen) hcond htype hthen helse (closeFrame_ok hclose)⟩

/-- The loop with a condition or with none, in which case one that always holds is made. -/
theorem whileLoop_reads (hp : p.Faithful) {keyword : Token} {first : Option ExprId}
    {frame : FrameId} {log : List Binding} {s₁ s₂ : State} (hopen : Opens s frame s₁)
    (hfirst : Reads (.extend none {.semicolon, .openBrace} first) s₁ log s₂)
    (hat : s₂.cursor.isAt {.openBrace} = true)
    (h : whileLoop p keyword first frame s₂ = .ok id s') :
    ∃ log, Reads (.loop keyword id) s log s' := by
  obtain ⟨cond, s₃, hcond, h⟩ := bind_ok.1 h
  obtain ⟨checked, _, hcheck, h⟩ := bind_ok.1 h
  obtain ⟨hsame, htype, rfl⟩ := condition_ok hcheck
  obtain rfl : cond = checked := Option.some.inj hsame
  obtain ⟨scope, s₄, hscope, h⟩ := bind_ok.1 h
  obtain ⟨_, s₅, hclose, h⟩ := bind_ok.1 h
  rw [previousSpan_bind] at h
  obtain ⟨rfl, rfl⟩ := push_ok.1 h
  obtain ⟨log', hscope⟩ := scopeAfter_reads hp hscope
  cases first with
  | none =>
    obtain ⟨rfl, rfl⟩ := push_ok.1 hcond
    exact ⟨_, .loopEndless hopen hfirst hat htype hscope (closeFrame_ok hclose)⟩
  | some first =>
    obtain ⟨rfl, rfl⟩ := pure_ok.1 hcond
    exact ⟨_, .loopWhile hopen hfirst hat htype hscope (closeFrame_ok hclose)⟩

theorem countedLoop_reads (hp : p.Faithful) {keyword semicolon : Token} {init : ExprId}
    {frame : FrameId} {log : List Binding} {s₁ s₂ : State} (hopen : Opens s frame s₁)
    (hinit : Reads (.extend none {.semicolon, .openBrace} (some init)) s₁ log s₂)
    (hbrace : s₂.cursor.isAt {.openBrace} = false) (hfirst : s₂.cursor.isAt {.semicolon} = true)
    (h : countedLoop p keyword semicolon init frame s₂.next = .ok id s') :
    ∃ log, Reads (.loop keyword id) s log s' := by
  obtain ⟨found, s₃, hcond, h⟩ := bind_ok.1 h
  obtain ⟨cond, _, hcheck, h⟩ := bind_ok.1 h
  obtain ⟨rfl, htype, rfl⟩ := condition_ok hcheck
  rcases accept?_bind.1 h with ⟨hsecond, h⟩ | ⟨_, h⟩
  · obtain ⟨step, s₄, hstep, h⟩ := bind_ok.1 h
    cases step with
    | none => exact absurd h fail_ne_ok
    | some step =>
      obtain ⟨scope, s₅, hscope, h⟩ := bind_ok.1 h
      obtain ⟨_, s₆, hclose, h⟩ := bind_ok.1 h
      rw [previousSpan_bind] at h
      obtain ⟨rfl, rfl⟩ := push_ok.1 h
      obtain ⟨log₂, hcond⟩ := hp.extend hcond
      obtain ⟨log₃, hstep⟩ := hp.extend hstep
      obtain ⟨log₄, hscope⟩ := scopeAfter_reads hp hscope
      exact ⟨_, .loopCounted hopen hinit hbrace hfirst hcond htype hsecond hstep hscope
        (closeFrame_ok hclose)⟩
  · exact absurd h fail_ne_ok

/-- The brace or the semicolon after the first part tells the loops apart. -/
theorem loop_reads (hp : p.Faithful) {keyword : Token} (h : loop p keyword s = .ok id s') :
    ∃ log, Reads (.loop keyword id) s log s' := by
  obtain ⟨frame, s₁, hopen, h⟩ := bind_ok.1 h
  obtain ⟨first, s₂, hfirst, h⟩ := bind_ok.1 h
  obtain ⟨log, hread⟩ := hp.extend hfirst
  rw [isAt_bind] at h
  rcases ite_ok.1 h with ⟨hat, h⟩ | ⟨hbrace, h⟩
  · exact whileLoop_reads hp (openFrame_ok.1 hopen) hread hat h
  · rcases accept?_bind.1 h with ⟨hsemicolon, h⟩ | ⟨_, h⟩
    · cases first with
      | none => exact absurd h fail_ne_ok
      | some init =>
        exact countedLoop_reads hp (openFrame_ok.1 hopen) hread (by simpa using hbrace)
          hsemicolon h
    · cases h

/-- The innermost construct is asked for. Only if it is a function is there an answer. -/
theorem enclosingFunction?_bind {α : Type} {f : Option EntityId → Parse α} {b : α}
    (h : (enclosingFunction? >>= f) s = .ok b s') :
    (∃ function rest, s.constructs = .function function :: rest ∧
      f (some function) s = .ok b s') ∨ f none s = .ok b s' := by
  obtain ⟨found, s₁, hfound, h⟩ := bind_ok.1 h
  unfold enclosingFunction? at hfound
  rw [get_bind] at hfound
  rcases hconstructs : s.constructs with _ | ⟨_ | _, rest⟩ <;> rw [hconstructs] at hfound <;>
    obtain ⟨rfl, rfl⟩ := pure_ok.1 hfound
  · exact .inr h
  · exact .inl ⟨_, rest, rfl, h⟩
  · exact .inr h

theorem returnedType_ok {value : Option ExprId} {type : EntityId}
    (h : returnedType value s = .ok type s') : returnedType? s.tree value = some type ∧ s = s' := by
  cases value with
  | none =>
    obtain ⟨rfl, rfl⟩ := pure_ok.1 h
    exact ⟨rfl, rfl⟩
  | some value =>
    have hrun : known (s.tree.exprType? value) s = .ok type s' := h
    rw [known_run] at hrun
    cases htype : s.tree.exprType? value with
    | none => simp [htype] at hrun
    | some found =>
      simp only [htype, EStateM.Result.ok.injEq] at hrun
      exact ⟨htype.trans (congrArg some hrun.1), hrun.2⟩

/-- The value converts into the result of the function around; no value is one of type void. -/
theorem returns_reads (hp : p.Faithful) {keyword : Token} {closing : TokenSet}
    (h : returns p keyword closing s = .ok id s') :
    ∃ log, Reads (.returns keyword closing id) s log s' := by
  rcases enclosingFunction?_bind h with ⟨function, rest, hconstruct, h⟩ | h
  · obtain ⟨e, hentity, h⟩ := entityOf_bind.1 h
    obtain ⟨value, s₁, hvalue, h⟩ := bind_ok.1 h
    obtain ⟨source, _, hreturned, h⟩ := bind_ok.1 h
    obtain ⟨hsource, rfl⟩ := returnedType_ok hreturned
    obtain ⟨cast, hcast, h⟩ := converts_bind.1 h
    have hread := hp.extend hvalue
    rcases himplicit : cast.isImplicit with _ | _
    · simp only [himplicit] at h
      obtain ⟨_, _, h⟩ := typeNameOf_bind.1 h
      obtain ⟨_, _, h⟩ := typeNameOf_bind.1 h
      exact absurd h fail_ne_ok
    · simp only [himplicit] at h
      obtain ⟨rfl, rfl⟩ := push_ok.1 h
      obtain ⟨log, hread⟩ := hread
      exact ⟨log, .returns hconstruct hentity hread hsource ⟨cast, hcast, himplicit⟩⟩
  · exact absurd h fail_ne_ok

end OnePass.Grammar

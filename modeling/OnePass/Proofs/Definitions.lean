import OnePass.Proofs.Statements

/-!
# Runs of definitions

The productions that name things follow the rules: groups, which may be signatures, functions,
variables, records and their members. Those that bind the name of a definition follow them
whatever was read before in its value, which is the `within` of their binding.
-/

namespace OnePass.Grammar

variable {p : Productions} {s s' : State} {id : ExprId}

/-! ## Groups and functions -/

theorem isDefinition_ok {node : Node} {isDef : Bool}
    (h : (match node with
      | .definition .. => pure true
      | _ => pure false : Parse Bool) s = .ok isDef s') : isDefinition node = isDef ∧ s = s' := by
  cases node <;> exact pure_ok.1 h

/-- Parentheses hold parameters if they hold a definition or nothing. -/
theorem isParameters_ok {content : Option ExprId} {found : Bool}
    (h : isParameters content s = .ok found s') :
    (∀ c, content = some c → ∃ e, s.tree.expr? c = some e ∧ isDefinition e.node = found) ∧
      (content = none → found = true) ∧ s = s' := by
  cases content with
  | none =>
    obtain ⟨rfl, rfl⟩ := pure_ok.1 h
    exact ⟨nofun, fun _ => rfl, rfl⟩
  | some c =>
    obtain ⟨e, hexpr, h⟩ := nodeOf_bind.1 h
    obtain ⟨hdefinition, rfl⟩ := isDefinition_ok h
    refine ⟨?_, nofun, rfl⟩
    rintro _ ⟨⟩
    exact ⟨e, hexpr, hdefinition⟩

theorem resultType_ok {α : Type} {f : EntityId → Parse α} {b : α}
    (h : (do
      match ← accept? {.arrow} with
      | some arrow => typeName arrow >>= f
      | none => f Builtin.void.handle : Parse α) s = .ok b s') :
    ∃ result s₁, ResultType s result s₁ ∧ f result s₁ = .ok b s' := by
  rcases accept?_bind.1 h with ⟨harrow, h⟩ | ⟨harrow, h⟩
  · obtain ⟨result, s₁, hname, h⟩ := bind_ok.1 h
    obtain ⟨hnames, rfl⟩ := typeName_ok hname
    exact ⟨result, _, .named harrow hnames, h⟩
  · exact ⟨_, s, .nothing harrow, h⟩

/-- What the parentheses hold decides whether the rule for signatures or for groups applies. -/
theorem group_reads (hp : p.Faithful) {paren : Token} (h : group p paren s = .ok id s') :
    ∃ log, Reads (.group paren id) s log s' := by
  obtain ⟨frame, s₁, hopen, h⟩ := bind_ok.1 h
  obtain ⟨content, s₂, hcontent, h⟩ := bind_ok.1 h
  obtain ⟨log, hread⟩ := hp.extend hcontent
  rcases accept?_bind.1 h with ⟨hat, h⟩ | ⟨_, h⟩
  · obtain ⟨params, _, hparams, h⟩ := bind_ok.1 h
    obtain ⟨hdefinition, hnone, rfl⟩ := isParameters_ok hparams
    rcases ite_ok.1 h with ⟨rfl, h⟩ | ⟨hgroup, h⟩
    · obtain ⟨result, s₃, hresult, h⟩ := resultType_ok h
      obtain ⟨_, s₄, hclose, h⟩ := bind_ok.1 h
      rw [previousSpan_bind] at h
      obtain ⟨rfl, rfl⟩ := push_ok.1 h
      exact ⟨log, .groupParameters (openFrame_ok.1 hopen) hread hat hdefinition hresult
        (closeFrame_ok hclose)⟩
    · obtain ⟨_, s₄, hclose, h⟩ := bind_ok.1 h
      cases content with
      | none => exact absurd (hnone rfl) hgroup
      | some inner =>
        obtain ⟨rfl, rfl⟩ := push_ok.1 h
        obtain ⟨e, hexpr, hnode⟩ := hdefinition inner rfl
        exact ⟨log, .groupExpression (openFrame_ok.1 hopen) hread hat hexpr
          (by simpa [hnode] using hgroup) (closeFrame_ok hclose)⟩
  · cases h

theorem bindCanonical_ok {canonical : String} {function : EntityId} {u : Unit}
    (h : bindCanonical canonical function s = .ok u s') : s.bindNew canonical function = s' := by
  unfold bindCanonical at h
  rw [get_bind] at h
  rcases ite_ok.1 h with ⟨hnew, h⟩ | ⟨hold, h⟩
  · cases h
    rw [State.bindNew, if_pos hnew]
    rfl
  · obtain ⟨_, rfl⟩ := pure_ok.1 h
    rw [State.bindNew, if_neg hold]

theorem bindBody_ok {name : Token} {function : EntityId} {body : ExprId} {u : Unit}
    (h : bindBody name function body s = .ok u s') :
    ∃ tree, s.tree.bindBody s.tree.currentFrame function body = .ok tree ∧
      { s with tree := tree } = s' := by
  unfold bindBody at h
  rw [get_bind] at h
  cases hbind : s.tree.bindBody s.tree.currentFrame function body with
  | ok tree =>
    simp only [hbind] at h
    cases h
    exact ⟨tree, rfl, rfl⟩
  | error taken =>
    simp only [hbind] at h
    exact absurd h fail_ne_ok

/-- The signature was read before, and its frame is entered again for the body. The name is bound
in the frame around before that. -/
theorem function_reads (hp : p.Faithful) {name : Token} {signature : ExprId} (within : Nat)
    (h : function p name signature s = .ok id s') :
    ∃ binding log, Reads (.function name signature id) s (binding :: log) s' ∧
      binding.within = within := by
  obtain ⟨⟨node, span⟩, hexpr, h⟩ := nodeOf_bind.1 h
  cases node with
  | signature params? result frame =>
    simp only [get_bind] at h
    obtain ⟨params, hparams, h⟩ := known_bind.1 h
    rw [get_bind] at h
    obtain ⟨canonical, hcanonical, h⟩ := known_bind.1 h
    rw [pushEntity_bind, bindName_bind] at h
    obtain ⟨_, _, hbindNew, h⟩ := bind_ok.1 h
    obtain rfl := bindCanonical_ok hbindNew
    obtain ⟨_, s₂, henter, h⟩ := bind_ok.1 h
    rw [beginConstruct_bind] at h
    unfold skipNewlines at h
    rw [skip_bind] at h
    rcases accept?_bind.1 h with ⟨hat, h⟩ | ⟨_, h⟩
    · obtain ⟨body, s₃, hbody, h⟩ := bind_ok.1 h
      rw [endConstruct_bind] at h
      obtain ⟨_, s₄, hclose, h⟩ := bind_ok.1 h
      obtain ⟨_, _, hbind, h⟩ := bind_ok.1 h
      obtain ⟨tree, htree, rfl⟩ := bindBody_ok hbind
      rw [previousSpan_bind] at h
      obtain ⟨rfl, rfl⟩ := push_ok.1 h
      obtain ⟨log, hbody⟩ := scopeBody_reads hp hbody
      exact ⟨⟨s.tree.currentFrame, name.text, s.newEntity, within⟩, _,
        .function hexpr hparams hcanonical rfl (enterFrame_ok.1 henter) hat hbody
          (closeFrame_ok hclose) htree, rfl⟩
    · exact absurd h fail_ne_ok
  | _ => exact absurd h fail_ne_ok

/-! ## Definitions -/

theorem nextDefinition_reads (hp : p.Faithful) {closing : TokenSet} {answer : Option ExprId}
    (h : nextDefinition p closing s = .ok answer s') :
    ∃ log, Reads (.nextDefinition closing answer) s log s' := by
  rcases accept?_bind.1 h with ⟨hat, h⟩ | ⟨hat, h⟩
  · simp only [skipNewlines, skip_bind] at h
    obtain ⟨next, s₁, hstep, h⟩ := bind_ok.1 h
    cases next with
    | none => exact absurd h fail_ne_ok
    | some next =>
      obtain ⟨⟨node, span⟩, hexpr, h⟩ := nodeOf_bind.1 h
      cases node with
      | definition =>
        obtain ⟨rfl, rfl⟩ := pure_ok.1 h
        obtain ⟨log, hread⟩ := hp.step hstep
        exact ⟨log, .nextSome hat hread hexpr rfl⟩
      | _ => exact absurd h fail_ne_ok
  · obtain ⟨rfl, rfl⟩ := pure_ok.1 h
    exact ⟨[], .nextNone hat⟩

theorem declaration_reads (hp : p.Faithful) {name : Token} {op : DefOp} {init : Option ExprId}
    {type : EntityId} {closing : TokenSet} (within : Nat)
    (h : declaration p name op init type closing s = .ok id s') :
    ∃ binding log, Reads (.declaration name op init type closing id) s (binding :: log) s' ∧
      binding.within = within := by
  unfold declaration at h
  rw [install_bind] at h
  obtain ⟨next, s₁, hnext, h⟩ := bind_ok.1 h
  rw [previousSpan_bind] at h
  obtain ⟨rfl, rfl⟩ := push_ok.1 h
  obtain ⟨log, hread⟩ := nextDefinition_reads hp hnext
  refine ⟨⟨s.tree.currentFrame, name.text, s.newEntity, within⟩, log, ?_, rfl⟩
  exact .declaration hread

/-- A type stands between the symbols of a variable, unless they follow each other at once. -/
theorem declaredType_ok {op : DefOp} {symbol : Token} {type : Option EntityId}
    (h : declaredType op symbol s = .ok type s') : DeclaredType op s type s' := by
  cases op with
  | constant =>
    obtain ⟨rfl, rfl⟩ := pure_ok.1 h
    exact .constant
  | «variable» =>
    simp only [declaredType, isAt_bind] at h
    rcases ite_ok.1 h with ⟨hassign, h⟩ | ⟨hassign, h⟩
    · obtain ⟨rfl, rfl⟩ := pure_ok.1 h
      exact .inferred hassign
    · obtain ⟨type, s₁, hname, h⟩ := bind_ok.1 h
      obtain ⟨rfl, rfl⟩ := pure_ok.1 h
      obtain ⟨hnames, rfl⟩ := typeName_ok hname
      exact .named (by simpa using hassign) hnames

theorem initializer_ok {after : Token} {closing : TokenSet}
    (h : initializer p after closing s = .ok id s') :
    p.extend none closing s = .ok (some id) s' := by
  obtain ⟨value, s₁, hvalue, h⟩ := bind_ok.1 h
  cases value with
  | none => exact absurd h fail_ne_ok
  | some value =>
    obtain ⟨rfl, rfl⟩ := pure_ok.1 h
    exact hvalue

theorem initialValue_reads (hp : p.Faithful) {op : DefOp} {symbol : Token} {closing : TokenSet}
    {answer : Option ExprId} (h : initialValue p op symbol closing s = .ok answer s') :
    ∃ log, Reads (.initialValue op symbol closing answer) s log s' := by
  cases op with
  | constant =>
    obtain ⟨value, s₁, hvalue, h⟩ := bind_ok.1 h
    obtain ⟨rfl, rfl⟩ := pure_ok.1 h
    obtain ⟨log, hread⟩ := hp.extend (initializer_ok hvalue)
    exact ⟨log, .initialConstant hread⟩
  | «variable» =>
    rcases accept?_bind.1 h with ⟨hat, h⟩ | ⟨hat, h⟩
    · obtain ⟨value, s₁, hvalue, h⟩ := bind_ok.1 h
      obtain ⟨rfl, rfl⟩ := pure_ok.1 h
      obtain ⟨log, hread⟩ := hp.extend (initializer_ok hvalue)
      exact ⟨log, .initialSome hat hread⟩
    · obtain ⟨rfl, rfl⟩ := pure_ok.1 h
      exact ⟨[], .initialNone hat⟩

/-- The type of a variable is the declared one, which the value must convert to, or else that of
the value. -/
theorem definedType_ok {name symbol : Token} {type : Option EntityId} {init : Option ExprId}
    {defined : EntityId} (h : definedType name symbol type init s = .ok defined s') :
    DefinedType s.tree type init defined ∧ s = s' := by
  cases type with
  | none =>
    cases init with
    | none => exact absurd h fail_ne_ok
    | some init =>
      have hreturned : returnedType (some init) s = .ok defined s' := h
      obtain ⟨htype, rfl⟩ := returnedType_ok hreturned
      exact ⟨.inferred htype, rfl⟩
  | some type =>
    cases init with
    | none =>
      obtain ⟨rfl, rfl⟩ := pure_ok.1 h
      exact ⟨.declared, rfl⟩
    | some init =>
      obtain ⟨source, hsource, h⟩ := typeOf_bind.1 h
      rcases converts_ite h with ⟨hconverts, h⟩ | h
      · obtain ⟨rfl, rfl⟩ := pure_ok.1 h
        exact ⟨.checked hsource hconverts, rfl⟩
      · obtain ⟨_, _, h⟩ := typeNameOf_bind.1 h
        obtain ⟨_, _, h⟩ := typeNameOf_bind.1 h
        exact absurd h fail_ne_ok

theorem someNodeOf_bind {α : Type} {f : Option Node → Parse α} {b : α}
    (h : ((some <$> nodeOf id) >>= f) s = .ok b s') :
    ∃ e, s.tree.expr? id = some e ∧ f (some e.node) s = .ok b s' := by
  obtain ⟨node, s₁, hnode, h⟩ := bind_ok.1 h
  rw [map_eq_pure_bind] at hnode
  obtain ⟨e, hexpr, hnode⟩ := nodeOf_bind.1 hnode
  obtain ⟨rfl, rfl⟩ := pure_ok.1 hnode
  exact ⟨e, hexpr, h⟩

theorem typedef_reads {name : Token} {op : DefOp} {body : ExprId} (within : Nat)
    (h : typedef name op body s = .ok id s') :
    ∃ binding log, Reads (.typedef name op body id) s (binding :: log) s' ∧
      binding.within = within := by
  obtain ⟨⟨node, span⟩, hexpr, h⟩ := nodeOf_bind.1 h
  cases node with
  | record form members frame =>
    simp only [install_bind] at h
    obtain ⟨e, hspan, h⟩ := spanOf_bind.1 h
    obtain rfl : _ = e := Option.some.inj (hexpr.symm.trans hspan)
    obtain ⟨rfl, rfl⟩ := push_ok.1 h
    exact ⟨⟨s.tree.currentFrame, name.text, s.newEntity, within⟩, [], .typedef hexpr, rfl⟩
  | _ => exact absurd h fail_ne_ok

/-- The three rules for definitions, by the node of the value: a signature makes a function, a
record makes a type, and any other value, or none, a variable. -/
theorem definition_reads (hp : p.Faithful) {name symbol : Token} {closing : TokenSet}
    (h : definition p name symbol closing s = .ok id s') :
    ∃ log, Reads (.definition name symbol closing id) s log s' := by
  unfold definition at h
  rw [get_bind] at h
  rcases ite_ok.1 h with ⟨_, h⟩ | ⟨hnew, h⟩
  · exact absurd h fail_ne_ok
  have hnew : s.tree.findLocal? name.text = none := by simpa using hnew
  obtain ⟨type, s₁, htype, h⟩ := bind_ok.1 h
  obtain ⟨init, s₂, hinit, h⟩ := bind_ok.1 h
  obtain ⟨log, hread⟩ := initialValue_reads hp hinit
  have htype := declaredType_ok htype
  cases init with
  | none =>
    obtain ⟨_, _, hnode, h⟩ := bind_ok.1 h
    obtain ⟨rfl, rfl⟩ := pure_ok.1 hnode
    obtain ⟨defined, _, htyped, h⟩ := bind_ok.1 h
    obtain ⟨hdefined, rfl⟩ := definedType_ok htyped
    obtain ⟨binding, log', hdeclaration, hwithin⟩ := declaration_reads hp log.length h
    exact ⟨_, .definitionVariable hnew rfl htype hread nofun hdefined hdeclaration hwithin⟩
  | some i =>
    obtain ⟨⟨node, span⟩, hexpr, h⟩ := someNodeOf_bind h
    cases node with
    | signature =>
      obtain ⟨binding, log', hfunction, hwithin⟩ := function_reads hp log.length h
      exact ⟨_, .definitionFunction hnew rfl htype hread hexpr ⟨_, _, _, rfl⟩ hfunction hwithin⟩
    | record =>
      obtain ⟨binding, log', htypedef, hwithin⟩ := typedef_reads log.length h
      exact ⟨_, .definitionRecord hnew rfl htype hread hexpr ⟨_, _, _, rfl⟩ htypedef hwithin⟩
    | _ =>
      obtain ⟨defined, _, htyped, h⟩ := bind_ok.1 h
      obtain ⟨hdefined, rfl⟩ := definedType_ok htyped
      obtain ⟨binding, log', hdeclaration, hwithin⟩ := declaration_reads hp log.length h
      refine ⟨_, .definitionVariable hnew rfl htype hread ?_ hdefined hdeclaration hwithin⟩
      rintro _ ⟨⟩
      exact ⟨_, hexpr, nofun, nofun⟩

theorem nameOrDefinition_reads (hp : p.Faithful) {name : Token} {closing : TokenSet}
    (h : nameOrDefinition p name closing s = .ok id s') :
    ∃ log, Reads (.nameOrDefinition name closing id) s log s' := by
  rcases accept?_bind.1 h with ⟨hat, h⟩ | ⟨hat, h⟩
  · obtain ⟨log, hread⟩ := definition_reads hp h
    exact ⟨log, .nameDefinition hat hread⟩
  · obtain ⟨log, hread⟩ := nameUse_reads h
    exact ⟨log, .nameAlone hat hread⟩

/-! ## Records -/

/-- By induction on the members: all of them may be held by the record. -/
theorem checkMembers_ok {form : RecordForm} {body : List ExprId} {u : Unit}
    (h : checkMembers form body s = .ok u s') :
    (∀ member ∈ body, ∃ e, s.tree.expr? member = some e ∧ mayHold form e.node = true) ∧
      s = s' := by
  induction body with
  | nil =>
    obtain ⟨_, rfl⟩ := pure_ok.1 h
    exact ⟨nofun, rfl⟩
  | cons member rest ih =>
    obtain ⟨e, hexpr, h⟩ := nodeOf_bind.1 h
    rcases ite_ok.1 h with ⟨_, h⟩ | ⟨hheld, h⟩
    · obtain ⟨_, _, h⟩ := spanOf_bind.1 h
      exact absurd h fail_ne_ok
    · obtain ⟨hrest, rfl⟩ := ih h
      refine ⟨?_, rfl⟩
      rintro m (_ | ⟨_, hm⟩)
      · exact ⟨e, hexpr, by simpa using hheld⟩
      · exact hrest m hm

theorem record_reads (hp : p.Faithful) {keyword : Token} (h : record p keyword s = .ok id s') :
    ∃ log, Reads (.record keyword id) s log s' := by
  unfold record skipNewlines at h
  rw [skip_bind] at h
  rcases accept?_bind.1 h with ⟨hat, h⟩ | ⟨_, h⟩
  · obtain ⟨frame, s₁, hopen, h⟩ := bind_ok.1 h
    rw [beginConstruct_bind] at h
    obtain ⟨body, s₂, hbody, h⟩ := bind_ok.1 h
    obtain ⟨_, _, hcheck, h⟩ := bind_ok.1 h
    obtain ⟨hmembers, rfl⟩ := checkMembers_ok hcheck
    rw [endConstruct_bind] at h
    obtain ⟨_, s₃, hclose, h⟩ := bind_ok.1 h
    rw [previousSpan_bind] at h
    obtain ⟨rfl, rfl⟩ := push_ok.1 h
    obtain ⟨log, hread⟩ := hp.sequence hbody
    exact ⟨log, .record hat (openFrame_ok.1 hopen) hread hmembers (closeFrame_ok hclose)⟩
  · cases h

/-- The name after the dot is looked up in the frame of the record and in none around it. -/
theorem member_reads {base : ExprId} {dot : Token} (h : member base dot s = .ok id s') :
    ∃ log, Reads (.member base dot id) s log s' := by
  rcases accept?_bind.1 h with ⟨hat, h⟩ | ⟨_, h⟩
  · obtain ⟨type, htype, h⟩ := typeOf_bind.1 h
    obtain ⟨e, hentity, h⟩ := entityOf_bind.1 h
    cases hrecord : e.recordFrame? with
    | none =>
      simp only [hrecord] at h
      obtain ⟨_, _, h⟩ := typeNameOf_bind.1 h
      exact absurd h fail_ne_ok
    | some frame =>
      simp only [hrecord] at h
      obtain ⟨fr, hframe, h⟩ := frameOf_bind.1 h
      cases hfind : fr.find? s.cursor.current.text with
      | none =>
        simp only [hfind] at h
        obtain ⟨_, _, h⟩ := typeNameOf_bind.1 h
        exact absurd h fail_ne_ok
      | some entity =>
        simp only [hfind] at h
        obtain ⟨x, hexpr, h⟩ := spanOf_bind.1 h
        obtain ⟨rfl, rfl⟩ := push_ok.1 h
        exact ⟨[], .member hat htype hentity hrecord hframe hfind hexpr⟩
  · cases h

end OnePass.Grammar

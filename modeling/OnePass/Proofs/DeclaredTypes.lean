import OnePass.Proofs.Answers
import OnePass.Proofs.Written

/-!
# Declared types

A definition may declare a type before its value. Where a variable is defined, the declared type
is the type of the variable and the value converts into it, whatever expression the value is; a
value that does not convert is refused with a type error (`definition_refuses`). Which type was
declared is looked up in the reading of the definition (`DeclaredAs`).

A signature and a record as the value make the definition that of a function and of a record,
and then nothing asks for the declared type (`function_ignores_declared_type`).
-/

namespace OnePass.Grammar

variable {p : Productions} {s s₁ s₂ s' : State} {t t' : Tree} {id : ExprId} {entity type : EntityId}
  {declared : Option EntityId} {tokens : TokenList} {name symbol : Token} {closing : TokenSet}

/-! ## The declared type of a definition -/

/-- The definition was read among the tokens, with this declared type or with none. -/
inductive DeclaredAs (tokens : TokenList) (t : Tree) (id : ExprId) (declared : Option EntityId) :
    Prop where
  | read {name symbol : Token} {closing : TokenSet} {s s₁ s' : State} {log : List Binding}
      (hread : Reads (.definition name symbol closing id) s log s')
      (htype : DeclaredType (if symbol.kind = .declare then .constant else .variable) s declared s₁)
      (hs : s.tree.Sound) (htokens : s.cursor.tokens = tokens) (hevolves : s'.tree.Evolves t) :
      DeclaredAs tokens t id declared

/-- What stands after the symbol declares one type or none. -/
theorem DeclaredType.unique {op : DefOp} {declared' : Option EntityId}
    (h : DeclaredType op s declared s₁) (h' : DeclaredType op s declared' s₂) :
    declared = declared' := by
  cases h with
  | constant =>
    cases h'
    rfl
  | inferred hassign =>
    cases h' with
    | inferred => rfl
    | named hassign' => cases hassign.symm.trans hassign'
  | named hassign hnames =>
    cases h' with
    | inferred hassign' => cases hassign.symm.trans hassign'
    | named _ hnames' => exact congrArg some (Option.some.inj (hnames.find.symm.trans hnames'.find))

theorem Reads.declaredType {log : List Binding}
    (h : Reads (.definition name symbol closing id) s log s') : ∃ declared s₁,
      DeclaredType (if symbol.kind = .declare then .constant else .variable) s declared s₁ := by
  cases h with
  | definitionFunction _ hop htype | definitionRecord _ hop htype
  | definitionVariable _ hop htype => exact ⟨_, _, hop ▸ htype⟩

theorem Written.declaredAs (h : Written tokens t id) :
    ∃ declared, DeclaredAs tokens t id declared := by
  cases h with
  | read hread hs htokens hevolves =>
    obtain ⟨declared, _, htype⟩ := hread.declaredType
    exact ⟨declared, .read hread htype hs htokens hevolves⟩

/-! ## Variables -/

/-- The entity converts into its own type. -/
theorem converts_entityType (htype : t.entityType? entity = some type) (histype : t.IsType type) :
    Converts t entity type := by
  refine ⟨.same, ?_, rfl⟩
  unfold Tree.cast?
  rw [Tree.castWithin?_succ, htype, histype.entityType?, Option.bind_some, Option.bind_some,
    if_pos rfl]

/-- A variable is defined with the type that is declared. -/
theorem DefinedType.eq_declared {init : Option ExprId} {defined : EntityId}
    (h : DefinedType t (some type) init defined) : defined = type := by
  cases h <;> rfl

/-- A variable has the type that its definition declares. -/
theorem DeclaredAs.entityType? (h : DeclaredAs tokens t id (some type))
    (hid : t.Defines id entity) : t.entityType? entity = some type ∧ t.IsType type := by
  obtain ⟨defined, op, value, next, span, he⟩ := hid
  cases h with
  | read hread htype hs htokens hevolves =>
    have hgrows := hevolves.toExtends
    cases hread with
    | definitionFunction _ _ _ _ _ _ hfunction =>
      obtain ⟨_, _, hnode⟩ := hfunction.defines_function
      cases he.symm.trans (hgrows.expr hnode)
    | definitionRecord _ _ _ _ _ _ htypedef =>
      obtain ⟨_, hnode⟩ := htypedef.defines_record
      cases he.symm.trans (hgrows.expr hnode)
    | definitionVariable _ hop htype' hinit _ hdefined hdeclaration =>
      subst hop
      obtain rfl := htype.unique htype'
      obtain rfl := hdefined.eq_declared
      obtain ⟨_, _, hnode, hentity⟩ := hdeclaration.declares
      cases he.symm.trans (hgrows.expr hnode)
      refine ⟨?_, htype'.isType.mono ((hinit.extends.trans hdeclaration.extends).trans hgrows)⟩
      unfold Tree.entityType?
      rw [hgrows.entity hentity]
      rfl

/-- What a definition of a variable promises of the declared type. -/
structure Keeps (t : Tree) (id : ExprId) (entity type : EntityId) : Prop where
  entityType : t.entityType? entity = some type
  converts : Converts t entity type
  value : ∀ value, t.HasValue id value → t.Fills value type

theorem DeclaredAs.keeps (h : DeclaredAs tokens t id (some type)) (hid : t.Defines id entity)
    (ht : t.Sound) : Keeps t id entity type := by
  obtain ⟨htype, histype⟩ := h.entityType? hid
  refine ⟨htype, converts_entityType htype histype, ?_⟩
  intro value hvalue
  obtain ⟨_, _, _, _, _, he⟩ := hid
  obtain ⟨_, _, _, _, _, he'⟩ := hvalue
  cases he.symm.trans he'
  obtain ⟨x, found, start, stop, hx, hkind, hfills⟩ := (ht.node he).typed
  have hfound : t.entityType? entity = some found := by
    unfold Tree.entityType?
    rw [hx, Option.bind_eq_bind, Option.bind_some, hkind]
    rfl
  obtain rfl := Option.some.inj (htype.symm.trans hfound)
  exact hfills

/-! ## Values that do not convert -/

theorem someNodeOf_eq {α : Type} {e : Expr} (h : s.tree.expr? id = some e)
    {f : Option Node → Parse α} : ((some <$> nodeOf id) >>= f) s = f (some e.node) s := by
  rw [bind_run, map_eq_pure_bind, nodeOf_eq h]
  rfl

/-- A value that does not convert into the declared type is refused. -/
theorem definedType_refuses (name symbol : Token) {value : ExprId} (hs : s.tree.Sound)
    (htype : s.tree.IsType type) (hvalue : s.tree.HasExpr value)
    (hconverts : ¬s.tree.Fills value type) :
    ∃ target source, s.tree.typeName? type = some target ∧
      (s.tree.exprType? value).bind s.tree.typeName? = some source ∧
      definedType name symbol (some type) (some value) s =
        .error ⟨.initializer name.text target source, some symbol.span⟩ s := by
  obtain ⟨source, hsource, hsourceType⟩ := hs.exprType? hvalue
  obtain ⟨cast, hcast⟩ := hs.cast? hsourceType.hasEntity htype.hasEntity
  obtain ⟨sourceName, hsourceName⟩ := hs.typeName? hsourceType.hasEntity
  obtain ⟨targetName, htargetName⟩ := hs.typeName? htype.hasEntity
  have himplicit : cast.isImplicit ≠ true := fun h => hconverts ⟨source, hsource, cast, hcast, h⟩
  refine ⟨targetName, sourceName, htargetName, by rw [hsource]; exact hsourceName, ?_⟩
  unfold definedType
  simp only [typeOf_eq hsource, converts_eq hcast]
  rw [if_neg himplicit, typeNameOf_eq htargetName, typeNameOf_eq hsourceName]
  rfl

/-- So is the definition, if its value is no signature and no record. -/
theorem definition_refuses {value : ExprId} {e : Expr} (hp : p.Faithful) (hs : s.tree.Sound)
    (hsymbol : symbol.kind ≠ .declare) (hnew : s.tree.findLocal? name.text = none)
    (htype : declaredType .variable symbol s = .ok (some type) s₁)
    (hvalue : initialValue p .variable symbol (closing ∪ {.comma}) s₁ = .ok (some value) s₂)
    (he : s₂.tree.expr? value = some e) (hnode : e.node.ownFrame? = none)
    (hconverts : ¬s₂.tree.Fills value type) :
    ∃ target source, s₂.tree.typeName? type = some target ∧
      (s₂.tree.exprType? value).bind s₂.tree.typeName? = some source ∧
      definition p name symbol closing s =
        .error ⟨.initializer name.text target source, some symbol.span⟩ s₂ := by
  have hdeclared := declaredType_ok htype
  obtain ⟨log, hread⟩ := initialValue_reads hp hvalue
  have hs₁ : s₁.tree.Sound := hdeclared.tree.symm ▸ hs
  have htype₂ := hdeclared.isType.mono hread.extends
  obtain ⟨target, source, htarget, hsource, hrefused⟩ := definedType_refuses name symbol
    (hread.sound hs₁ True.intro) htype₂ (Tree.hasExpr_iff.2 ⟨e, he⟩) hconverts
  refine ⟨target, source, htarget, hsource, ?_⟩
  unfold definition
  rw [get_bind, if_neg (by simp [hnew])]
  simp only [if_neg hsymbol]
  refine (bind_eq htype).trans ((bind_eq hvalue).trans ((someNodeOf_eq he).trans ?_))
  -- what is no signature and no record is compared with the declared type
  cases hcase : e.node with
  | signature | record => cases (congrArg Node.ownFrame? hcase).symm.trans hnode
  | _ => exact bind_error hrefused

/-! ## Sources that begin with a definition -/

/-- Reads a definition after its name and symbol, and the rest of its source. -/
def definitionAndRest (n : Nat) (name symbol : Token) : Parse (ExprId × List ExprId) := do
  let id ← definition (level n) name symbol (separators ∪ {.eof})
  let body ← (level n).sequence #[id] {.eof}
  return (id, body)

theorem DeclaredAs.of_run {n : Nat} {op : DefOp} {body : List ExprId} (hs : s.tree.Sound)
    (htokens : s.cursor.tokens = tokens)
    (hop : op = if symbol.kind = .declare then .constant else .variable)
    (htype : declaredType op symbol s = .ok declared s₁)
    (hrun : definitionAndRest n name symbol s = .ok (id, body) s')
    (hevolves : s'.tree.Evolves t) : DeclaredAs tokens t id declared := by
  subst hop
  obtain ⟨id', s₂, hdefinition, hrest⟩ := bind_ok.1 hrun
  obtain ⟨body', s₃, hsequence, hanswer⟩ := bind_ok.1 hrest
  obtain ⟨heq, rfl⟩ := pure_ok.1 hanswer
  cases heq
  obtain ⟨log, hread⟩ := definition_reads (faithful_level n) hdefinition
  obtain ⟨log', hread'⟩ := (faithful_level n).sequence hsequence
  exact .read hread (declaredType_ok htype) hs htokens
    ((hread'.evolves (hread.sound hs True.intro)).trans hevolves)

/-- Whether a source is accepted and begins with the definition of a variable that declares a
type and passes a check. -/
def declaresFirst (source : String) (type : EntityId) (check : Tree → ExprId → Bool) : Bool :=
  match Lexicon.tokenize source.toList with
  | .error _ => false
  | .ok tokens =>
    let s := State.initial tokens
    let symbol := s.next.cursor.current
    match declaredType .variable symbol s.next.next,
      definitionAndRest (fuel tokens.size) s.cursor.current symbol s.next.next with
    | .ok declared _, .ok (id, body) s' =>
      let tree := (s'.finished s.cursor.current.span body).tree
      symbol.kind ≠ .declare && declared = some type && (parse tokens).toOption = some tree &&
        check tree id
    | _, _ => false

theorem finished_evolves (s : State) (start : Span) (body : List ExprId) :
    s.tree.Evolves (s.finished start body).tree :=
  (Tree.pushExpr_evolves _ _).trans (setMainScope_evolves _)

theorem exists_declaredAs (source : String) (type : EntityId) (check : Tree → ExprId → Bool)
    (h : declaresFirst source type check = true) : ∃ tokens tree id,
      Lexicon.tokenize source.toList = .ok tokens ∧ parseSource source = .ok tree ∧
        DeclaredAs tokens tree id (some type) ∧ check tree id = true := by
  unfold declaresFirst at h
  cases htokens : Lexicon.tokenize source.toList with
  | error => simp [htokens] at h
  | ok tokens =>
    simp only [htokens] at h
    split at h
    · rename_i declared s₁ id body s' htype hrun
      simp only [Bool.and_eq_true, decide_eq_true_eq] at h
      obtain ⟨⟨⟨hsymbol, rfl⟩, hparse⟩, hcheck⟩ := h
      have hparse' : parse tokens = .ok
          (s'.finished (State.initial tokens).cursor.current.span body).tree := by
        cases hresult : parse tokens with
        | error => cases (congrArg Except.toOption hresult).symm.trans hparse
        | ok tree =>
          exact congrArg Except.ok (Option.some.inj ((congrArg _ hresult).symm.trans hparse))
      refine ⟨tokens, _, id, rfl, ?_, ?_, hcheck⟩
      · unfold parseSource
        rw [htokens]
        exact hparse'
      · have htokens' : (State.initial tokens).next.next.cursor.tokens = tokens :=
          (Step.forward .next).tokens.trans (Step.forward .next).tokens
        exact .of_run Tree.sound_withBuiltins htokens' (if_neg hsymbol).symm htype hrun
          (finished_evolves s' _ _)
    · cases h

/-! ## Whole sources -/

/-- Declared types are enforced on values. Every definition of an accepted source was read with
a declared type or with none, and where it is that of a variable, the variable has the declared
type and the value converts into it. A value that does not convert, and is no signature and no
record, is refused with a type error. -/
theorem declared_types_enforced_on_values (source : String) :
    (∀ tokens tree, Lexicon.tokenize source.toList = .ok tokens → parseSource source = .ok tree →
      (∀ id d, tree.defined? id = some d → ∃ declared, DeclaredAs tokens tree id declared) ∧
      ∀ id entity type, tree.Defines id entity → DeclaredAs tokens tree id (some type) →
        Keeps tree id entity type) ∧
    ∀ (n : Nat) (name symbol : Token) (closing : TokenSet) (s s₁ s₂ : State) (type : EntityId)
      (value : ExprId) (e : Expr), s.tree.Sound → symbol.kind ≠ .declare →
      s.tree.findLocal? name.text = none → declaredType .variable symbol s = .ok (some type) s₁ →
      initialValue (level n) .variable symbol (closing ∪ {.comma}) s₁ = .ok (some value) s₂ →
      s₂.tree.expr? value = some e → e.node.ownFrame? = none → ¬s₂.tree.Fills value type →
      ∃ target source, s₂.tree.typeName? type = some target ∧
        (s₂.tree.exprType? value).bind s₂.tree.typeName? = some source ∧
        definition (level n) name symbol closing s =
          .error ⟨.initializer name.text target source, some symbol.span⟩ s₂ ∧
        (Cause.initializer name.text target source).kind = .typing := by
  constructor
  · intro tokens tree htokens h
    obtain ⟨tokens', htokens', hparse⟩ := parseSource_ok h
    obtain rfl := Except.ok.inj (htokens.symm.trans htokens')
    constructor
    · intro id d hd
      exact (written_of_parse hparse hd).declaredAs
    · intro id entity type hid hdeclared
      exact hdeclared.keeps hid (sound_of_parse hparse)
  · intro n name symbol closing s s₁ s₂ type value e hs hsymbol hnew htype hvalue he hnode hconverts
    obtain ⟨target, source, htarget, hsource, hrefused⟩ :=
      definition_refuses (faithful_level n) hs hsymbol hnew htype hvalue he hnode hconverts
    exact ⟨target, source, htarget, hsource, hrefused, rfl⟩

/-- The type that a definition declares is ignored if the value is a signature: a function is
defined, which does not convert into that type. -/
theorem function_ignores_declared_type :
    ¬∀ (source : String) (tokens : TokenList) (tree : Tree),
      Lexicon.tokenize source.toList = .ok tokens → parseSource source = .ok tree →
      ∀ (id : ExprId) (name : String) (entity type : EntityId),
        tree.defined? id = some (name, entity) → DeclaredAs tokens tree id (some type) →
        Converts tree entity type := by
  intro h
  obtain ⟨tokens, tree, id, htokens, htree, hdeclared, hcheck⟩ :=
    exists_declaredAs "f : s32 = () \x7b \x7d\n" Builtin.s32.handle
      (fun tree id => tree.defined? id = some ("f", ⟨16⟩) &&
        tree.cast? ⟨16⟩ Builtin.s32.handle = some .impossible) (by decide +kernel)
  simp only [Bool.and_eq_true, decide_eq_true_eq] at hcheck
  obtain ⟨cast, hcast, himplicit⟩ := h _ tokens tree htokens htree id _ _ _ hcheck.1 hdeclared
  cases hcast.symm.trans hcheck.2
  cases himplicit

/-- After the name and the symbol of a definition that gives a float the value of a character. -/
def beforeType : State where
  cursor :=
    ⟨{ body := #[⟨.name, "n", default⟩, ⟨.define, ":", default⟩, ⟨.name, "f32", default⟩,
        ⟨.assign, "=", default⟩, ⟨.character, "'a'", default⟩]
       last := ⟨.eof, "", default⟩ }, 2⟩
  tree := .withBuiltins
  constructs := []

/-- A number defined as such is one, and a character as a float is refused. -/
theorem declared_types_enforced_on_values_number :
    (∃ tokens tree id, parseSource "n : s32 = 1\n" = .ok tree ∧
      DeclaredAs tokens tree id (some Builtin.s32.handle) ∧
      Keeps tree id ⟨16⟩ Builtin.s32.handle) ∧
    ∃ target source s', definition (level 3) ⟨.name, "n", default⟩ ⟨.define, ":", default⟩ {.eof}
      beforeType = .error ⟨.initializer "n" target source, some default⟩ s' := by
  constructor
  · obtain ⟨tokens, tree, id, htokens, htree, hdeclared, hcheck⟩ :=
      exists_declaredAs "n : s32 = 1\n" Builtin.s32.handle
        (fun tree id => (tree.expr? id).any fun e =>
          isDefinition e.node && e.node.defined? = some ("n", ⟨16⟩)) (by decide +kernel)
    obtain ⟨e, he, hcheck⟩ := (Option.any_eq_true _ _).1 hcheck
    simp only [Bool.and_eq_true, decide_eq_true_eq] at hcheck
    have hdefines := Tree.defines_of_isDefinition he hcheck.1 hcheck.2
    have hkeeps := ((declared_types_enforced_on_values _).1 tokens tree htokens htree).2
    exact ⟨tokens, tree, id, htree, hdeclared, hkeeps id _ _ hdefines hdeclared⟩
  · have hrun : passes (declaredType .variable ⟨.define, ":", default⟩ beforeType)
        (fun declared s₁ => declared.any fun type =>
          passes (initialValue (level 3) .variable ⟨.define, ":", default⟩
            ({.eof} ∪ {.comma}) s₁) fun init s₂ => init.any fun value =>
              (s₂.tree.expr? value).any fun e => e.node.ownFrame? = none &&
                (s₂.tree.exprType? value).bind (s₂.tree.cast? · type) = some .reread) = true := by
      decide +kernel
    obtain ⟨declared, s₁, htype, hrun'⟩ := exists_of_passes hrun
    obtain ⟨type, rfl, hinit⟩ := (Option.any_eq_true _ _).1 hrun'
    obtain ⟨init, s₂, hvalue, hinit'⟩ := exists_of_passes hinit
    obtain ⟨value, rfl, hexpr⟩ := (Option.any_eq_true _ _).1 hinit'
    obtain ⟨e, he, hcheck⟩ := (Option.any_eq_true _ _).1 hexpr
    obtain ⟨hown, hcast⟩ := Bool.and_eq_true_iff.1 hcheck
    obtain ⟨source, hsource, hcast⟩ := Option.bind_eq_some_iff.1 (of_decide_eq_true hcast)
    have hconverts : ¬s₂.tree.Fills value type := by
      rintro ⟨found, hfound, cast, hcast', himplicit⟩
      obtain rfl := Option.some.inj (hsource.symm.trans hfound)
      cases hcast.symm.trans hcast'
      cases himplicit
    obtain ⟨target, source, _, _, hrefused, _⟩ := (declared_types_enforced_on_values "").2 3
      ⟨.name, "n", default⟩ _ _ beforeType s₁ s₂ type value e Tree.sound_withBuiltins
      (by decide) (by decide +kernel) htype hvalue he (of_decide_eq_true hown) hconverts
    exact ⟨target, source, s₂, hrefused⟩

end OnePass.Grammar

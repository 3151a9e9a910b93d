import OnePass.Proofs.Building
import OnePass.Proofs.Respacing
import OnePass.Proofs.Turns

/-!
# Sources that define one variable

A name, the symbol of a variable, an equality sign and a value that reaches up to the end of the
source. `scans_definition` cuts such a source into its tokens, and `parse_definition` follows its
reading around the value: if the value is read (`ReadsValue`), the source is accepted, and at its
top stands the definition of a variable by what was read, with the type of that. What the value is
and how it is read does not matter here.
-/

namespace OnePass

open Text (byteLength)

/-! ## Tokens -/

namespace Lexicon

variable {value piece after : List Char} {kind : TokenKind} {found : List Token} {c : Char}

/-- The definition of a variable by a value that begins with a word is cut into the tokens before
the value and those of the value. -/
theorem scans_definition (hname : Word [c] .name) (hsize : c.utf8Size = 1)
    (hvalue : Scans [] 5 value found) (hstart : value = piece ++ after) (hword : Word piece kind) :
    Scans [] 0 ([c, ' ', ':', '=', ' '] ++ value)
      (cut .name 0 [c] :: cut .define 2 [':'] :: cut .assign 3 ['='] :: found) := by
  have hcolon : Word [':'] .define := word_of_munch? (by decide +kernel)
  have hequality : Word ['='] .assign := word_of_munch? (by decide +kernel)
  have hblank : Longest (' ' :: value) [' '] .blanks := by
    rw [hstart]
    exact longest_blank hword
  have hgap : Longest (' ' :: ([':'] ++ '=' :: ' ' :: value)) [' '] .blanks := longest_blank hcolon
  have hvalue : Scans [] 4 ([' '] ++ value) found := .gap (by simpa using hblank) (.inl rfl) hvalue
  have hassign : Scans [] 3 (['='] ++ ([' '] ++ value)) (cut .assign 3 ['='] :: found) :=
    .token (by simpa using hequality.longest (.inr ⟨value, rfl⟩)) hvalue
  have hdefine : Scans [] 2 ([':'] ++ (['='] ++ ([' '] ++ value)))
      (cut .define 2 [':'] :: cut .assign 3 ['='] :: found) :=
    .token (by simpa using hcolon.longest_before (d := '=') (by decide +kernel)) hassign
  have hdefinition : Scans [] 1 ([' '] ++ ([':'] ++ (['='] ++ ([' '] ++ value))))
      (cut .define 2 [':'] :: cut .assign 3 ['='] :: found) :=
    .gap (by simpa using hgap) (.inl rfl) hdefine
  have hlongest : Longest ([c] ++ ([' '] ++ ([':'] ++ (['='] ++ ([' '] ++ value)))) ++ []) [c]
      (.token .name) := by
    simpa using hname.longest (.inr ⟨':' :: '=' :: ' ' :: value, rfl⟩)
  refine .token hlongest ?_
  rwa [Text.byteLength_cons, hsize]

end Lexicon

/-! ## Definitions -/

namespace Grammar

variable {p : Productions} {s s₁ : State} {id init : ExprId} {closing : TokenSet}
  {type : EntityId} {name d a : Token} {found : List Token} {m : Nat}

/-- The state after a variable has been defined. -/
def State.defined (s : State) (name : String) (type : EntityId) (init : ExprId) (span : Span) :
    State :=
  (s.install (.var name type)).add (.definition name .variable (some init) s.newEntity none) span

/-- A variable without a declared type, the value of which has been read. -/
theorem definition_eq {e : Expr} (hd : d.kind = .define)
    (hnew : s.tree.findLocal? name.text = none) (hassign : s.cursor.isAt {.assign} = true)
    (hvalue : p.expr (closing ∪ {.comma}) s.next = .ok (some id) s₁)
    (he : s₁.tree.expr? id = some e) (hsignature : ∀ p r f, e.node ≠ .signature p r f)
    (hrecord : ∀ form b f, e.node ≠ .record form b f) (htype : s₁.tree.exprType? id = some type)
    (hcomma : s₁.cursor.isAt {.comma} = false) :
    ∃ span, definition p name d closing s =
      .ok (s₁.install (.var name.text type)).newExpr (s₁.defined name.text type id span) := by
  have haccept : accept? {.assign} s = .ok (some s.cursor.current) s.next := by
    rw [accept?_run, if_pos hassign]
  have hdeclared : declaredType .variable d s = .ok none s := by
    unfold declaredType
    dsimp only
    rw [isAt_bind, if_pos hassign]
    rfl
  have hinitial : initialValue p .variable d (closing ∪ {.comma}) s = .ok (some id) s₁ := by
    unfold initialValue initializer
    dsimp only
    rw [bind_eq haccept]
    dsimp only
    rw [bind_run, bind_eq hvalue]
    rfl
  have hnext : nextDefinition p closing (s₁.install (.var name.text type)) =
      .ok none (s₁.install (.var name.text type)) := by
    have haccept : accept? {.comma} (s₁.install (.var name.text type)) =
        .ok none (s₁.install (.var name.text type)) := by
      rw [accept?_run, if_neg]
      exact Bool.eq_false_iff.1 hcomma
    unfold nextDefinition
    rw [bind_eq haccept]
    rfl
  have hdefined : definedType name d none (some id) s₁ = .ok type s₁ := by
    have hrun : definedType name d none (some id) s₁ = (typeOf id >>= pure) s₁ := by
      rw [bind_pure]
      rfl
    rw [hrun, typeOf_eq htype]
    rfl
  have hdeclaration : ∃ span, declaration p name .variable (some id) type closing s₁ =
      .ok (s₁.install (.var name.text type)).newExpr (s₁.defined name.text type id span) := by
    refine ⟨name.span.merge s₁.cursor.previousSpan, ?_⟩
    unfold declaration
    rw [install_bind, bind_eq hnext, previousSpan_bind]
    exact push_run _ _ _
  obtain ⟨span, hdeclaration⟩ := hdeclaration
  refine ⟨span, ?_⟩
  unfold definition
  rw [get_bind, hnew, if_neg (by simp)]
  dsimp only
  rw [if_neg (by rw [hd]; decide)]
  rw [bind_eq hdeclared, bind_eq hinitial]
  dsimp only
  have hnode : (some <$> nodeOf id : Parse (Option Node)) s₁ = .ok (some e.node) s₁ := by
    rw [map_eq_pure_bind, nodeOf_eq he]
    rfl
  rw [bind_eq hnode]
  obtain ⟨node, place⟩ := e
  cases node with
  | signature => exact absurd rfl (hsignature _ _ _)
  | record => exact absurd rfl (hrecord _ _ _)
  | _ =>
    dsimp only
    rw [bind_eq hdefined]
    exact hdeclaration

/-! ## Values up to the end of the source -/

/-- What closes the value of a definition at the top of a source. -/
def valueEnd : TokenSet := separators ∪ {.eof} ∪ {.comma}

/-- A value of a type has been read, which is neither a signature nor a record, and no token is
left. -/
structure ReadsValue (s : State) (init : ExprId) (type : EntityId) (s₁ : State) : Prop where
  tokens : s₁.cursor.tokens = s.cursor.tokens
  ahead : s₁.cursor.ahead = []
  type : s₁.tree.exprType? init = some type
  value : ∃ e, s₁.tree.expr? init = some e ∧ (∀ p r f, e.node ≠ .signature p r f) ∧
    ∀ form b f, e.node ≠ .record form b f

/-- Where no token is left stands the mark of the end. -/
theorem isAt_of_ahead_nil {c : Cursor} (hahead : c.ahead = []) (hlast : c.tokens.last.kind = .eof)
    (wanted : TokenSet) : c.isAt wanted = wanted.contains .eof := by
  unfold Cursor.isAt
  rw [Cursor.current_of_ahead_nil hahead, hlast]

theorem ahead_next {x : Token} {rest : List Token} (hahead : s.cursor.ahead = x :: rest)
    (hkind : x.kind ≠ .eof) : s.next.cursor.ahead = rest := Cursor.ahead_advance hahead hkind

theorem tokens_next (s : State) : s.next.cursor.tokens = s.cursor.tokens :=
  Cursor.forward_advance.tokens

/-- What is ahead behind the three tokens before a value. -/
theorem ahead_of_definition (hahead : s.cursor.ahead = name :: d :: a :: found)
    (hname : name.kind = .name) (hd : d.kind = .define) (ha : a.kind = .assign) :
    s.next.next.cursor.ahead = a :: found ∧ s.next.next.next.cursor.ahead = found ∧
      s.next.next.next.cursor.tokens = s.cursor.tokens := by
  have hahead₁ := ahead_next hahead (by simp [hname])
  have hahead₂ := ahead_next hahead₁ (by simp [hd])
  exact ⟨hahead₂, ahead_next hahead₂ (by simp [ha]), by simp only [tokens_next]⟩

theorem initial_ahead {tokens : TokenList} (hbody : tokens.body = found.toArray) :
    (State.initial tokens).cursor.ahead = found := by
  show tokens.body.toList.drop 0 = _
  rw [hbody, List.drop_zero]

/-- The state before the value of a source that defines a variable first. -/
theorem exists_before_value {tokens : TokenList}
    (hbody : tokens.body = (name :: d :: a :: found).toArray) (hname : name.kind = .name)
    (hd : d.kind = .define) (ha : a.kind = .assign) :
    ∃ s, (State.initial tokens).next.next.next = s ∧ s.cursor.ahead = found ∧
      s.cursor.tokens = tokens ∧ s.tree = .withBuiltins := by
  obtain ⟨-, hvalue, htokens⟩ := ahead_of_definition (initial_ahead hbody) hname hd ha
  exact ⟨_, rfl, hvalue, htokens, rfl⟩

/-- A sequence that is the definition of a variable by a value. -/
theorem sequence_definition (hahead : s.cursor.ahead = name :: d :: a :: found)
    (hlast : s.cursor.tokens.last.kind = .eof) (hname : name.kind = .name)
    (hd : d.kind = .define) (ha : a.kind = .assign)
    (hnew : s.tree.findLocal? name.text = none)
    (hvalue : (level m).extend none valueEnd s.next.next.next = .ok (some init) s₁)
    (hread : ReadsValue s.next.next.next init type s₁) :
    ∃ span, (level (m + 3)).sequence #[] {.eof} s =
      .ok [(s₁.install (.var name.text type)).newExpr]
        (s₁.defined name.text type init span).next := by
  have hahead₁ := ahead_next hahead (by simp [hname])
  obtain ⟨hahead₂, -⟩ := ahead_of_definition hahead hname hd ha
  have hend : ∀ wanted, s₁.cursor.isAt wanted = wanted.contains .eof := by
    refine isAt_of_ahead_nil hread.ahead ?_
    rw [hread.tokens, tokens_next, tokens_next, tokens_next]
    exact hlast
  have hassign : s.next.next.cursor.isAt {.assign} = true := by
    rw [Cursor.isAt_of_ahead hahead₂, ha]
    decide
  obtain ⟨e, he, hsignature, hrecord⟩ := hread.value
  have hexpr : (level m).expr (separators ∪ {.eof} ∪ {.comma}) s.next.next.next =
      .ok (some init) s₁ := hvalue
  have hcomma : s₁.cursor.isAt {.comma} = false := (hend _).trans (by decide)
  obtain ⟨span, hdefinition⟩ := definition_eq (s := s.next.next) hd hnew hassign hexpr he hsignature
    hrecord hread.type hcomma
  refine ⟨span, ?_⟩
  have hstop (wanted : TokenSet) : (s₁.defined name.text type init span).cursor.isAt wanted =
      wanted.contains .eof := hend wanted
  have haccept : accept? {.declare, .define} s.next = .ok (some d) s.next.next := by
    rw [accept?_run, if_pos, Cursor.current_of_ahead hahead₁]
    rw [Cursor.isAt_of_ahead hahead₁, hd]
    decide
  have hoperand : operand (level m) none name (separators ∪ {.eof}) s.next =
      .ok (s₁.install (.var name.text type)).newExpr (s₁.defined name.text type init span) := by
    unfold operand nameOrDefinition
    rw [hname]
    dsimp only
    rw [bind_eq haccept]
    exact hdefinition
  have hstart : (separators ∪ {.eof}).contains name.kind = false ∧
      operandOnly.contains name.kind = true := by
    rw [hname]
    decide
  have hitem : (level (m + 1 + 1)).expr (separators ∪ {.eof}) s =
      .ok (some (s₁.install (.var name.text type)).newExpr)
        (s₁.defined name.text type init span) := by
    show (level (m + 2)).extend none _ s = _
    rw [extend_operand hahead hstart.1 hstart.2, bind_eq hoperand]
    exact extendTurn_closing ((hstop _).trans (by decide))
  exact sequence_single ((Cursor.isAt_of_ahead hahead).trans hstart.1)
    (Cursor.atEnd_of_ahead hahead (by simp [hname])) hitem ((hstop _).trans (by decide))
    ((hstop _).trans (by decide))

/-- The tokens of the definition of a variable by a value, with the end of the source behind
them. -/
theorem parse_definition {tokens : TokenList}
    (hbody : tokens.body = (name :: d :: a :: found).toArray) (hlast : tokens.last.kind = .eof)
    (hname : name.kind = .name) (hd : d.kind = .define) (ha : a.kind = .assign)
    (hnew : Tree.withBuiltins.findLocal? name.text = none) (hfuel : fuel tokens.size = m + 3)
    (hbefore : (State.initial tokens).next.next.next = s)
    (hvalue : (level m).extend none valueEnd s = .ok (some init) s₁)
    (hread : ReadsValue s init type s₁) :
    ∃ t id entity span place, parse tokens = .ok t ∧ t.topLevel = [id] ∧
      t.expr? id = some ⟨.definition name.text .variable (some init) entity none, span⟩ ∧
      t.entity? entity = some (.var name.text type) ∧ s₁.tree.Extends t ∧
      t.exprs = (s₁.tree.exprs.push
        ⟨.definition name.text .variable (some init) entity none, span⟩).push
        ⟨.scope [id] Tree.mainFrame, place⟩ := by
  subst hbefore
  obtain ⟨span, hsequence⟩ :=
    sequence_definition (initial_ahead hbody) hlast hname hd ha hnew hvalue hread
  rw [← hfuel] at hsequence
  obtain ⟨place, hparse⟩ := parse_of_sequence hsequence
  -- the main scope is made behind the definition, and that behind the entity
  have hdefined := (Tree.pushExpr_extends (s₁.defined name.text type init span).tree
    ⟨.scope [(s₁.install (.var name.text type)).newExpr] Tree.mainFrame, place⟩).trans
      (setMainScope_evolves (some (s₁.defined name.text type init span).newExpr)).toExtends
  have hinstall := (Tree.pushExpr_extends (s₁.install (.var name.text type)).tree
    ⟨.definition name.text .variable (some init) s₁.newEntity none, span⟩).trans hdefined
  have hinstalled : s₁.tree.Extends (s₁.install (.var name.text type)).tree :=
    (Trail.after .addEntity (.single (@Step.bind _ _ _ 0))).extends
  refine ⟨_, _, s₁.newEntity, span, place, hparse, ?_, hdefined.expr (expr?_newExpr _ _ _),
    hinstall.entity ?_, hinstalled.trans hinstall, rfl⟩
  · exact topLevel_eq rfl ((Tree.expr?_congr rfl _).trans (Tree.expr?_pushExpr_new _ _))
  · exact (s₁.tree.entity?_pushEntity _ s₁.newEntity).trans (if_pos rfl)

end Grammar

end OnePass

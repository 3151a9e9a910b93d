import OnePass.Proofs.Definitions

/-!
# Runs are phrases

One turn around the circles makes the productions of the next level faithful
(`faithful_level`). Hence every production of every level that answers does so along the rules
of `Reads` (`Phrase.Ran.reads`), and so does the reading of a whole source.
-/

namespace OnePass.Grammar

variable {p : Productions} {s s' : State} {id : ExprId}

/-! ## One turn around the circles -/

/-- What an operand is read as. -/
theorem operand_begins {left : Option ExprId} {token : Token} {closing : TokenSet}
    (h : operand p left token closing s = .ok id s') :
    ∃ φ : Phrase, Begins token closing id left φ ∧ φ.Ran p s s' := by
  unfold operand at h
  generalize hkind : token.kind = kind at h
  cases kind with
  | name => exact ⟨_, .name hkind, h⟩
  | decimal => exact ⟨_, .literal (by rw [hkind]; decide), integer, by simp, h⟩
  | binary => exact ⟨_, .literal (by rw [hkind]; decide), integer, by simp, h⟩
  | hexadecimal => exact ⟨_, .literal (by rw [hkind]; decide), integer, by simp, h⟩
  | float => exact ⟨_, .literal (by rw [hkind]; decide), float, by simp, h⟩
  | character => exact ⟨_, .literal (by rw [hkind]; decide), character, by simp, h⟩
  | text => exact ⟨_, .literal (by rw [hkind]; decide), textLiteral, by simp, h⟩
  | ifWord => exact ⟨_, .branch hkind, h⟩
  | forWord => exact ⟨_, .loop hkind, h⟩
  | returnWord => exact ⟨_, .returns hkind, h⟩
  | structWord => exact ⟨_, .record (.inl hkind), h⟩
  | enumWord => exact ⟨_, .record (.inr hkind), h⟩
  | openParen =>
    cases left with
    | none => exact ⟨_, .group hkind, h⟩
    | some callee => exact ⟨_, .call hkind, h⟩
  | openBrace =>
    cases left with
    | none => exact ⟨_, .scope hkind, h⟩
    | some name => exact ⟨_, .structLiteral hkind, h⟩
  | dot =>
    cases left with
    | none => exact absurd h fail_ne_ok
    | some base => exact ⟨_, .member hkind, h⟩
  | _ => exact absurd h unexpected_ne_ok

/-- What an operand is read as follows the rules. -/
theorem begun_reads (hp : p.Faithful) {left : Option ExprId} {token : Token} {closing : TokenSet}
    {φ : Phrase} (hbegins : Begins token closing id left φ) (h : φ.Ran p s s') :
    ∃ log, Reads φ s log s' := by
  cases hbegins with
  | name => exact nameOrDefinition_reads hp h
  | literal => exact literal_reads h
  | branch => exact branch_reads hp h
  | loop => exact loop_reads hp h
  | returns => exact returns_reads hp h
  | record => exact record_reads hp h
  | group => exact group_reads hp h
  | call => exact call_reads hp h
  | scope => exact scope_reads hp h
  | structLiteral => exact structLiteral_reads hp h
  | member => exact member_reads h

theorem operand_reads (hp : p.Faithful) {left : Option ExprId} {token : Token}
    {closing : TokenSet} (h : operand p left token closing s = .ok id s') :
    ∃ log, Reads (.operand left token closing id) s log s' := by
  obtain ⟨φ, hbegins, hrun⟩ := operand_begins h
  obtain ⟨log, hread⟩ := begun_reads hp hbegins hrun
  exact ⟨log, .operand hbegins hread⟩

theorem stepFrom_reads (hp : p.Faithful) {left answer : Option ExprId} {closing : TokenSet}
    (hclosing : s.cursor.isAt closing = false) (hunary : s.cursor.isAt (unaryAfter left) = false)
    (h : stepFrom p left closing s = .ok answer s') :
    ∃ log, Reads (.step left closing answer) s log s' := by
  rcases accept?_bind.1 h with ⟨hat, h⟩ | ⟨_, h⟩
  · rcases ite_ok.1 h with ⟨hkind, h⟩ | ⟨hnewline, h⟩
    · obtain ⟨rfl, rfl⟩ := pure_ok.1 h
      exact ⟨[], .stepNewline hclosing hunary hkind⟩
    rcases ite_ok.1 h with ⟨hkind, h⟩ | ⟨hoperator, h⟩
    · obtain ⟨id, s₁, hbinary, h⟩ := bind_ok.1 h
      obtain ⟨rfl, rfl⟩ := pure_ok.1 h
      obtain ⟨log, hread⟩ := binaryOperation_reads hp hbinary
      exact ⟨log, .stepOperator hclosing hunary hkind hread⟩
    rcases ite_ok.1 h with ⟨_, h⟩ | ⟨hleft, h⟩
    · exact absurd h unexpected_ne_ok
    · obtain ⟨id, s₁, hoperand, h⟩ := bind_ok.1 h
      obtain ⟨rfl, rfl⟩ := pure_ok.1 h
      obtain ⟨log, hread⟩ := operand_reads hp hoperand
      refine ⟨log, .stepOperand hclosing hunary hat hnewline hoperator ?_ hread⟩
      intro hsome hstart
      exact hleft (by rw [hsome, Bool.true_and]; exact hstart)
  · cases h

theorem stepTurn_reads (hp : p.Faithful) {left answer : Option ExprId} {closing : TokenSet}
    (h : stepTurn p left closing s = .ok answer s') :
    ∃ log, Reads (.step left closing answer) s log s' := by
  unfold stepTurn at h
  rw [isAt_bind] at h
  rcases ite_ok.1 h with ⟨hclosing, h⟩ | ⟨hclosing, h⟩
  · obtain ⟨rfl, rfl⟩ := pure_ok.1 h
    exact ⟨[], .stepClosing hclosing⟩
  have hclosing : s.cursor.isAt closing = false := by simpa using hclosing
  cases left with
  | none =>
    rcases accept?_bind.1 h with ⟨hat, h⟩ | ⟨hat, h⟩
    · obtain ⟨id, s₁, hprefix, h⟩ := bind_ok.1 h
      obtain ⟨rfl, rfl⟩ := pure_ok.1 h
      obtain ⟨log, hread⟩ := prefixOperation_reads hp hprefix
      exact ⟨log, .stepPrefix hclosing hat hread⟩
    · exact stepFrom_reads hp hclosing hat h
  | some left =>
    rcases accept?_bind.1 h with ⟨hat, h⟩ | ⟨hat, h⟩
    · obtain ⟨id, s₁, hpostfix, h⟩ := bind_ok.1 h
      obtain ⟨rfl, rfl⟩ := pure_ok.1 h
      obtain ⟨log, hread⟩ := postfixOperation_reads hpostfix
      exact ⟨log, .stepPostfix hclosing hat hread⟩
    · exact stepFrom_reads hp hclosing hat h

theorem endsBeforeBrace_run (left : Option ExprId) (s : State) :
    endsBeforeBrace left s = .ok (match left with
      | none => false
      | some left => s.cursor.isAt {.openBrace} && (namedStruct? s.tree left).isNone) s := by
  cases left with
  | none => rfl
  | some left =>
    unfold endsBeforeBrace
    simp only [isAt_bind]
    cases s.cursor.isAt {.openBrace} <;> rfl

theorem extendTurn_reads (hp : p.Faithful) {left answer : Option ExprId} {closing : TokenSet}
    (h : extendTurn p left closing s = .ok answer s') :
    ∃ log, Reads (.extend left closing answer) s log s' := by
  unfold extendTurn at h
  rw [isAt_bind] at h
  rcases ite_ok.1 h with ⟨hclosing, h⟩ | ⟨hclosing, h⟩
  · obtain ⟨rfl, rfl⟩ := pure_ok.1 h
    exact ⟨[], .extendClosing hclosing⟩
  have hclosing : s.cursor.isAt closing = false := by simpa using hclosing
  simp only [atEnd_bind] at h
  rcases ite_ok.1 h with ⟨_, h⟩ | ⟨hend, h⟩
  · cases h
  have hend : s.cursor.atEnd = false := by simpa using hend
  simp only [bind_run, endsBeforeBrace_run] at h
  rcases ite_ok.1 h with ⟨hbrace, h⟩ | ⟨hbrace, h⟩
  · obtain ⟨rfl, rfl⟩ := pure_ok.1 h
    cases left with
    | none => cases hbrace
    | some left =>
      simp only [Bool.and_eq_true, Option.isNone_iff_eq_none] at hbrace
      exact ⟨[], .extendBrace hclosing hbrace.1 hbrace.2⟩
  · have hbrace : ∀ l, left = some l → s.cursor.isAt {.openBrace} = true →
        (namedStruct? s.tree l).isSome = true := by
      rintro l rfl hat
      simpa [hat, Option.isSome_iff_ne_none] using hbrace
    obtain ⟨next, s₁, hstep, h⟩ := bind_ok.1 h
    obtain ⟨log, hread⟩ := hp.step hstep
    have hextend : p.extend (next.or left) closing s₁ = .ok answer s' := by
      cases next <;> exact h
    obtain ⟨log', hrest⟩ := hp.extend hextend
    exact ⟨_, .extendStep hclosing hend hbrace hread hrest⟩

theorem sequenceTurn_reads (hp : p.Faithful) {body : Array ExprId} {answer : List ExprId}
    {closing : TokenSet} (h : sequenceTurn p body closing s = .ok answer s') :
    ∃ log, Reads (.sequence body closing answer) s log s' := by
  unfold sequenceTurn at h
  rw [skip_bind] at h
  rcases accept?_bind.1 h with ⟨hclosing, h⟩ | ⟨hclosing, h⟩
  · obtain ⟨rfl, rfl⟩ := pure_ok.1 h
    exact ⟨[], .sequenceClosing hclosing⟩
  simp only [atEnd_bind] at h
  rcases ite_ok.1 h with ⟨_, h⟩ | ⟨hend, h⟩
  · cases h
  obtain ⟨item, s₁, hitem, h⟩ := bind_ok.1 h
  obtain ⟨log, hread⟩ := hp.extend hitem
  have hsequence : p.sequence (item.elim body body.push) closing s₁ = .ok answer s' := by
    cases item <;> exact h
  obtain ⟨log', hrest⟩ := hp.sequence hsequence
  exact ⟨_, .sequenceItem hclosing (by simpa using hend) hread hrest⟩

/-! ## All levels -/

/-- The productions of every level follow the rules. -/
theorem faithful_level (n : Nat) : (level n).Faithful := by
  induction n with
  | zero => exact ⟨nofun, nofun, nofun⟩
  | succ n ih => exact ⟨stepTurn_reads ih, extendTurn_reads ih, sequenceTurn_reads ih⟩

/-- Whatever a production of some level answers, it answers along the rules. -/
theorem Phrase.Ran.reads {φ : Phrase} {n : Nat} (h : φ.Ran (level n) s s') :
    ∃ log, Reads φ s log s' := by
  have hp := faithful_level n
  cases φ with
  | step => exact hp.step h
  | extend => exact hp.extend h
  | sequence => exact hp.sequence h
  | operand => exact operand_reads hp h
  | literal => exact literal_reads h
  | nameUse => exact nameUse_reads h
  | typeName =>
    obtain ⟨hnames, rfl⟩ := typeName_ok h
    exact ⟨[], .typeName hnames⟩
  | prefixOperation => exact prefixOperation_reads hp h
  | postfixOperation => exact postfixOperation_reads h
  | binaryOperation => exact binaryOperation_reads hp h
  | arguments => exact arguments_reads hp h
  | call => exact call_reads hp h
  | structLiteral => exact structLiteral_reads hp h
  | scopeBody => exact scopeBody_reads hp h
  | scope => exact scope_reads hp h
  | scopeAfter => exact scopeAfter_reads hp h
  | elseScope => exact elseScope_reads hp h
  | branch => exact branch_reads hp h
  | loop => exact loop_reads hp h
  | returns => exact returns_reads hp h
  | group => exact group_reads hp h
  | function =>
    obtain ⟨binding, log, hread, _⟩ := function_reads hp 0 h
    exact ⟨_, hread⟩
  | nextDefinition => exact nextDefinition_reads hp h
  | declaration =>
    obtain ⟨binding, log, hread, _⟩ := declaration_reads hp 0 h
    exact ⟨_, hread⟩
  | initialValue => exact initialValue_reads hp h
  | definition => exact definition_reads hp h
  | nameOrDefinition => exact nameOrDefinition_reads hp h
  | record => exact record_reads hp h
  | typedef =>
    obtain ⟨binding, log, hread, _⟩ := typedef_reads 0 h
    exact ⟨_, hread⟩
  | member => exact member_reads h

/-! ## Whole sources -/

/-- The state after a whole source, whose expressions were read up to `s`. -/
def State.finished (s : State) (start : Span) (body : List ExprId) : State :=
  let s' := s.add (.scope body Tree.mainFrame) (start.merge s.cursor.previousSpan)
  { s' with tree := { s'.tree with mainScope := some s.newExpr } }

theorem program_reads {u : Unit} (h : program s = .ok u s') :
    ∃ body log s₁, Reads (.sequence #[] {.eof} body) s log s₁ ∧
      s' = s₁.finished s.cursor.current.span body := by
  unfold program at h
  simp only [current_bind, get_bind] at h
  obtain ⟨body, s₁, hbody, h⟩ := bind_ok.1 h
  rw [previousSpan_bind] at h
  obtain ⟨scope, s₂, hpush, h⟩ := bind_ok.1 h
  obtain ⟨rfl, rfl⟩ := push_ok.1 hpush
  obtain ⟨log, hread⟩ := (faithful_level _).sequence hbody
  cases h
  exact ⟨body, log, s₁, hread, rfl⟩

theorem parse_reads {tokens : TokenList} {tree : Tree} (h : parse tokens = .ok tree) :
    ∃ body log s, Reads (.sequence #[] {.eof} body) (.initial tokens) log s ∧
      tree = (s.finished (Cursor.start tokens).current.span body).tree := by
  unfold parse at h
  cases hprogram : program (.initial tokens) with
  | error fault s => simp [hprogram] at h
  | ok u s =>
    simp only [hprogram, Except.ok.injEq] at h
    obtain ⟨body, log, s₁, hread, rfl⟩ := program_reads hprogram
    exact ⟨body, log, s₁, hread, h.symm⟩

theorem parseSource_ok {source : String} {tree : Tree} (h : parseSource source = .ok tree) :
    ∃ tokens, Lexicon.tokenize source.toList = .ok tokens ∧ parse tokens = .ok tree := by
  unfold parseSource at h
  cases htokens : Lexicon.tokenize source.toList with
  | error fault => simp [htokens] at h
  | ok tokens => exact ⟨tokens, rfl, by simpa [htokens] using h⟩

/-- A source is accepted if it passes a check of its tree. -/
theorem exists_parse {source : String} {check : Tree → Bool}
    (h : (parseSource source).toOption.any check = true) :
    ∃ tree, parseSource source = .ok tree ∧ check tree = true := by
  cases hparse : parseSource source with
  | error =>
    rw [hparse] at h
    cases h
  | ok tree =>
    rw [hparse] at h
    exact ⟨tree, rfl, h⟩

theorem exists_span {t : Tree} {id : ExprId} {node : Node}
    (h : (t.expr? id).map Expr.node = some node) : ∃ span, t.expr? id = some ⟨node, span⟩ := by
  obtain ⟨⟨_, span⟩, he, rfl⟩ := Option.map_eq_some_iff.1 h
  exact ⟨span, he⟩

end OnePass.Grammar

import OnePass.Proofs.Termination

/-!
# Turns where the tokens are known

What one turn around the circles does when it is known which tokens come next
(`Cursor.ahead`). Proofs/Faithful takes answers apart into the turns that gave them; these lemmas go
the other way and follow a reading token by token: where an expression or a sequence stops, what a
step begins with, and what the reading of a whole source makes of its sequence.
-/

namespace OnePass

/-! ## Tokens ahead -/

namespace Cursor

variable {c : Cursor} {x : Token} {rest : List Token} {wanted : TokenSet}

/-- The tokens that have not been passed, without the mark of the end. -/
def ahead (c : Cursor) : List Token := c.tokens.body.toList.drop c.position

/-- Behind the tokens stands the mark of the end. -/
theorem current_eq_head (c : Cursor) : c.current = c.ahead.head?.getD c.tokens.last := by
  unfold current ahead TokenList.get
  rw [List.head?_drop, Array.getElem?_toList]

theorem current_of_ahead (h : c.ahead = x :: rest) : c.current = x := by
  rw [current_eq_head, h, List.head?_cons, Option.getD_some]

theorem current_of_ahead_nil (h : c.ahead = []) : c.current = c.tokens.last := by
  rw [current_eq_head, h, List.head?_nil, Option.getD_none]

theorem isAt_of_ahead (h : c.ahead = x :: rest) : c.isAt wanted = wanted.contains x.kind := by
  unfold isAt
  rw [current_of_ahead h]

theorem atEnd_of_ahead (h : c.ahead = x :: rest) (hkind : x.kind ≠ .eof) : c.atEnd = false := by
  unfold atEnd
  rw [current_of_ahead h]
  exact decide_eq_false hkind

theorem ahead_advance (h : c.ahead = x :: rest) (hkind : x.kind ≠ .eof) :
    c.advance.ahead = rest := by
  unfold advance
  rw [atEnd_of_ahead h hkind, if_neg Bool.false_ne_true]
  show c.tokens.body.toList.drop (c.position + 1) = rest
  rw [← List.tail_drop]
  exact congrArg List.tail h

theorem skip_of_not_isAt (h : c.isAt wanted = false) : c.skip wanted = c :=
  skipWithin_of_not_isAt h _

end Cursor

namespace Grammar

variable {α : Type} {p : Productions} {s s₁ : State} {left : Option ExprId} {closing : TokenSet}
  {fault : Fault} {x : Token} {rest : List Token}

/-! ## Expressions -/

theorem past_of_not_isAt {wanted : TokenSet} (h : s.cursor.isAt wanted = false) :
    s.past wanted = s := by
  unfold State.past
  rw [Cursor.skip_of_not_isAt h]

theorem extendTurn_closing (hat : s.cursor.isAt closing = true) :
    extendTurn p left closing s = .ok left s := by
  unfold extendTurn
  rw [isAt_bind, if_pos hat]
  rfl

/-- An expression goes on with a step unless it ends. -/
theorem extendTurn_step (hclosing : s.cursor.isAt closing = false) (hend : s.cursor.atEnd = false)
    (hbrace : left = none ∨ s.cursor.isAt {.openBrace} = false) :
    extendTurn p left closing s =
      (p.step left closing >>= fun next => p.extend (next.or left) closing) s := by
  have hopen : endsBeforeBrace left s = .ok false s := by
    rw [endsBeforeBrace_run]
    rcases hbrace with rfl | hbrace
    · rfl
    · cases left <;> simp [hbrace]
  unfold extendTurn
  rw [isAt_bind, hclosing, if_neg Bool.false_ne_true]
  simp only [atEnd_bind]
  rw [hend, if_neg Bool.false_ne_true]
  rw [bind_eq hopen, if_neg Bool.false_ne_true, bind_run, bind_run]
  cases p.step left closing s with
  | ok next s₁ => cases next <;> rfl
  | error => rfl

/-- Tokens that an operand begins with, and nothing else. -/
def operandOnly : TokenSet := operandStart ∪ .ofList [.openParen, .openBrace, .dot]

theorem operandOnly_apart {k : TokenKind} (h : operandOnly.contains k = true) :
    prefixes.contains k = false ∧ stepStart.contains k = true ∧ k ≠ .newline ∧
      ¬k ∈ TokenSet.operators := by
  revert h
  cases k <;> decide

/-- A step from a token that begins one, behind operators that stand next to an operand. -/
theorem stepFrom_start (hstart : s.cursor.isAt stepStart = true)
    (hnewline : s.cursor.current.kind ≠ .newline) :
    stepFrom p left closing s =
      (if s.cursor.current.kind ∈ TokenSet.operators then
        some <$> binaryOperation p left s.cursor.current closing
      else if left.isSome && operandStart.contains s.cursor.current.kind then
        unexpected closing s.cursor.current
      else some <$> operand p left s.cursor.current closing : Parse (Option ExprId)) s.next := by
  have haccept : accept? stepStart s = .ok (some s.cursor.current) s.next := by
    rw [accept?_run, if_pos hstart]
  unfold stepFrom
  rw [bind_eq haccept]
  dsimp only
  rw [if_neg hnewline, map_eq_pure_bind, map_eq_pure_bind]

/-- A step without a left part reads an operand. -/
theorem stepTurn_operand (hclosing : s.cursor.isAt closing = false)
    (hstart : s.cursor.isAt operandOnly = true) :
    stepTurn p none closing s =
      (some <$> operand p none s.cursor.current closing : Parse (Option ExprId)) s.next := by
  obtain ⟨hnone, hstart, hnewline, hoperator⟩ := operandOnly_apart hstart
  have hnone : accept? prefixes s = .ok none s := by
    rw [accept?_run, if_neg]
    exact Bool.eq_false_iff.1 hnone
  unfold stepTurn
  rw [isAt_bind, hclosing, if_neg Bool.false_ne_true]
  dsimp only
  rw [bind_eq hnone]
  dsimp only
  rw [stepFrom_start hstart hnewline, if_neg hoperator, if_neg (by simp)]

theorem operators_apart {k : TokenKind} (h : k ∈ TokenSet.operators) :
    postfixes.contains k = false ∧ stepStart.contains k = true ∧ k ≠ .newline := by
  revert h
  cases k <;> decide

/-- A step behind a left part reads an operation. -/
theorem stepTurn_operator {left : ExprId} (hclosing : s.cursor.isAt closing = false)
    (hoperator : s.cursor.current.kind ∈ TokenSet.operators) :
    stepTurn p (some left) closing s =
      (some <$> binaryOperation p (some left) s.cursor.current closing :
        Parse (Option ExprId)) s.next := by
  obtain ⟨hnone, hstart, hnewline⟩ := operators_apart hoperator
  have hnone : accept? postfixes s = .ok none s := by
    rw [accept?_run, if_neg]
    exact Bool.eq_false_iff.1 hnone
  unfold stepTurn
  rw [isAt_bind, hclosing, if_neg Bool.false_ne_true]
  dsimp only
  rw [bind_eq hnone]
  dsimp only
  rw [stepFrom_start hstart hnewline, if_pos hoperator]

theorem map_run {β : Type} {f : α → β} {x : Parse α} {a : α} (h : x s = .ok a s₁) :
    (f <$> x) s = .ok (f a) s₁ := by
  rw [map_eq_pure_bind, bind_eq h]
  rfl

/-- An expression reads an operand and goes on behind it. -/
theorem extend_operand {n : Nat} (hahead : s.cursor.ahead = x :: rest)
    (hclosing : closing.contains x.kind = false) (hstart : operandOnly.contains x.kind = true) :
    (level (n + 2)).extend none closing s = (operand (level n) none x closing >>= fun id =>
      (level (n + 1)).extend (some id) closing) s.next := by
  have hkind : x.kind ≠ .eof := by
    intro heof
    rw [heof] at hstart
    exact absurd hstart (by decide)
  have hat : s.cursor.isAt closing = false := (Cursor.isAt_of_ahead hahead).trans hclosing
  have hstep : (level (n + 1)).step none closing s =
      (some <$> operand (level n) none x closing : Parse (Option ExprId)) s.next := by
    show stepTurn (level n) none closing s = _
    rw [stepTurn_operand hat ((Cursor.isAt_of_ahead hahead).trans hstart),
      Cursor.current_of_ahead hahead]
  show extendTurn (level (n + 1)) none closing s = _
  rw [extendTurn_step hat (Cursor.atEnd_of_ahead hahead hkind) (.inl rfl), bind_run, bind_run,
    hstep, map_eq_pure_bind, bind_run]
  cases operand (level n) none x closing s.next <;> rfl

/-- What is ahead closes what is read. -/
def Stops (tokens : TokenList) (rest : List Token) (closing : TokenSet) : Prop :=
  ∀ c : Cursor, c.tokens = tokens → c.ahead = rest → c.isAt closing = true

/-- A whole number that fits. -/
theorem integer_eq {token : Token} {value : Nat}
    (hdigits : Number.digitsValue? (digitsOf token).1 (digitsOf token).2 = some value)
    (hfits : value < UInt64.size) :
    integer token s = .ok s.newExpr (s.add (.int value (intSize value)) token.span) := by
  unfold integer
  dsimp only
  rw [hdigits]
  dsimp only
  rw [if_pos hfits]
  exact push_run _ _ _

/-! ## Sequences -/

theorem sequenceTurn_closing {body : Array ExprId}
    (hat : (s.past separators).cursor.isAt closing = true) :
    sequenceTurn p body closing s = .ok body.toList (s.past separators).next := by
  have haccept : accept? closing (s.past separators) =
      .ok (some (s.past separators).cursor.current) (s.past separators).next := by
    rw [accept?_run, if_pos hat]
  unfold sequenceTurn
  rw [skip_bind, bind_eq haccept]
  rfl

/-- A sequence goes on with an expression unless it ends. -/
theorem sequenceTurn_item {body : Array ExprId}
    (hclosing : (s.past separators).cursor.isAt closing = false)
    (hend : (s.past separators).cursor.atEnd = false) :
    sequenceTurn p body closing s =
      (p.expr (separators ∪ closing) >>= fun item =>
        p.sequence (item.elim body body.push) closing) (s.past separators) := by
  have haccept : accept? closing (s.past separators) = .ok none (s.past separators) := by
    rw [accept?_run, if_neg (Bool.eq_false_iff.1 hclosing)]
  unfold sequenceTurn
  rw [skip_bind, bind_eq haccept]
  simp only [atEnd_bind]
  rw [hend, if_neg Bool.false_ne_true, bind_run, bind_run]
  cases p.expr (separators ∪ closing) (s.past separators) with
  | ok item s₁ => cases item <;> rfl
  | error => rfl

/-- The first item of a sequence that begins neither with a separator nor at its end. -/
theorem sequence_item {n : Nat} (hfirst : s.cursor.isAt (separators ∪ closing) = false)
    (hend : s.cursor.atEnd = false) :
    (level (n + 1)).sequence #[] closing s =
      ((level n).expr (separators ∪ closing) >>= fun item =>
        (level n).sequence (item.elim #[] #[].push) closing) s := by
  rw [Bool.eq_false_iff, Ne, isAt_union, not_or] at hfirst
  have hpast := past_of_not_isAt (Bool.eq_false_iff.2 hfirst.1)
  show sequenceTurn (level n) #[] closing s = _
  rw [sequenceTurn_item] <;> rw [hpast]
  · exact Bool.eq_false_iff.2 hfirst.2
  · exact hend

/-- A sequence of a single item. -/
theorem sequence_single {n : Nat} {id : ExprId}
    (hfirst : s.cursor.isAt (separators ∪ closing) = false) (hend : s.cursor.atEnd = false)
    (hitem : (level (n + 1)).expr (separators ∪ closing) s = .ok (some id) s₁)
    (hseparators : s₁.cursor.isAt separators = false) (hstop : s₁.cursor.isAt closing = true) :
    (level (n + 2)).sequence #[] closing s = .ok [id] s₁.next := by
  have hpast := past_of_not_isAt hseparators
  rw [sequence_item hfirst hend, bind_eq hitem]
  show sequenceTurn (level n) #[id] closing s₁ = _
  rw [sequenceTurn_closing] <;> rw [hpast]
  exact hstop

/-! ## Sources -/

/-- The tree of a source whose sequence has been read. -/
theorem parse_of_sequence {tokens : TokenList} {body : List ExprId}
    (h : (level (fuel tokens.size)).sequence #[] {.eof} (.initial tokens) = .ok body s) :
    ∃ span, parse tokens =
      .ok { (s.add (.scope body Tree.mainFrame) span).tree with mainScope := some s.newExpr } := by
  refine ⟨(tokens.get 0).span.merge s.cursor.previousSpan, ?_⟩
  have hbody : (level (fuel (State.initial tokens).cursor.tokens.size)).body {.eof}
      (.initial tokens) = .ok body s := h
  unfold parse program
  simp only [current_bind, get_bind]
  rw [bind_eq hbody, previousSpan_bind, bind_eq (push_run _ _ _)]
  rfl

/-- The main scope holds what is at the top. -/
theorem topLevel_eq {t : Tree} {main : ExprId} {body : List ExprId} {frame : FrameId} {span : Span}
    (hmain : t.mainScope = some main) (h : t.expr? main = some ⟨.scope body frame, span⟩) :
    t.topLevel = body := by
  unfold Tree.topLevel
  rw [hmain, Option.bind_some, h]

theorem parse_of_sequence_error {tokens : TokenList}
    (h : (level (fuel tokens.size)).sequence #[] {.eof} (.initial tokens) = .error fault s) :
    parse tokens = .error fault := by
  have hbody : (level (fuel (State.initial tokens).cursor.tokens.size)).body {.eof}
      (.initial tokens) = .error fault s := h
  unfold parse program
  simp only [current_bind, get_bind]
  rw [bind_error hbody]

end Grammar

end OnePass

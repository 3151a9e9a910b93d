import OnePass.Proofs.Faithful
import OnePass.Proofs.Trail

/-!
# Progress

How a reading moves over the tokens. The cursor never moves back (`Reads.forward`). A step that
does not stand on a closing token moves it (`Reads.advances`), and so does the item of a
sequence (`Reads.item_advances`). An expression ends on a closing token or, once it has an
operand, on an opening brace (`Reads.stops`). In a list of tokens that the mark of the end
closes, the tokens left are a measure of what can still be read.
-/

namespace OnePass.Cursor

variable {c c' c'' : Cursor} {wanted : TokenSet}

/-- `c'` stands in the same tokens as `c`, at the same place or a later one. -/
structure Forward (c c' : Cursor) : Prop where
  tokens : c'.tokens = c.tokens
  position : c.position ≤ c'.position

theorem Forward.refl : c.Forward c := ⟨rfl, Nat.le_refl _⟩

theorem Forward.trans (h : c.Forward c') (h' : c'.Forward c'') : c.Forward c'' :=
  ⟨h'.tokens.trans h.tokens, Nat.le_trans h.position h'.position⟩

theorem forward_advance : c.Forward c.advance := by
  unfold advance
  split
  · exact .refl
  · exact ⟨rfl, Nat.le_succ _⟩

theorem forward_skipWithin (steps : Nat) (c : Cursor) : c.Forward (skipWithin wanted steps c) := by
  induction steps generalizing c with
  | zero => exact .refl
  | succ steps ih =>
    unfold skipWithin
    split
    · exact forward_advance.trans (ih _)
    · exact .refl

theorem forward_skip : c.Forward (c.skip wanted) := forward_skipWithin _ _

/-- The cursor moves over whatever is not the mark of the end. -/
theorem position_advance (h : c.current.kind ≠ .eof) : c.advance.position = c.position + 1 := by
  unfold advance
  rw [if_neg (by simpa [atEnd] using h)]

theorem ne_eof_of_isAt (hat : c.isAt wanted = true) (heof : wanted.contains .eof = false) :
    c.current.kind ≠ .eof := by
  intro hkind
  unfold isAt at hat
  rw [hkind, heof] at hat
  cases hat

/-! ## Tokens left -/

/-- Number of tokens before the mark of the end that have not been passed. -/
def left (c : Cursor) : Nat := c.tokens.body.size - c.position

/-- The mark of the end closes the tokens. -/
def Closed (c : Cursor) : Prop := c.tokens.last.kind = .eof

theorem Closed.forward (h : c.Closed) (hforward : c.Forward c') : c'.Closed := by
  unfold Closed
  rw [hforward.tokens]
  exact h

theorem Forward.left_le (h : c.Forward c') : c'.left ≤ c.left := by
  unfold left
  rw [h.tokens]
  exact Nat.sub_le_sub_left h.position _

/-- Behind all tokens there is only the mark of the end. -/
theorem Closed.current_kind (h : c.Closed) (hend : c.tokens.body.size ≤ c.position) :
    c.current.kind = .eof := by
  unfold current TokenList.get
  rw [Array.getElem?_eq_none hend]
  exact h

theorem Closed.position_lt (h : c.Closed) (hkind : c.current.kind ≠ .eof) :
    c.position < c.tokens.body.size :=
  Nat.lt_of_not_le fun hend => hkind (h.current_kind hend)

/-- A cursor that moves on from a token leaves fewer of them. -/
theorem Closed.left_lt (h : c.Closed) (hforward : c.Forward c')
    (hkind : c.current.kind ≠ .eof) (hlt : c.position < c'.position) : c'.left < c.left := by
  have hposition := h.position_lt hkind
  unfold left
  rw [hforward.tokens]
  omega

/-- After the tokens of a set have been skipped the next one is not in the set. -/
theorem Closed.isAt_skip (h : c.Closed) (heof : wanted.contains .eof = false) :
    (c.skip wanted).isAt wanted = false := by
  suffices ∀ steps (c : Cursor), c.Closed → c.tokens.size ≤ c.position + steps →
      (skipWithin wanted steps c).isAt wanted = false by
    exact this _ c h (by omega)
  intro steps
  induction steps with
  | zero =>
    intro c h hsize
    unfold skipWithin isAt
    rw [h.current_kind (Nat.le_trans (Nat.le_succ _) hsize), heof]
  | succ steps ih =>
    intro c h hsize
    unfold skipWithin
    split
    · rename_i hat
      have hforward : c.Forward c.advance := forward_advance
      refine ih _ (h.forward hforward) ?_
      rw [position_advance (ne_eof_of_isAt hat heof), hforward.tokens]
      omega
    · simpa using ‹¬c.isAt wanted = true›

theorem skipWithin_of_not_isAt (h : c.isAt wanted = false) (steps : Nat) :
    skipWithin wanted steps c = c := by
  cases steps with
  | zero => rfl
  | succ steps =>
    unfold skipWithin
    rw [if_neg (by simp [h])]

/-- Tokens that have been skipped are not there to be skipped again. -/
theorem skip_skip : (c.skip wanted).skip wanted = c.skip wanted := by
  suffices ∀ steps (c : Cursor), steps = c.tokens.size - c.position →
      (skipWithin wanted steps c).skip wanted = skipWithin wanted steps c from this _ c rfl
  intro steps
  induction steps with
  | zero =>
    intro c hsteps
    show skipWithin wanted (c.tokens.size - c.position) c = c
    rw [← hsteps]
    rfl
  | succ steps ih =>
    intro c hsteps
    by_cases hat : c.isAt wanted = true
    · by_cases hend : c.atEnd = true
      · -- the mark of the end is skipped without moving
        have hstays (n : Nat) : skipWithin wanted n c = c := by
          induction n with
          | zero => rfl
          | succ n ih =>
            unfold skipWithin advance
            rw [if_pos hat, if_pos hend, ih]
        unfold skip
        rw [hstays, hstays]
      · unfold skipWithin
        rw [if_pos hat]
        refine ih _ ?_
        unfold advance
        rw [if_neg hend]
        show steps = c.tokens.size - (c.position + 1)
        omega
    · have hstops := skipWithin_of_not_isAt (by simpa using hat)
      unfold skip
      rw [hstops, hstops]

end OnePass.Cursor

namespace OnePass.Grammar

variable {s s' : State} {log : List Binding} {closing : TokenSet}

/-! ## Forward -/

theorem Step.forward (h : Step s log s') : s.cursor.Forward s'.cursor := by
  cases h with
  | next => exact Cursor.forward_advance
  | past => exact Cursor.forward_skip
  | opens h | enters h =>
    obtain ⟨_, hcursor, _⟩ := h
    rw [hcursor]
    exact .refl
  | closes h =>
    obtain ⟨_, _, hcursor, _⟩ := h
    rw [hcursor]
    exact .refl
  | _ => exact .refl

theorem Trail.forward (h : Trail s log s') : s.cursor.Forward s'.cursor := by
  induction h with
  | refl => exact .refl
  | cons hstep _ ih => exact hstep.forward.trans ih

/-- No production moves the cursor back. -/
theorem Reads.forward {φ : Phrase} (h : Reads φ s log s') : s.cursor.Forward s'.cursor :=
  h.trail.forward

/-! ## Steps and items -/

theorem advances_next (hforward : s.next.cursor.Forward s'.cursor)
    (hkind : s.cursor.current.kind ≠ .eof) : s.cursor.position < s'.cursor.position := by
  have hnext : s.next.cursor.position = s.cursor.position + 1 := Cursor.position_advance hkind
  have hle := hforward.position
  omega

/-- A step that does not stand on a closing token reads at least one token. -/
theorem Reads.advances {left answer : Option ExprId}
    (h : Reads (.step left closing answer) s log s') (hclosing : s.cursor.isAt closing = false) :
    s.cursor.position < s'.cursor.position := by
  cases h with
  | stepClosing hat =>
    rw [hclosing] at hat
    cases hat
  | stepPrefix _ hat hread =>
    exact advances_next hread.forward (Cursor.ne_eof_of_isAt hat (by decide))
  | stepPostfix _ hat hread =>
    exact advances_next hread.forward (Cursor.ne_eof_of_isAt hat (by decide))
  | stepNewline _ _ hkind =>
    refine advances_next .refl ?_
    rw [hkind]
    decide
  | stepOperator _ _ hkind hread =>
    exact advances_next hread.forward (Cursor.ne_eof_of_isAt hkind (by decide))
  | stepOperand _ _ hat _ _ _ hread =>
    exact advances_next hread.forward (Cursor.ne_eof_of_isAt hat (by decide))

theorem isAt_union {c : Cursor} {a b : TokenSet} :
    c.isAt (a ∪ b) = true ↔ c.isAt a = true ∨ c.isAt b = true := TokenSet.mem_union

/-- An expression without a left part, which does not begin on a closing token, reads at least
one token. -/
theorem Reads.expr_advances {answer : Option ExprId}
    (h : Reads (.extend none closing answer) s log s') (hclosing : s.cursor.isAt closing = false) :
    s.cursor.position < s'.cursor.position := by
  cases h with
  | extendClosing hat =>
    rw [hclosing] at hat
    cases hat
  | extendStep _ _ _ hstep hextend =>
    exact Nat.lt_of_lt_of_le (hstep.advances hclosing) hextend.forward.position

theorem isAt_item (hclosed : s.cursor.Closed)
    (hclosing : (s.past separators).cursor.isAt closing = false) :
    (s.past separators).cursor.isAt (separators ∪ closing) = false := by
  have hseparators : (s.past separators).cursor.isAt separators = false :=
    hclosed.isAt_skip (by decide)
  rw [Bool.eq_false_iff, Ne, isAt_union, hseparators, hclosing]
  decide

/-- An expression ends on a closing token or, with an operand, on an opening brace. -/
theorem Reads.stops {left answer : Option ExprId}
    (h : Reads (.extend left closing answer) s log s') :
    s'.cursor.isAt closing = true ∨
      (answer.isSome = true ∧ s'.cursor.isAt {.openBrace} = true) := by
  generalize hφ : Phrase.extend left closing answer = φ at h
  induction h generalizing left answer closing with
  | extendClosing hat =>
    cases hφ
    exact .inl hat
  | extendBrace _ hat _ =>
    cases hφ
    exact .inr ⟨rfl, hat⟩
  | extendStep _ _ _ _ _ _ ih =>
    cases hφ
    exact ih rfl
  | _ => cases hφ

end OnePass.Grammar

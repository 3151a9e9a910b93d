import OnePass.Lexicon.Scan

/-!
# Offsets of tokens

Where the tokens of a source lie. Each of them is cut out between two characters, none begins
before the one before it ends, and the mark of the end, of which there is only one, lies at the
end of the source (`tokenize_laid`, `tokenize_eof`). The scan visits the source character by
character, so the invariant speaks of the characters visited and of those of the text taken last
that are still to be passed: what has been found lies before the end of both.
-/

namespace OnePass

open Text (byteLength)

variable {source : List Char} {tokens : TokenList} {span : Span} {offset upTo i j : Nat}

/-! ## Places in a source -/

/-- The offset lies at an end of the source or between two of its characters. -/
def IsBoundary (source : List Char) (offset : Nat) : Prop :=
  ∃ before after, source = before ++ after ∧ byteLength before = offset

/-- The span is that of a piece of the source. -/
structure Span.Cuts (span : Span) (source : List Char) : Prop where
  start : IsBoundary source span.start
  le : span.start ≤ span.stop
  stop : IsBoundary source span.stop

theorem IsBoundary.le (h : IsBoundary source offset) : offset ≤ byteLength source := by
  obtain ⟨before, after, rfl, rfl⟩ := h
  rw [Text.byteLength_append]
  exact Nat.le_add_right _ _

theorem Span.ofRange_ok {start stop : Nat} (h : Span.ofRange start stop = .ok span) :
    span = ⟨start, stop⟩ := by
  unfold Span.ofRange at h
  split at h
  · cases h
  · split at h
    · cases h
    · exact (Except.ok.inj h).symm

/-- Some characters from a place on are cut out of the source. -/
theorem cuts_take {before text : List Char} (hsource : source = before ++ text) (n : Nat) :
    Span.Cuts ⟨byteLength before, byteLength before + byteLength (text.take n)⟩ source := by
  refine ⟨⟨before, text, hsource, rfl⟩, Nat.le_add_right _ _, ?_⟩
  refine ⟨before ++ text.take n, text.drop n, ?_, Text.byteLength_append _ _⟩
  rw [List.append_assoc, List.take_append_drop, hsource]

/-- The tokens are pieces of the source, one after the other, none behind an offset. -/
structure Laid (source : List Char) (tokens : List Token) (upTo : Nat) : Prop where
  cuts : ∀ x ∈ tokens, x.span.Cuts source
  ordered : tokens.Pairwise fun x y => x.span.stop ≤ y.span.start
  within : ∀ x ∈ tokens, x.span.stop ≤ upTo

namespace Laid

variable {found : List Token} {upTo' : Nat}

theorem nil : Laid source [] upTo := ⟨nofun, .nil, nofun⟩

theorem mono (h : Laid source found upTo) (hle : upTo ≤ upTo') : Laid source found upTo' :=
  ⟨h.cuts, h.ordered, fun x hx => Nat.le_trans (h.within x hx) hle⟩

/-- One more token behind the others. -/
theorem snoc (h : Laid source found upTo) (hcuts : span.Cuts source) (kind : TokenKind)
    (text : String) (hle : upTo ≤ span.start) :
    Laid source (found ++ [⟨kind, text, span⟩]) span.stop := by
  have hwithin : ∀ x ∈ found, x.span.stop ≤ span.start := fun x hx =>
    Nat.le_trans (h.within x hx) hle
  refine ⟨?_, List.pairwise_append.2 ⟨h.ordered, List.pairwise_singleton _ _, ?_⟩, ?_⟩
  · intro x hx
    rcases List.mem_append.1 hx with hx | hx
    · exact h.cuts x hx
    · rwa [List.mem_singleton.1 hx]
  · intro x hx y hy
    rw [List.mem_singleton.1 hy]
    exact hwithin x hx
  · intro x hx
    rcases List.mem_append.1 hx with hx | hx
    · exact Nat.le_trans (hwithin x hx) hcuts.le
    · exact Nat.le_of_eq (congrArg (·.span.stop) (List.mem_singleton.1 hx))

end Laid

/-! ## The scan -/

namespace Lexicon

theorem pieceSpan_ok {piece : List Char} (h : pieceSpan offset piece = .ok span) :
    span = ⟨offset, offset + byteLength piece⟩ := by
  unfold pieceSpan at h
  split at h
  · rename_i hrange
    cases h
    exact Span.ofRange_ok hrange
  · cases h

theorem bind_eq_ok {ε α β : Type} {x : Except ε α} {f : α → Except ε β} {b : β}
    (h : x >>= f = .ok b) : ∃ a, x = .ok a ∧ f a = .ok b := by
  cases x with
  | error => cases h
  | ok a => exact ⟨a, rfl, h⟩

/-- What is found from a place on lies behind what has been found before. -/
theorem scanFrom_laid {before text : List Char} {pending : Nat} {found tokens : Array Token}
    (hsource : source = before ++ text)
    (hlaid : Laid source found.toList (byteLength (before ++ text.take pending)))
    (h : scanFrom (byteLength before) pending found text = .ok tokens) :
    Laid source tokens.toList (byteLength source) := by
  induction text generalizing before pending found with
  | nil =>
    cases h
    rwa [List.take_nil, ← hsource] at hlaid
  | cons c rest ih =>
    have hnext : source = (before ++ [c]) ++ rest := by rw [hsource, List.append_assoc]; rfl
    have hoffset : byteLength before + c.utf8Size = byteLength (before ++ [c]) := by simp
    -- what was found before `c` lies before everything behind `c`
    have hpassed : ∀ n, Laid source found.toList (byteLength before) →
        Laid source found.toList (byteLength (before ++ [c] ++ rest.take n)) := by
      intro n hfound
      refine hfound.mono ?_
      rw [Text.byteLength_append, Text.byteLength_append, Nat.add_assoc]
      exact Nat.le_add_right _ _
    unfold scanFrom at h
    rw [hoffset] at h
    cases pending with
    | succ pending =>
      refine ih hnext ?_ h
      rwa [List.take_succ_cons, List.append_cons] at hlaid
    | zero =>
      rw [List.take_zero, List.append_nil] at hlaid
      dsimp only at h
      split at h
      · exact ih hnext (hpassed _ hlaid) h
      · obtain ⟨_, _, h⟩ := bind_eq_ok h
        exact ih hnext (hpassed _ hlaid) h
      · rename_i length kind _
        obtain ⟨span, hspan, h⟩ := bind_eq_ok h
        obtain rfl := pieceSpan_ok hspan
        refine ih hnext ?_ h
        have hpushed := hlaid.snoc (cuts_take hsource length) kind
          (String.ofList ((c :: rest).take length)) (Nat.le_refl _)
        rw [Array.toList_push]
        refine hpushed.mono ?_
        cases length with
        | zero => simp
        | succ length => simp
      · obtain ⟨_, _, h⟩ := bind_eq_ok h
        cases h

/-- What holds of every piece that is cut out holds of every token. -/
theorem scanFrom_all {holds : Token → Prop} {pending : Nat} {found tokens : Array Token}
    {text : List Char} (hcut : ∀ {text : List Char} {length : Nat} {kind : TokenKind} (span : Span),
      munch? text = some (length, .token kind) →
        holds ⟨kind, String.ofList (text.take length), span⟩)
    (h : scanFrom offset pending found text = .ok tokens) (hfound : ∀ x ∈ found, holds x) :
    ∀ x ∈ tokens, holds x := by
  induction text generalizing offset pending found with
  | nil =>
    cases h
    exact hfound
  | cons c rest ih =>
    unfold scanFrom at h
    cases pending with
    | succ pending => exact ih h hfound
    | zero =>
      dsimp only at h
      split at h
      · exact ih h hfound
      · obtain ⟨_, _, h⟩ := bind_eq_ok h
        exact ih h hfound
      · rename_i hmunch
        obtain ⟨span, _, h⟩ := bind_eq_ok h
        refine ih h fun x hx => ?_
        rcases Array.mem_push.1 hx with hx | rfl
        · exact hfound x hx
        · exact hcut span hmunch
      · obtain ⟨_, _, h⟩ := bind_eq_ok h
        cases h

/-- A source that is accepted has been scanned to its end, where the mark of the end lies. -/
theorem tokenize_ok (h : tokenize source = .ok tokens) :
    scanFrom 0 0 #[] source = .ok tokens.body ∧
      tokens.last = ⟨.eof, "", ⟨byteLength source, byteLength source⟩⟩ := by
  unfold tokenize at h
  obtain ⟨body, hscan, h⟩ := bind_eq_ok h
  split at h
  · rename_i closed hclose
    obtain rfl := Except.ok.inj h
    unfold TokenList.close at hclose
    obtain ⟨span, hspan, hclose⟩ := bind_eq_ok hclose
    obtain rfl := Except.ok.inj hclose
    obtain rfl := Span.ofRange_ok hspan
    exact ⟨hscan, rfl⟩
  · cases h

theorem tokenize_all {holds : Token → Prop}
    (hcut : ∀ {text : List Char} {length : Nat} {kind : TokenKind} (span : Span),
      munch? text = some (length, .token kind) →
        holds ⟨kind, String.ofList (text.take length), span⟩)
    (h : tokenize source = .ok tokens) : ∀ x ∈ tokens.body, holds x :=
  scanFrom_all hcut (tokenize_ok h).1 (by simp)

/-- The tokens of a source lie in it in order, the mark of the end at its end. -/
theorem tokenize_laid (h : tokenize source = .ok tokens) :
    Laid source tokens.toList (byteLength source) ∧
      tokens.last.span = ⟨byteLength source, byteLength source⟩ := by
  obtain ⟨hscan, hlast⟩ := tokenize_ok h
  have hlaid := scanFrom_laid (List.nil_append source).symm Laid.nil hscan
  have hend : IsBoundary source (byteLength source) :=
    ⟨source, [], (List.append_nil source).symm, rfl⟩
  unfold TokenList.toList
  rw [hlast]
  exact ⟨hlaid.snoc ⟨hend, Nat.le_refl _, hend⟩ _ _ (Nat.le_refl _), rfl⟩

theorem eq_or_eq_of_better {best : Option (Nat × Role)} {found : Nat × Role} {length : Nat}
    {role : Role} (h : better best length role = some found) :
    found = (length, role) ∨ best = some found := by
  unfold better at h
  split at h
  · split at h
    · exact .inl (Option.some.inj h).symm
    · exact .inr h
  · exact .inl (Option.some.inj h).symm

/-- What is found at a place is what some rule describes. -/
theorem munch?_mem {text : List Char} {found : Nat × Role} (h : munch? text = some found) :
    ∃ rule ∈ rules, rule.role = found.2 := by
  refine List.foldlRecOn
    (motive := fun best => ∀ found, best = some found → ∃ rule ∈ rules, rule.role = found.2)
    rules _ nofun ?_ found h
  intro best hbest rule hrule found hfound
  split at hfound
  · rcases eq_or_eq_of_better hfound with rfl | hold
    · exact ⟨rule, hrule, rfl⟩
    · exact hbest found hold
  · exact hbest found hfound

/-- No piece of a source is a mark of its end. -/
theorem munch?_ne_eof {text : List Char} {length : Nat} {kind : TokenKind}
    (h : munch? text = some (length, .token kind)) : kind ≠ .eof := by
  have hrules : ∀ rule ∈ rules, rule.role ≠ .token .eof := by decide
  obtain ⟨rule, hrule, hrole⟩ := munch?_mem h
  rintro rfl
  exact hrules rule hrule hrole

/-- The mark of the end is the last of the tokens, and only that. -/
theorem tokenize_eof (h : tokenize source = .ok tokens) :
    (∀ x ∈ tokens.body, x.kind ≠ .eof) ∧ tokens.last.kind = .eof :=
  ⟨tokenize_all (fun _ hmunch => munch?_ne_eof hmunch) h,
    congrArg Token.kind (tokenize_ok h).2⟩

end Lexicon

/-! ## Tokens by their places -/

namespace TokenList

theorem get_mem (tokens : TokenList) (i : Nat) : tokens.get i ∈ tokens.toList := by
  unfold get toList
  by_cases hi : i < tokens.body.size
  · rw [Array.getElem?_eq_getElem hi, Option.getD_some]
    exact List.mem_append_left _ (Array.mem_toList_iff.2 (Array.getElem_mem hi))
  · rw [Array.getElem?_eq_none (Nat.le_of_not_lt hi), Option.getD_none]
    exact List.mem_append_right _ (List.mem_singleton_self _)

/-- No token ends before it begins, and none begins before those at earlier places end. -/
structure Ordered (tokens : TokenList) : Prop where
  le : ∀ i, (tokens.get i).span.start ≤ (tokens.get i).span.stop
  before : ∀ {i j}, i < j → (tokens.get i).span.stop ≤ (tokens.get j).span.start

theorem Ordered.start_le (h : tokens.Ordered) (hij : i ≤ j) :
    (tokens.get i).span.start ≤ (tokens.get j).span.start := by
  rcases Nat.eq_or_lt_of_le hij with rfl | hlt
  · exact Nat.le_refl _
  · exact Nat.le_trans (h.le i) (h.before hlt)

theorem Ordered.stop_le (h : tokens.Ordered) (hij : i ≤ j) :
    (tokens.get i).span.stop ≤ (tokens.get j).span.stop := by
  rcases Nat.eq_or_lt_of_le hij with rfl | hlt
  · exact Nat.le_refl _
  · exact Nat.le_trans (h.before hlt) (h.le j)

end TokenList

/-- Tokens that are laid out in a source are in order at all places, also past the mark of the
end, which has no bytes. -/
theorem Laid.tokens_ordered (h : Laid source tokens.toList upTo)
    (hlast : tokens.last.span.start = tokens.last.span.stop) : tokens.Ordered := by
  refine ⟨fun i => (h.cuts _ (tokens.get_mem i)).le, ?_⟩
  intro i j hij
  have hordered := List.pairwise_append.1 h.ordered
  unfold TokenList.get
  by_cases hi : i < tokens.body.size
  · rw [Array.getElem?_eq_getElem hi, Option.getD_some]
    by_cases hj : j < tokens.body.size
    · rw [Array.getElem?_eq_getElem hj, Option.getD_some]
      exact List.pairwise_iff_getElem.1 hordered.1 i j hi hj hij
    · rw [Array.getElem?_eq_none (Nat.le_of_not_lt hj), Option.getD_none]
      exact hordered.2.2 _ (Array.mem_toList_iff.2 (Array.getElem_mem hi)) _
        (List.mem_singleton_self _)
  · rw [Array.getElem?_eq_none (Nat.le_of_not_lt hi),
      Array.getElem?_eq_none (by omega), Option.getD_none]
    exact Nat.le_of_eq hlast.symm

end OnePass

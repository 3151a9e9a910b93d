import OnePass.Proofs.Longest
import OnePass.Proofs.Offsets

/-!
# Scanning without loss

A source is cut into the longest pieces that the rules describe, one after the other
(`Lexicon.Scans`), and `tokenize` answers the tokens among them (`tokenize_of_scans`) or refuses
the source where no rule describes anything (`tokenize_of_stuck`). What is cut off before some
place does not depend on what comes behind it (`Scans.alone`), so that the part before a refused
place is accepted. Between the tokens there is nothing but blanks and comments, and a comment goes
on to the end of its line (`gap_of_longest`, `scanning_lossless`).
-/

namespace OnePass

open Text (byteLength)

/-! ## Pieces of a text -/

namespace Text

variable {before piece rest : List Char}

theorem utf8Size_le_byteLength (c : Char) (text : List Char) :
    c.utf8Size ≤ byteLength (c :: text) := by
  rw [byteLength_cons]
  exact Nat.le_add_right _ _

theorem byteLength_pos {text : List Char} (h : text ≠ []) : 0 < byteLength text := by
  cases text with
  | nil => exact absurd rfl h
  | cons c text => exact Nat.lt_of_lt_of_le c.utf8Size_pos (utf8Size_le_byteLength c text)

theorem dropBytes?_append (before rest : List Char) :
    dropBytes? (byteLength before) (before ++ rest) = some rest := by
  induction before with
  | nil =>
    rw [byteLength_nil, List.nil_append]
    cases rest <;> rfl
  | cons c before ih =>
    obtain ⟨n, hn⟩ := Nat.exists_eq_add_of_lt (byteLength_pos (List.cons_ne_nil c before))
    have hle := utf8Size_le_byteLength c before
    rw [Nat.zero_add] at hn
    rw [hn] at hle ⊢
    rw [List.cons_append, dropBytes?, if_pos hle, ← hn, byteLength_cons, Nat.add_sub_cancel_left,
      ih]

theorem takeBytesOnto?_append (taken piece rest : List Char) :
    takeBytesOnto? taken (byteLength piece) (piece ++ rest) = some (taken.reverse ++ piece) := by
  induction piece generalizing taken with
  | nil =>
    rw [byteLength_nil, List.nil_append, List.append_nil]
    cases rest <;> rfl
  | cons c piece ih =>
    obtain ⟨n, hn⟩ := Nat.exists_eq_add_of_lt (byteLength_pos (List.cons_ne_nil c piece))
    have hle := utf8Size_le_byteLength c piece
    rw [Nat.zero_add] at hn
    rw [hn] at hle ⊢
    rw [List.cons_append, takeBytesOnto?, if_pos hle, ← hn, byteLength_cons,
      Nat.add_sub_cancel_left, ih, List.reverse_cons, List.append_assoc, List.singleton_append]

theorem slice?_append (before piece rest : List Char) :
    slice? (before ++ piece ++ rest) (byteLength before) (byteLength (before ++ piece)) =
      some piece := by
  have hlength : byteLength (before ++ piece) - byteLength before = byteLength piece := by
    rw [byteLength_append, Nat.add_sub_cancel_left]
  have hle : byteLength before ≤ byteLength (before ++ piece) := by
    rw [byteLength_append]
    exact Nat.le_add_right _ _
  rw [slice?, if_pos hle, hlength, List.append_assoc, dropBytes?_append, Option.bind_some]
  exact takeBytesOnto?_append [] piece rest

end Text

namespace Lexicon

variable {source before text piece after gap behind : List Char} {tokens : List Token} {role : Role}
  {offset : Nat} {found : Array Token}

/-! ## Blanks and comments -/

/-- The text is at its end or at the end of a line. -/
def LineEnds (text : List Char) : Prop := ∀ c rest, text = c :: rest → c = '\n'

/-- Nothing but blanks and comments stands before `behind`. A comment takes the rest of its line,
so that it is the last thing there and `behind` goes on with a newline, if at all. -/
inductive Gap (behind : List Char) : List Char → Prop where
  | nil : Gap behind []
  | blank {c : Char} {rest : List Char} :
      c ∈ [' ', '\t', '\r'] → Gap behind rest → Gap behind (c :: rest)
  | comment {text : List Char} :
      '\n' ∉ text → LineEnds behind → Gap behind (['/', '/'] ++ text)

/-- A gap does not begin with a newline. -/
theorem Gap.not_newline {c : Char} {rest : List Char} (h : Gap behind (c :: rest)) : c ≠ '\n' := by
  generalize htext : c :: rest = text at h
  cases h with
  | nil => cases htext
  | blank hc _ =>
    obtain ⟨rfl, -⟩ := List.cons.inj htext
    rintro rfl
    exact absurd hc (by decide)
  | comment _ _ =>
    obtain ⟨rfl, -⟩ := List.cons.inj htext
    decide

/-- A gap before a gap is one gap: behind a comment there is no second one. -/
theorem Gap.append (h : Gap (text ++ behind) gap) (h' : Gap behind text) :
    Gap behind (gap ++ text) := by
  induction h with
  | nil => exact h'
  | blank hc _ ih => exact .blank hc ih
  | comment hline hends =>
    cases text with
    | nil =>
      rw [List.append_nil]
      exact .comment hline hends
    | cons c rest => exact absurd (hends c _ rfl) h'.not_newline

theorem gap_of_blanks (h : ∀ c ∈ text, c ∈ [' ', '\t', '\r']) : Gap behind text := by
  induction text with
  | nil => exact .nil
  | cons c rest ih =>
    exact .blank (h c List.mem_cons_self) (ih fun d hd => h d (List.mem_cons_of_mem _ hd))

/-- Blanks and comments have one rule each. -/
theorem describes_gap {rule : Rule} (h : rule ∈ gapRules) :
    Describes piece rule.role ↔ rule.pattern.Matches piece := by
  have honly : ∀ gap ∈ gapRules, gap ∈ rules ∧
      ∀ other ∈ rules, other.role = gap.role → other.pattern = gap.pattern := by decide
  obtain ⟨hrule, hunique⟩ := honly rule h
  constructor
  · rintro ⟨other, hother, hrole, hmatch⟩
    rwa [hunique other hother hrole] at hmatch
  · exact fun hmatch => ⟨rule, hrule, rfl, hmatch⟩

theorem describes_blanks :
    Describes piece .blanks ↔ (anyOf [' ', '\t', '\r']).oneOrMore.Matches piece :=
  describes_gap List.mem_cons_self

/-- A comment is two slashes and characters of the same line. -/
theorem describes_comment :
    Describes piece .comment ↔ ∃ line, piece = ['/', '/'] ++ line ∧ '\n' ∉ line := by
  have hline (line : List Char) : (Pattern.many onLine).Matches line ↔ '\n' ∉ line := by
    rw [onLine, Pattern.matches_many_one]
    simp only [Pattern.contains_noneOf, List.mem_singleton]
    exact ⟨fun h hmem => h _ hmem rfl, fun h c hc heq => h (heq ▸ hc)⟩
  have hrule : ⟨.followed (.exactly "//") (.many onLine), .comment⟩ ∈ gapRules :=
    List.mem_cons_of_mem _ List.mem_cons_self
  rw [describes_gap hrule, Pattern.matches_after]
  simp only [hline]
  rfl

/-- The longest comment goes on to the end of its line. -/
theorem lineEnds_of_longest (h : Longest (piece ++ behind) piece .comment) : LineEnds behind := by
  rintro c rest rfl
  by_contra hc
  obtain ⟨line, rfl, hline⟩ := describes_comment.1 h.described
  have hlonger : Describes (['/', '/'] ++ (line ++ [c])) .comment :=
    describes_comment.2 ⟨line ++ [c], rfl, by simp [hline, Ne.symm hc]⟩
  have hprefix : ['/', '/'] ++ (line ++ [c]) <+: ['/', '/'] ++ line ++ c :: rest :=
    ⟨rest, by simp⟩
  have hlength := h.most _ _ hprefix hlonger
  rw [← List.append_assoc, List.length_append, List.length_singleton] at hlength
  exact Nat.not_succ_le_self _ hlength

/-- What is dropped is blanks or a comment, and a comment goes on to the end of its line. -/
theorem gap_of_longest (h : Longest (piece ++ behind) piece role)
    (hrole : role = .blanks ∨ role = .comment) : Gap behind piece := by
  rcases hrole with rfl | rfl
  · obtain ⟨s, t, rfl, hs, ht⟩ := Pattern.matches_followed.1 (describes_blanks.1 h.described)
    cases hs with
    | one hc =>
      refine gap_of_blanks fun d hd => ?_
      rcases List.mem_cons.1 hd with rfl | hd
      · exact Pattern.contains_oneOf.1 hc
      · exact Pattern.contains_oneOf.1 (Pattern.matches_many_one.1 ht d hd)
  · obtain ⟨line, rfl, hline⟩ := describes_comment.1 h.described
    exact .comment hline (lineEnds_of_longest h)

/-! ## Cutting off the longest pieces -/

/-- The token of a piece that begins at byte `offset`. -/
def cut (kind : TokenKind) (offset : Nat) (piece : List Char) : Token :=
  ⟨kind, String.ofList piece, ⟨offset, offset + byteLength piece⟩⟩

/-- A text that begins at byte `offset` and goes on with `after` is cut into the longest pieces
at their places; the tokens among them are these. -/
inductive Scans (after : List Char) : Nat → List Char → List Token → Prop where
  | done {offset : Nat} : Scans after offset [] []
  | gap {offset : Nat} {piece text : List Char} {tokens : List Token} {role : Role} :
      Longest (piece ++ text ++ after) piece role → role = .blanks ∨ role = .comment →
      Scans after (offset + byteLength piece) text tokens →
      Scans after offset (piece ++ text) tokens
  | token {offset : Nat} {piece text : List Char} {tokens : List Token} {kind : TokenKind} :
      Longest (piece ++ text ++ after) piece (.token kind) →
      Scans after (offset + byteLength piece) text tokens →
      Scans after offset (piece ++ text) (cut kind offset piece :: tokens)

/-- The pieces are the same if nothing comes behind them. -/
theorem Scans.alone (h : Scans after offset text tokens) : Scans [] offset text tokens := by
  have hshorten {piece text : List Char} {role : Role}
      (hlongest : Longest (piece ++ text ++ after) piece role) :
      Longest (piece ++ text ++ []) piece role := by
    rw [List.append_nil]
    exact hlongest.shorten (List.prefix_append _ _) (List.prefix_append _ _)
  induction h with
  | done => exact .done
  | gap hlongest hrole _ ih => exact .gap (hshorten hlongest) hrole ih
  | token hlongest _ ih => exact .token (hshorten hlongest) ih

/-- Pieces can be cut off up to a place where the text ends or no rule describes anything. -/
theorem exists_scans (offset : Nat) (text : List Char) :
    ∃ front after tokens, text = front ++ after ∧ Scans after offset front tokens ∧
      (after = [] ∨ Stuck after) := by
  cases hmunch : munch? text with
  | none => exact ⟨[], text, [], rfl, .done, .inr (munch?_none.1 hmunch)⟩
  | some found =>
    obtain ⟨hlongest, -⟩ := longest_of_munch? hmunch
    obtain ⟨rest, hrest⟩ := hlongest.start
    have hpos := List.length_pos_iff.2 hlongest.described.ne_nil
    generalize text.take found.1 = piece at hlongest hrest hpos
    subst hrest
    obtain ⟨front, after, tokens, rfl, hscans, hend⟩ :=
      exists_scans (offset + byteLength piece) rest
    rw [← List.append_assoc] at hlongest
    obtain ⟨_, _ | _ | kind⟩ := found
    · exact ⟨_, after, _, (List.append_assoc ..).symm, .gap hlongest (.inl rfl) hscans, hend⟩
    · exact ⟨_, after, _, (List.append_assoc ..).symm, .gap hlongest (.inr rfl) hscans, hend⟩
    · exact ⟨_, after, _, (List.append_assoc ..).symm, .token hlongest hscans, hend⟩
termination_by text.length
decreasing_by
  rw [← hrest, List.length_append]
  omega

/-! ## The scan -/

theorem pieceSpan_eq (h : offset + byteLength piece < Span.offsetLimit) :
    pieceSpan offset piece = .ok ⟨offset, offset + byteLength piece⟩ := by
  unfold pieceSpan Span.ofRange
  rw [if_neg (by omega), if_neg (by omega)]

/-- The characters of the piece taken last are passed. -/
theorem scanFrom_pass (offset : Nat) (found : Array Token) (piece rest : List Char) :
    scanFrom offset piece.length found (piece ++ rest) =
      scanFrom (offset + byteLength piece) 0 found rest := by
  induction piece generalizing offset with
  | nil => rfl
  | cons c piece ih =>
    rw [List.length_cons, List.cons_append, scanFrom, ih, Text.byteLength_cons, Nat.add_assoc]

/-- What is found when a piece is taken. -/
def keep (found : Array Token) (role : Role) (offset : Nat) (piece : List Char) : Array Token :=
  match role with
  | .token kind => found.push (cut kind offset piece)
  | _ => found

/-- The scan takes the longest piece and goes on behind it. -/
theorem scanFrom_take {rest : List Char} (hlongest : Longest (piece ++ rest) piece role)
    (hlimit : offset + byteLength piece < Span.offsetLimit) :
    scanFrom offset 0 found (piece ++ rest) =
      scanFrom (offset + byteLength piece) 0 (keep found role offset piece) rest := by
  have hspan := pieceSpan_eq hlimit
  have hmunch := munch?_of_longest hlongest
  have hpiece : (piece ++ rest).take piece.length = piece := List.take_left
  cases piece with
  | nil => exact absurd rfl hlongest.described.ne_nil
  | cons c piece =>
    rw [List.cons_append] at hmunch hpiece ⊢
    have hpass (found : Array Token) : scanFrom (offset + c.utf8Size) piece.length found
        (piece ++ rest) = scanFrom (offset + byteLength (c :: piece)) 0 found rest := by
      rw [scanFrom_pass, Text.byteLength_cons, Nat.add_assoc]
    rw [scanFrom, hmunch]
    cases role with
    | blanks => exact hpass found
    | comment =>
      dsimp only
      rw [hpiece, hspan]
      exact hpass found
    | token kind =>
      dsimp only
      rw [hpiece, hspan]
      exact hpass _

/-- The scan finds the tokens among the longest pieces. -/
theorem scanFrom_scans (found : Array Token) (h : Scans after offset text tokens)
    (hlimit : offset + byteLength text < Span.offsetLimit) :
    scanFrom offset 0 found (text ++ after) =
      scanFrom (offset + byteLength text) 0 (found ++ tokens.toArray) after := by
  induction h generalizing found with
  | done => simp
  | @gap offset piece text tokens role hlongest hrole _ ih =>
    rw [Text.byteLength_append, ← Nat.add_assoc] at hlimit ⊢
    have hkeep : keep found role offset piece = found := by rcases hrole with rfl | rfl <;> rfl
    rw [List.append_assoc] at hlongest ⊢
    rw [scanFrom_take hlongest (by omega), ih _ hlimit, hkeep]
  | @token offset piece text tokens kind hlongest _ ih =>
    rw [Text.byteLength_append, ← Nat.add_assoc] at hlimit ⊢
    rw [List.append_assoc] at hlongest ⊢
    rw [scanFrom_take hlongest (by omega), ih _ hlimit]
    simp [keep]

/-- A source that can be cut up to its end is accepted. -/
theorem tokenize_of_scans (h : Scans [] 0 source tokens)
    (hlimit : byteLength source < Span.offsetLimit) :
    tokenize source = .ok ⟨tokens.toArray, ⟨.eof, "", ⟨byteLength source, byteLength source⟩⟩⟩ := by
  have hscan := scanFrom_scans #[] h (by omega)
  rw [List.append_nil, Nat.zero_add, Array.empty_append] at hscan
  unfold tokenize TokenList.close Span.ofRange
  rw [hscan, if_neg (by omega), if_neg (by omega)]
  rfl

/-- A source that can be cut up to a place where no rule describes anything is refused there. -/
theorem tokenize_of_stuck (h : Scans after 0 before tokens) (hafter : after ≠ [])
    (hstuck : Stuck after) (hlimit : byteLength (before ++ after) < Span.offsetLimit) :
    ∃ n, tokenize (before ++ after) = .error ⟨.unrecognized (after.take n),
      some ⟨byteLength before, byteLength before + byteLength (after.take n)⟩⟩ := by
  rw [Text.byteLength_append] at hlimit
  have hscan := scanFrom_scans #[] h (by omega)
  have hpiece : byteLength (after.take (blamed after)) ≤ byteLength after := by
    conv_rhs => rw [← List.take_append_drop (blamed after) after, Text.byteLength_append]
    exact Nat.le_add_right _ _
  refine ⟨blamed after, ?_⟩
  unfold tokenize
  rw [hscan]
  cases after with
  | nil => exact absurd rfl hafter
  | cons c rest =>
    rw [scanFrom, munch?_none.2 hstuck]
    dsimp only
    rw [pieceSpan_eq (by omega), Nat.zero_add]
    rfl

/-- The tokens of a text that is cut up to its end are the only ones. -/
theorem Scans.unique {other : List Token} (h : Scans [] 0 source tokens)
    (h' : Scans [] 0 source other) (hlimit : byteLength source < Span.offsetLimit) :
    tokens = other := by
  have heq := (tokenize_of_scans h hlimit).symm.trans (tokenize_of_scans h' hlimit)
  simpa using heq

/-! ## Where the tokens stand -/

/-- Every token among the pieces is the longest piece at its place. -/
theorem Scans.mem (before : List Char) (h : Scans after (byteLength before) text tokens) :
    ∀ x ∈ tokens, ∃ front piece rest kind, before ++ text ++ after = front ++ piece ++ rest ∧
      x = cut kind (byteLength front) piece ∧ Longest (piece ++ rest) piece (.token kind) := by
  generalize hoffset : byteLength before = offset at h
  induction h generalizing before with
  | done => exact nofun
  | @gap offset piece text tokens role _ _ _ ih =>
    subst hoffset
    rw [← List.append_assoc before]
    exact ih _ (Text.byteLength_append _ _)
  | @token offset piece text tokens kind hlongest _ ih =>
    subst hoffset
    intro x hx
    rcases List.mem_cons.1 hx with rfl | hx
    · rw [List.append_assoc] at hlongest
      refine ⟨before, piece, text ++ after, kind, ?_, rfl, hlongest⟩
      simp only [List.append_assoc]
    · rw [← List.append_assoc before]
      exact ih _ (Text.byteLength_append _ _) x hx

/-- Each token stands behind the one before it, the first one behind byte `stop`, with nothing but
blanks and comments in between, none of which reaches over the token. -/
def Spaced (source : List Char) : Nat → List Token → Prop
  | _, [] => True
  | stop, x :: rest =>
    (∃ gap behind, Text.slice? source stop x.span.start = some gap ∧
      Text.dropBytes? x.span.start source = some behind ∧ Gap behind gap) ∧
      Spaced source x.span.stop rest

/-- Pieces that are cut off behind a gap leave only gaps between the tokens and up to their end. -/
theorem Scans.spaced (before gap : List Char)
    (h : Scans after (byteLength (before ++ gap)) text tokens) (hgap : Gap (text ++ after) gap)
    (hsource : source = before ++ gap ++ text ++ after) {last : Token}
    (hlast : last.span.start = byteLength (before ++ gap ++ text)) :
    Spaced source (byteLength before) (tokens ++ [last]) := by
  generalize hoffset : byteLength (before ++ gap) = offset at h
  induction h generalizing before gap with
  | done =>
    rw [List.append_nil] at hsource hlast
    refine ⟨⟨gap, after, ?_, ?_, hgap⟩, trivial⟩
    · rw [hsource, hlast]
      exact Text.slice?_append before gap after
    · rw [hsource, hlast]
      exact Text.dropBytes?_append (before ++ gap) after
  | @gap offset piece text tokens role hlongest hrole _ ih =>
    subst hoffset
    rw [List.append_assoc] at hgap hlongest
    refine ih before (gap ++ piece) (hgap.append (gap_of_longest hlongest hrole)) ?_ ?_ ?_
    · rw [hsource]
      simp only [List.append_assoc]
    · rw [hlast]
      simp only [List.append_assoc]
    · rw [← List.append_assoc, Text.byteLength_append _ piece]
  | @token offset piece text tokens kind hlongest _ ih =>
    subst hoffset
    refine ⟨⟨gap, piece ++ text ++ after, ?_, ?_, hgap⟩, ?_⟩
    · rw [hsource, List.append_assoc]
      exact Text.slice?_append before gap _
    · rw [hsource, List.append_assoc]
      exact Text.dropBytes?_append (before ++ gap) _
    · have hstop : (cut kind (byteLength (before ++ gap)) piece).span.stop =
          byteLength (before ++ gap ++ piece) := (Text.byteLength_append _ _).symm
      rw [hstop]
      refine ih (before ++ gap ++ piece) [] .nil ?_ ?_ ?_
      · rw [hsource]
        simp only [List.append_assoc, List.nil_append]
      · rw [hlast]
        simp only [List.append_assoc, List.nil_append]
      · rw [List.append_nil, Text.byteLength_append _ piece]

/-- The tokens are those among the longest pieces that the source is cut into: they are the source
but for blanks and comments, each of them the longest piece that a rule describes where it
begins. -/
structure Lossless (source : List Char) (tokens : TokenList) : Prop where
  scans : Scans [] 0 source tokens.body.toList
  pieces : ∀ x ∈ tokens.toList,
    Text.slice? source x.span.start x.span.stop = some x.text.toList
  nonempty : ∀ x ∈ tokens.body, x.text ≠ "" ∧ x.span.start < x.span.stop
  ordered : tokens.toList.Pairwise fun x y => x.span.stop ≤ y.span.start
  spaced : Spaced source 0 tokens.toList
  longest : ∀ x ∈ tokens.body, ∃ rest, Text.dropBytes? x.span.start source = some rest ∧
    Longest rest x.text.toList (.token x.kind)
  last : tokens.last = ⟨.eof, "", ⟨byteLength source, byteLength source⟩⟩
  only : ∀ x ∈ tokens.body, x.kind ≠ .eof

/-- No rule describes a start of what begins at byte `start`; the tokens before are those of the
text before, which is accepted. -/
def RefusedAt (source : List Char) (start : Nat) : Prop :=
  ∃ before after found, source = before ++ after ∧ byteLength before = start ∧
    after ≠ [] ∧ Stuck after ∧ tokenize before = .ok found ∧
    ∀ tokens, Scans after 0 before tokens ↔ tokens = found.body.toList

theorem lossless_of_scans (h : Scans [] 0 source tokens)
    (hlimit : byteLength source < Span.offsetLimit) :
    Lossless source ⟨tokens.toArray, ⟨.eof, "", ⟨byteLength source, byteLength source⟩⟩⟩ := by
  have htokenize := tokenize_of_scans h hlimit
  have hplaces : ∀ x ∈ tokens, ∃ front piece rest kind, source = front ++ piece ++ rest ∧
      x = cut kind (byteLength front) piece ∧ Longest (piece ++ rest) piece (.token kind) := by
    have hmem := Scans.mem [] h
    rwa [List.nil_append, List.append_nil] at hmem
  refine ⟨h, ?_, ?_, (tokenize_laid htokenize).1.ordered, ?_, ?_, rfl,
    (tokenize_eof htokenize).1⟩
  · intro x hx
    rcases List.mem_append.1 hx with hx | hx
    · obtain ⟨front, piece, rest, kind, rfl, rfl, -⟩ := hplaces x hx
      have hslice := Text.slice?_append front piece rest
      rw [Text.byteLength_append] at hslice
      simpa [cut] using hslice
    · rw [List.mem_singleton.1 hx]
      have hslice := Text.slice?_append source [] []
      rwa [List.append_nil, List.append_nil] at hslice
  · intro x hx
    obtain ⟨front, piece, rest, kind, -, rfl, hlongest⟩ := hplaces x (by simpa using hx)
    have hpos := Text.byteLength_pos hlongest.described.ne_nil
    refine ⟨fun hempty => hlongest.described.ne_nil ?_, Nat.lt_add_of_pos_right hpos⟩
    have hchars := congrArg String.toList hempty
    simpa [cut] using hchars
  · exact Scans.spaced [] [] h .nil (by simp) (by simp)
  · intro x hx
    obtain ⟨front, piece, rest, kind, rfl, rfl, hlongest⟩ := hplaces x (by simpa using hx)
    refine ⟨piece ++ rest, ?_, ?_⟩
    · rw [List.append_assoc]
      exact Text.dropBytes?_append front _
    · simpa [cut] using hlongest

/-- A source of fewer bytes than there are offsets is cut into its longest pieces without loss, or
is refused at the first place where no rule describes anything. -/
theorem scanning_lossless (source : List Char) (hlimit : byteLength source < Span.offsetLimit) :
    (∀ tokens, tokenize source = .ok tokens → Lossless source tokens) ∧
    ∀ fault, tokenize source = .error fault →
      ∃ span, fault.span = some span ∧ RefusedAt source span.start := by
  obtain ⟨before, after, found, rfl, hscans, hend⟩ := exists_scans 0 source
  by_cases hafter : after = []
  · subst hafter
    rw [List.append_nil] at hlimit ⊢
    have htokenize := tokenize_of_scans hscans hlimit
    refine ⟨fun tokens h => ?_, fun fault h => ?_⟩
    · obtain rfl := Except.ok.inj (htokenize.symm.trans h)
      exact lossless_of_scans hscans hlimit
    · rw [htokenize] at h
      cases h
  · have hstuck := hend.resolve_left hafter
    obtain ⟨n, htokenize⟩ := tokenize_of_stuck hscans hafter hstuck hlimit
    refine ⟨fun tokens h => ?_, fun fault h => ?_⟩
    · rw [htokenize] at h
      cases h
    · obtain rfl := Except.error.inj (htokenize.symm.trans h)
      have hbefore : byteLength before < Span.offsetLimit := by
        rw [Text.byteLength_append] at hlimit
        omega
      refine ⟨_, rfl, before, after, _, rfl, rfl, hafter, hstuck,
        tokenize_of_scans hscans.alone hbefore, fun tokens => ⟨fun h => ?_, ?_⟩⟩
      · exact h.alone.unique hscans.alone hbefore
      · rintro rfl
        exact hscans

/-- A definition is cut without loss, and a sign that begins nothing is refused where it stands. -/
theorem scanning_lossless_definition :
    byteLength "x :: 1 // one".toList < Span.offsetLimit ∧
    Lossless "x :: 1 // one".toList
      ⟨#[cut .name 0 ['x'], cut .declare 2 [':', ':'], cut .decimal 5 ['1']],
        ⟨.eof, "", ⟨13, 13⟩⟩⟩ ∧
    byteLength "if $".toList < Span.offsetLimit ∧ RefusedAt "if $".toList 3 := by
  refine ⟨by decide, ?_, by decide, ?_⟩
  · exact (scanning_lossless _ (by decide)).1 _ (by decide +kernel)
  · obtain ⟨span, hspan, hrefused⟩ := (scanning_lossless "if $".toList (by decide)).2
      ⟨.unrecognized ['$'], some ⟨3, 4⟩⟩ (by decide +kernel)
    obtain rfl := Option.some.inj hspan
    exact hrefused

/-- A name that begins with a keyword is a name. -/
example : munch? "format".toList = some (6, .token .name) := by decide +kernel

end Lexicon

end OnePass

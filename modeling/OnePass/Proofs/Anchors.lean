import OnePass.Proofs.Faults
import OnePass.Proofs.Lookahead
import OnePass.Proofs.Scanning

/-!
# Anchors of faults

Every fault of a source that is not too long has a place in it. The scanner blames characters of
the source, and what the grammar blames is a token or spans that are merged of those of tokens: a
source is read twice at once, where the spans of the second reading have to be those of pieces of
the source (`Places.cutting`), and so is the place of the fault that ends it. The report then shows
the place, and the kind of the trouble agrees with the part that noticed it
(`Diagnostic.Agrees`).
-/

namespace OnePass

open Text (byteLength)

variable {source : List Char} {fault : Fault} {cause : Cause} {a b : Span}

/-! ## Spans of pieces -/

theorem IsBoundary.min {i j : Nat} (hi : IsBoundary source i) (hj : IsBoundary source j) :
    IsBoundary source (min i j) := by
  rcases Nat.le_total i j with h | h
  · rwa [Nat.min_eq_left h]
  · rwa [Nat.min_eq_right h]

theorem IsBoundary.max {i j : Nat} (hi : IsBoundary source i) (hj : IsBoundary source j) :
    IsBoundary source (max i j) := by
  rcases Nat.le_total i j with h | h
  · rwa [Nat.max_eq_right h]
  · rwa [Nat.max_eq_left h]

theorem Span.Cuts.merge (ha : a.Cuts source) (hb : b.Cuts source) : (a.merge b).Cuts source where
  start := ha.start.min hb.start
  le := Nat.le_trans (Nat.min_le_left _ _) (Nat.le_trans ha.le (Nat.le_max_left _ _))
  stop := ha.stop.max hb.stop

/-- The spans of a second reading are those of pieces of the source. -/
def Places.cutting (source : List Char) : Places where
  alike _ b := b.Cuts source
  total _ := by
    have hstart : IsBoundary source 0 := ⟨[], source, rfl, rfl⟩
    exact ⟨⟨0, 0⟩, hstart, Nat.le_refl 0, hstart⟩
  merge := Span.Cuts.merge

/-! ## Places of faults -/

namespace Grammar

/-- A fault of some tokens lies where they lie. -/
theorem parse_cuts {tokens : TokenList} (hclosed : tokens.last.kind = .eof)
    (hcuts : ∀ x ∈ tokens.toList, x.span.Cuts source) (h : parse tokens = .error fault) :
    ∃ span, fault.span = some span ∧ span.Cuts source := by
  obtain ⟨k, s, hrun, -⟩ := parse_error.1 h
  have halike (k : Nat) : tokens.Alike (.cutting source) k tokens := fun i _ =>
    ⟨rfl, rfl, hcuts _ (tokens.get_mem i)⟩
  have htwin := program_twin (halike _) hclosed hclosed (Nat.le_refl _)
  have hends := program_ends hclosed
  have hsame : program (.initial tokens) =
      programWith (level (fuel tokens.size)) (.initial tokens) := program_run _
  rw [← hsame, hrun] at htwin
  rw [hrun] at hends
  obtain ⟨fault', s', hrun', hfault, -⟩ := htwin hends
  obtain ⟨rfl, -⟩ := EStateM.Result.error.inj hrun'
  obtain ⟨_, _, span, -, hspan, hlies⟩ := hfault
  exact ⟨span, hspan, hlies⟩

end Grammar

/-- A source that is not too long is refused by the scanner for characters that start no token. -/
theorem Lexicon.tokenize_unrecognized (hlimit : byteLength source < Span.offsetLimit)
    (h : tokenize source = .error fault) :
    ∃ text span, fault = ⟨.unrecognized text, some span⟩ ∧ span.Cuts source := by
  obtain ⟨before, after, found, rfl, hscans, hend⟩ := exists_scans 0 source
  by_cases hafter : after = []
  · subst hafter
    rw [List.append_nil] at hlimit h
    rw [tokenize_of_scans hscans hlimit] at h
    cases h
  · have hstuck := hend.resolve_left hafter
    obtain ⟨n, herror⟩ := tokenize_of_stuck hscans hafter hstuck hlimit
    rw [herror] at h
    cases h
    exact ⟨_, _, rfl, cuts_take rfl n⟩

/-! ## Kinds and categories -/

/-- The kind of the trouble agrees with the part of the front end that noticed it. -/
structure Diagnostic.Agrees (d : Diagnostic) : Prop where
  lexical : d.kind = .lexical ↔ d.category.label = "scanner error"
  capacity : d.kind = .capacity ↔ d.category.label = "frame error"
  other : d.kind = .syntactic ∨ d.kind = .resolution ∨ d.kind = .typing ↔
    d.category.label = "parser error"

/-- The kinds of trouble that a part of the front end notices in a source that is not too long. -/
def Diagnostic.Category.notices : Diagnostic.Category → List Diagnostic.Kind
  | .parser => [.syntactic, .resolution, .typing]
  | .scanner => [.lexical]
  | .frame => [.capacity]
  | .arena => []

theorem Diagnostic.agrees_of_notices {d : Diagnostic} (h : d.kind ∈ d.category.notices) :
    d.Agrees := by
  obtain ⟨category, kind, span, description, message⟩ := d
  dsimp only at h
  cases category with
  | parser =>
    simp only [Category.notices, List.mem_cons, List.not_mem_nil, or_false] at h
    rcases h with rfl | rfl | rfl <;> constructor <;> simp [Category.label]
  | scanner | frame =>
    obtain rfl := List.mem_singleton.1 h
    constructor <;> simp [Category.label]
  | arena => cases h

theorem Cause.notices_of_grammatical (h : cause.grammatical = true) :
    cause.kind ∈ cause.category.notices := by
  cases cause with
  | offsetTooLarge | missingHandle | endlessType | outOfFuel => cases h
  | unrecognized => exact .head _
  | stack error =>
    cases error with
    | arena => cases h
    | _ => exact .head _
  | _ => first | exact .head _ | exact .tail _ (.head _) | exact .tail _ (.tail _ (.head _))

/-! ## Reports -/

/-- A diagnostic that shows its place in the source. -/
structure Diagnostic.Anchored (d : Diagnostic) (source : List Char) : Prop extends d.Agrees where
  place : ∃ span, d.span = some span ∧ span.Cuts source ∧ span.stop ≤ byteLength source ∧
    d.message = Snippet.render source span d.description

theorem Fault.report_anchored {span : Span} (hspan : fault.span = some span)
    (hcuts : span.Cuts source) (hagrees : fault.cause.kind ∈ fault.cause.category.notices) :
    (fault.report source).Anchored source := by
  have hreport : fault.report source =
      .anchored fault.cause.kind fault.cause.category source span fault.cause.description := by
    unfold Fault.report
    rw [hspan]
    rfl
  rw [hreport]
  exact ⟨Diagnostic.agrees_of_notices hagrees, span, rfl, hcuts, hcuts.stop.le, rfl⟩

/-- Whatever a source of less than `2 ^ 32` bytes is refused for, its report shows the place, and
the kind of the trouble agrees with the part of the front end that noticed it. -/
theorem Grammar.faults_anchored {source : String}
    (hlimit : byteLength source.toList < Span.offsetLimit) (h : parseSource source = .error fault) :
    (fault.report source.toList).Anchored source.toList := by
  unfold parseSource at h
  cases htokens : Lexicon.tokenize source.toList with
  | error found =>
    rw [htokens] at h
    cases h
    obtain ⟨text, span, rfl, hcuts⟩ := Lexicon.tokenize_unrecognized hlimit htokens
    exact Fault.report_anchored rfl hcuts (.head _)
  | ok tokens =>
    rw [htokens] at h
    have hclosed := (Lexicon.tokenize_eof htokens).2
    obtain ⟨span, hspan, hcuts⟩ := parse_cuts hclosed (Lexicon.tokenize_laid htokens).1.cuts h
    have hgrammatical := parse_grammatical hclosed h
    exact Fault.report_anchored hspan hcuts (Cause.notices_of_grammatical hgrammatical)

/-- A character of a string that is left open is blamed, and the end of a source inside
parentheses. -/
theorem Grammar.faults_anchored_ends :
    (∃ fault, parseSource "x := \"" = .error fault ∧
      (fault.report "x := \"".toList).Anchored "x := \"".toList) ∧
    ∃ fault, parseSource "(1" = .error fault ∧
      (fault.report "(1".toList).Anchored "(1".toList := by
  have hopen : refusal? "x := \"" = some ⟨.unrecognized ['"'], some ⟨5, 6⟩⟩ := by decide +kernel
  have hend : refusal? "(1" = some ⟨.expected {.closeParen} .eof, some ⟨2, 2⟩⟩ := by
    decide +kernel
  have hopen := refusal?_eq_some.1 hopen
  have hend := refusal?_eq_some.1 hend
  exact ⟨⟨_, hopen, faults_anchored (by decide) hopen⟩, ⟨_, hend, faults_anchored (by decide) hend⟩⟩

end OnePass

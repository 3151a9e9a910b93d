import OnePass.Proofs.Layout
import OnePass.Proofs.Scanning

/-!
# Words and blanks

A word is a text that is a token of one kind when it stands alone (`Lexicon.Word`). No longer text
begins with a word and a blank: of the rules whose texts may hold a blank, two describe what no
word begins with, and the others describe literals, which end at their closing quote
(`quotedLiteral_ends`). So what is taken at the start of a word before a blank is just the word
(`Word.longest`), whatever comes behind the blank, and words with a blank between any two of them
are cut into these words again (`scans_spelt`).

The tokens of a source are words. Written with single blanks between them they are read back with
the same kinds and texts, unless there is no room for the blanks (`respacing_stable`).
-/

namespace OnePass

open Text (byteLength)

namespace Lexicon

variable {source text piece after s t : List Char} {c d quote : Char} {kind : TokenKind}
  {role : Role} {tokens : TokenList} {words : List Token} {offset : Nat}

/-! ## Literals end at their closing quote -/

/-- A text of many elements is empty, or goes on after a plain character or an escape. -/
theorem elements_cases (h : (Pattern.many (quotedElement quote)).Matches text) :
    text = [] ∨
      (∃ c rest, text = c :: rest ∧ c ≠ quote ∧ c ≠ '\\' ∧
        (Pattern.many (quotedElement quote)).Matches rest) ∨
      ∃ c rest, text = '\\' :: c :: rest ∧ (Pattern.many (quotedElement quote)).Matches rest := by
  cases text with
  | nil => exact .inl rfl
  | cons c text =>
    obtain ⟨s, rest, rfl, hs, hrest⟩ := Pattern.matches_many_cons.1 h
    rcases Pattern.matches_either.1 hs with hplain | hescape
    · cases hplain with
      | one hc =>
        have hc := Pattern.contains_noneOf.1 hc
        refine .inr (.inl ⟨c, rest, rfl, ?_, ?_, hrest⟩)
        · rintro rfl
          exact hc List.mem_cons_self
        · rintro rfl
          exact hc (List.mem_cons_of_mem _ List.mem_cons_self)
    · obtain ⟨a, b, heq, ha, hb⟩ := Pattern.matches_followed.1 hescape
      cases ha with
      | one ha =>
        cases hb with
        | @one _ d _ =>
          obtain ⟨rfl, rfl⟩ := List.cons.inj heq
          obtain rfl : c = '\\' := List.mem_singleton.1 (Pattern.contains_oneOf.1 ha)
          exact .inr (.inr ⟨d, rest, rfl, hrest⟩)

/-- Elements that are followed by the quote are all the elements there are before it. -/
theorem elements_end {s t : List Char} (hquote : quote ≠ '\\')
    (hs : (Pattern.many (quotedElement quote)).Matches s)
    (ht : (Pattern.many (quotedElement quote)).Matches t)
    (h : s ++ quote :: after = t ++ [quote]) :
    after = [] := by
  rcases elements_cases hs with rfl | ⟨c, s', rfl, hc, hc', hs'⟩ | ⟨c, s', rfl, hs'⟩ <;>
    rcases elements_cases ht with rfl | ⟨d, t', rfl, hd, hd', ht'⟩ | ⟨d, t', rfl, ht'⟩
  · exact (List.cons.inj h).2
  · exact absurd (List.cons.inj h).1.symm hd
  · exact absurd (List.cons.inj h).1 hquote
  · exact absurd (List.cons.inj h).1 hc
  · exact elements_end hquote hs' ht' (List.cons.inj h).2
  · exact absurd (List.cons.inj h).1 hc'
  · exact absurd (List.cons.inj h).1.symm hquote
  · exact absurd (List.cons.inj h).1.symm hd'
  · exact elements_end hquote hs' ht' (List.cons.inj (List.cons.inj h).2).2
termination_by s.length

/-- A literal is a quote, elements and the quote again. -/
theorem quotedLiteral_parts (h : (quotedLiteral quote).Matches text) :
    ∃ body, text = quote :: (body ++ [quote]) ∧
      (Pattern.many (quotedElement quote)).Matches body := by
  obtain ⟨a, rest, rfl, ha, hrest⟩ := Pattern.matches_followed.1 h
  obtain ⟨body, b, rfl, hbody, hb⟩ := Pattern.matches_followed.1 hrest
  cases ha with
  | one ha =>
    cases hb with
    | one hb =>
      rw [List.mem_singleton.1 (Pattern.contains_oneOf.1 ha),
        List.mem_singleton.1 (Pattern.contains_oneOf.1 hb)]
      exact ⟨body, rfl, hbody⟩

/-- No literal is the start of a longer one. -/
theorem quotedLiteral_ends (hquote : quote ≠ '\\') (hs : (quotedLiteral quote).Matches s)
    (h : (quotedLiteral quote).Matches (s ++ t)) : t = [] := by
  obtain ⟨body, rfl, hbody⟩ := quotedLiteral_parts hs
  obtain ⟨body', heq, hbody'⟩ := quotedLiteral_parts h
  rw [List.cons_append, List.append_assoc] at heq
  exact elements_end hquote hbody hbody' (List.cons.inj heq).2

/-! ## Words -/

/-- The text is a token of one kind when it stands alone; a keyword is a name as well. -/
structure Word (piece : List Char) (kind : TokenKind) : Prop where
  described : Describes piece (.token kind)
  only : ∀ role, Describes piece role → role = .token kind ∨ role = .token .name

theorem Longest.word (h : Longest text piece (.token kind)) : Word piece kind :=
  ⟨h.described, h.only⟩

/-- A text that is taken as a whole is a word. -/
theorem word_of_munch? (h : munch? text = some (text.length, .token kind)) : Word text kind := by
  obtain ⟨hlongest, -⟩ := longest_of_munch? h
  rw [List.take_length] at hlongest
  exact hlongest.word

theorem Word.ne_nil (h : Word piece kind) : piece ≠ [] := h.described.ne_nil

/-- What is described as a token is described by a rule for tokens. -/
theorem Describes.token (h : Describes piece (.token kind)) :
    ∃ rule ∈ wordRules ++ formRules, rule.pattern.Matches piece := by
  obtain ⟨rule, hrule, hrole, hmatch⟩ := h
  rw [rules_eq, List.append_assoc] at hrule
  rcases List.mem_append.1 hrule with hgap | htoken
  · simp only [gapRules, List.mem_cons, List.not_mem_nil, or_false] at hgap
    rcases hgap with rfl | rfl <;> cases hrole
  · exact ⟨rule, htoken, hmatch⟩

/-- No token begins with a blank. -/
theorem Describes.not_blank (h : Describes (c :: piece) (.token kind)) :
    (CharClass.oneOf [' ', '\t', '\r']).contains c = false := by
  have hrules : ∀ rule ∈ wordRules ++ formRules,
      rule.pattern.firsts.all (·.apart (.oneOf [' ', '\t', '\r'])) = true := by decide +kernel
  obtain ⟨rule, hrule, hmatch⟩ := h.token
  obtain ⟨chars, hchars, hc⟩ := Pattern.contains_firsts hmatch
  exact CharClass.not_contains_of_apart (List.all_eq_true.1 (hrules rule hrule) chars hchars) hc

/-- No token begins as a comment does. -/
theorem Describes.not_comment : ¬Describes ('/' :: '/' :: piece) (.token kind) := by
  have hrules : ∀ rule ∈ wordRules ++ formRules,
      (rule.pattern.derive '/').derive '/' = .never := by decide +kernel
  intro h
  obtain ⟨rule, hrule, hmatch⟩ := h.token
  rw [← Pattern.matches_derive, ← Pattern.matches_derive, hrules rule hrule] at hmatch
  exact Pattern.not_matches_never hmatch

/-- What begins with a quote is a literal. -/
theorem Describes.literal (hquote : quote ∈ ['"', '\''])
    (h : Describes (quote :: piece) (.token kind)) :
    (quotedLiteral quote).Matches (quote :: piece) := by
  have hrules : ∀ quote ∈ ['"', '\''], ((wordRules ++ formRules).map Rule.pattern).filter
      (·.derive quote ≠ .never) = [quotedLiteral quote] := by
    simp only [List.forall_mem_cons]
    exact ⟨rfl, rfl, nofun⟩
  obtain ⟨rule, hrule, hmatch⟩ := h.token
  have hopens : rule.pattern.derive quote ≠ .never := by
    intro hnever
    rw [← Pattern.matches_derive, hnever] at hmatch
    exact Pattern.not_matches_never hmatch
  have hmem : rule.pattern ∈
      ((wordRules ++ formRules).map Rule.pattern).filter (·.derive quote ≠ .never) :=
    List.mem_filter.2 ⟨List.mem_map_of_mem hrule, decide_eq_true hopens⟩
  rw [hrules quote hquote] at hmem
  rwa [← List.mem_singleton.1 hmem]

theorem rules_allow_blank : (rules.map Rule.pattern).filter (·.allows ' ') =
    [(anyOf [' ', '\t', '\r']).oneOrMore, .followed (.exactly "//") (.many onLine),
      quotedLiteral '"', quotedLiteral '\''] := rfl

/-- No rule describes a word with a blank behind it, whatever follows. -/
theorem Word.not_extended (h : Word piece kind) : ¬Describes (piece ++ ' ' :: after) role := by
  rintro ⟨rule, hrule, -, hmatch⟩
  obtain ⟨c, rest, rfl⟩ := List.exists_cons_of_ne_nil h.ne_nil
  have hblank : rule.pattern.allows ' ' = true :=
    Pattern.allows_of_mem hmatch (List.mem_append_right _ List.mem_cons_self)
  have hmem := List.mem_filter.2 ⟨List.mem_map_of_mem hrule, hblank⟩
  rw [rules_allow_blank] at hmem
  obtain hblanks | hcomment | ⟨quote, hquote, hliteral⟩ :
      rule.pattern = (anyOf [' ', '\t', '\r']).oneOrMore ∨
        rule.pattern = .followed (.exactly "//") (.many onLine) ∨
        ∃ quote ∈ ['"', '\''], rule.pattern = quotedLiteral quote := by
    simpa using hmem
  · rw [hblanks] at hmatch
    obtain ⟨chars, hchars, hc⟩ := Pattern.contains_firsts hmatch
    rw [List.mem_singleton.1 hchars, h.described.not_blank] at hc
    cases hc
  · rw [hcomment] at hmatch
    obtain ⟨s, t, heq, hs, -⟩ := Pattern.matches_followed.1 hmatch
    have hslashes : "//".toList = ['/', '/'] := rfl
    rw [Pattern.matches_exactly.1 hs, hslashes] at heq
    obtain ⟨rfl, heq'⟩ := List.cons.inj heq
    -- the word is a slash alone, and no blank is one, or it begins with two slashes
    cases rest with
    | nil => exact absurd (List.cons.inj heq').1 (by decide)
    | cons d rest =>
      obtain ⟨rfl, -⟩ := List.cons.inj heq'
      exact Describes.not_comment h.described
  · rw [hliteral] at hmatch
    have hfirst : c = quote := by
      obtain ⟨chars, hchars, hc⟩ := Pattern.contains_firsts hmatch
      rw [List.mem_singleton.1 hchars] at hc
      exact List.mem_singleton.1 (Pattern.contains_oneOf.1 hc)
    subst hfirst
    have hends := quotedLiteral_ends (by rintro rfl; exact absurd hquote (by decide))
      (h.described.literal hquote) hmatch
    cases hends

/-- A word is taken where no rule describes it together with what follows. -/
theorem Word.longest_of_ends (h : Word piece kind)
    (hends : ∀ d rest, after = d :: rest → ∀ more role, ¬Describes (piece ++ d :: more) role) :
    Longest (piece ++ after) piece (.token kind) := by
  refine ⟨List.prefix_append _ _, h.described, fun other role' hstart hother => ?_, h.only⟩
  by_contra hlonger
  obtain ⟨more, rfl⟩ := List.prefix_of_prefix_length_le (List.prefix_append piece after) hstart
    (by omega)
  obtain ⟨tail, htail⟩ := hstart
  rw [List.append_assoc] at htail
  have hafter := List.append_cancel_left htail
  cases more with
  | nil => exact hlonger (by rw [List.append_nil])
  | cons d more => exact hends d (more ++ tail) hafter.symm more role' hother

/-- A word is taken where a blank or nothing follows it. -/
theorem Word.longest (h : Word piece kind) (hafter : after = [] ∨ ∃ rest, after = ' ' :: rest) :
    Longest (piece ++ after) piece (.token kind) := by
  refine h.longest_of_ends ?_
  rintro d rest rfl more role hmore
  rcases hafter with hnil | ⟨_, hblank⟩
  · cases hnil
  · obtain ⟨rfl, -⟩ := List.cons.inj hblank
    exact h.not_extended hmore

/-- A character that is a word is taken where no rule describes it together with the next one. -/
theorem Word.longest_before (h : Word [c] kind)
    (hends : ∀ rule ∈ rules, (rule.pattern.derive c).derive d = .never) :
    Longest ([c] ++ d :: after) [c] (.token kind) := by
  refine h.longest_of_ends ?_
  rintro d' rest hcons more role ⟨rule, hrule, -, hmatch⟩
  obtain ⟨rfl, -⟩ := List.cons.inj hcons
  have hderived := Pattern.matches_derive.2 (Pattern.matches_derive.2 hmatch)
  rw [hends rule hrule] at hderived
  exact Pattern.not_matches_never hderived

/-- A character that is a word, and that no rule goes on behind, is taken alone. -/
theorem longest_alone (hword : Word [c] kind)
    (hends : ∀ rule ∈ rules, rule.pattern.derive c = .never ∨ rule.pattern.derive c = .empty) :
    Longest ([c] ++ after) [c] (.token kind) := by
  refine hword.longest_of_ends ?_
  rintro d rest - more role ⟨rule, hrule, -, hmatch⟩
  have hderived : (rule.pattern.derive c).Matches (d :: more) := Pattern.matches_derive.2 hmatch
  rcases hends rule hrule with hnever | hempty
  · rw [hnever] at hderived
    exact Pattern.not_matches_never hderived
  · rw [hempty] at hderived
    cases hderived

/-- A blank in front of a word is all that is taken there. -/
theorem longest_blank (h : Word piece kind) :
    Longest (' ' :: (piece ++ after)) [' '] .blanks := by
  have hrules : ∀ rule ∈ rules, rule.pattern.derive ' ' = .never ∨
      rule = ⟨(anyOf [' ', '\t', '\r']).oneOrMore, .blanks⟩ := by decide +kernel
  have hdescribed {text : List Char} {role : Role} (hother : Describes (' ' :: text) role) :
      role = .blanks ∧ (Pattern.many (anyOf [' ', '\t', '\r'])).Matches text := by
    obtain ⟨rule, hrule, rfl, hmatch⟩ := hother
    rcases hrules rule hrule with hnever | rfl
    · rw [← Pattern.matches_derive, hnever] at hmatch
      exact absurd hmatch Pattern.not_matches_never
    · obtain ⟨s, t, heq, hs, ht⟩ := Pattern.matches_followed.1 hmatch
      cases hs with
      | one =>
        obtain ⟨-, rfl⟩ := List.cons.inj heq
        exact ⟨rfl, ht⟩
  refine ⟨⟨_, rfl⟩, ⟨⟨(anyOf [' ', '\t', '\r']).oneOrMore, .blanks⟩, ?_, rfl, ?_⟩, ?_, ?_⟩
  · exact List.mem_cons_self
  · exact .followed (s := [' ']) (.one (by decide)) .done
  · rintro other role' ⟨rest, hrest⟩ hother
    obtain ⟨c, word, rfl⟩ := List.exists_cons_of_ne_nil h.ne_nil
    match other with
    | [] => exact Nat.zero_le _
    | [_] => exact Nat.le_refl _
    | d :: e :: other =>
      obtain ⟨rfl, hrest'⟩ := List.cons.inj hrest
      obtain ⟨rfl, -⟩ := List.cons.inj hrest'
      have hblank := Pattern.matches_many_one.1 (hdescribed hother).2 e List.mem_cons_self
      rw [h.described.not_blank] at hblank
      cases hblank
  · exact fun role' hother => .inl (hdescribed hother).1

/-! ## Words with blanks between them -/

/-- What is cut up to a place and what is cut from there on. -/
theorem Scans.append {found found' : List Token} (h : Scans (t ++ after) offset s found)
    (h' : Scans after (offset + byteLength s) t found') :
    Scans after offset (s ++ t) (found ++ found') := by
  induction h with
  | done => exact h'
  | gap hlongest hrole _ ih =>
    rw [List.append_assoc] at hlongest ⊢
    rw [Text.byteLength_append, ← Nat.add_assoc] at h'
    exact .gap (by simpa using hlongest) hrole (ih h')
  | token hlongest _ ih =>
    rw [List.append_assoc] at hlongest ⊢
    rw [Text.byteLength_append, ← Nat.add_assoc] at h'
    exact .token (by simpa using hlongest) (ih h')

/-- The texts of some tokens, with a single blank between any two of them. -/
def spelt (words : List Token) : List Char :=
  [' '].intercalate (words.map fun x => x.text.toList)

theorem spelt_cons_cons (x y : Token) (rest : List Token) :
    spelt (x :: y :: rest) = x.text.toList ++ ([' '] ++ spelt (y :: rest)) := by
  unfold spelt
  rw [List.map_cons, List.map_cons, List.intercalate_cons_cons, List.append_assoc]

/-- Each text has a byte at least, and so has each blank. -/
theorem le_byteLength_spelt (hwords : ∀ x ∈ words, x.text.toList ≠ []) :
    2 * words.length ≤ byteLength (spelt words) + 1 := by
  induction words with
  | nil => exact Nat.zero_le _
  | cons x rest ih =>
    have hx := Text.byteLength_pos (hwords x List.mem_cons_self)
    have hrest := ih fun y hy => hwords y (List.mem_cons_of_mem _ hy)
    cases rest with
    | nil =>
      have halone : spelt [x] = x.text.toList := by simp [spelt]
      rw [halone, List.length_singleton]
      omega
    | cons y rest =>
      have hblank : byteLength [' '] = 1 := rfl
      rw [spelt_cons_cons, Text.byteLength_append, Text.byteLength_append, hblank,
        List.length_cons]
      omega

/-- The first token begins at byte `start`, and each other one a single byte behind the one before
it, so that nothing stands between two of them but one blank. -/
def EvenlySpaced : Nat → List Token → Prop
  | _, [] => True
  | start, x :: rest => x.span.start = start ∧ EvenlySpaced (x.span.stop + 1) rest

/-- Words with single blanks between them are cut into these words. -/
theorem scans_spelt (offset : Nat) (hwords : ∀ x ∈ words, Word x.text.toList x.kind) :
    ∃ found, Scans [] offset (spelt words) found ∧
      found.map Token.spelling = words.map Token.spelling ∧ EvenlySpaced offset found := by
  have hspelling (x : Token) (offset : Nat) :
      (cut x.kind offset x.text.toList).spelling = x.spelling := by
    simp [cut, Token.spelling]
  induction words generalizing offset with
  | nil => exact ⟨[], .done, rfl, trivial⟩
  | cons x rest ih =>
    have hx := hwords x List.mem_cons_self
    have hrest := fun y hy => hwords y (List.mem_cons_of_mem _ hy)
    cases rest with
    | nil =>
      have halone : spelt [x] = x.text.toList ++ [] := by simp [spelt]
      rw [halone]
      refine ⟨[cut x.kind offset x.text.toList], .token ?_ .done, ?_, rfl, trivial⟩
      · exact (List.append_nil (x.text.toList ++ [])).symm ▸ hx.longest (.inl rfl)
      · rw [List.map_singleton, hspelling, List.map_singleton]
    | cons y rest =>
      have hy := hrest y List.mem_cons_self
      obtain ⟨found, hscans, hfound, hspaced⟩ :=
        ih (offset + byteLength x.text.toList + byteLength [' ']) hrest
      have hblank : Longest ([' '] ++ spelt (y :: rest) ++ []) [' '] .blanks := by
        obtain ⟨after, hafter⟩ : ∃ after, spelt (y :: rest) = y.text.toList ++ after := by
          cases rest with
          | nil => exact ⟨[], by simp [spelt]⟩
          | cons z rest => exact ⟨_, spelt_cons_cons y z rest⟩
        have hfirst : Longest (' ' :: (y.text.toList ++ after)) [' '] .blanks := longest_blank hy
        rw [List.append_nil, hafter]
        exact hfirst
      rw [spelt_cons_cons]
      refine ⟨cut x.kind offset x.text.toList :: found,
        .token ?_ (.gap hblank (.inl rfl) hscans), ?_, rfl, hspaced⟩
      · rw [List.append_nil]
        exact hx.longest (.inr ⟨_, rfl⟩)
      · rw [List.map_cons, List.map_cons, hspelling, hfound]

/-! ## Sources that are read and written again -/

/-- A source that is accepted is cut into its tokens up to its end, and not too long. -/
theorem scans_of_tokenize (h : tokenize source = .ok tokens) :
    Scans [] 0 source tokens.body.toList ∧ byteLength source < Span.offsetLimit ∧
      tokens.last.spelling = (.eof, "") := by
  have hlimit : byteLength source < Span.offsetLimit := by
    unfold tokenize TokenList.close Span.ofRange at h
    obtain ⟨body, -, h⟩ := bind_eq_ok h
    by_contra hlong
    rw [if_pos (Nat.le_of_not_lt hlong)] at h
    cases h
  obtain ⟨before, after, found, rfl, hscans, hend⟩ := exists_scans 0 source
  by_cases hafter : after = []
  · subst hafter
    rw [List.append_nil] at h hlimit ⊢
    obtain rfl := Except.ok.inj ((tokenize_of_scans hscans hlimit).symm.trans h)
    exact ⟨hscans, hlimit, rfl⟩
  · obtain ⟨n, hrefused⟩ :=
      tokenize_of_stuck hscans hafter (hend.resolve_left hafter) hlimit
    rw [hrefused] at h
    cases h

theorem exists_pieceSpan_error (hlong : Span.offsetLimit ≤ offset + byteLength piece) :
    ∃ e, pieceSpan offset piece = .error ⟨.offsetTooLarge e, none⟩ := by
  unfold pieceSpan Span.ofRange
  by_cases hstart : offset ≥ Span.offsetLimit
  · rw [if_pos hstart]
    exact ⟨_, rfl⟩
  · rw [if_neg hstart, if_pos hlong]
    exact ⟨_, rfl⟩

/-- The scan takes the longest piece, or this ends where no offset can be. -/
theorem scanFrom_take_or_long {rest : List Char} {found : Array Token}
    (hlongest : Longest (piece ++ rest) piece role) :
    scanFrom offset 0 found (piece ++ rest) =
        scanFrom (offset + byteLength piece) 0 (keep found role offset piece) rest ∨
      ∃ e, scanFrom offset 0 found (piece ++ rest) = .error ⟨.offsetTooLarge e, none⟩ := by
  by_cases hlimit : offset + byteLength piece < Span.offsetLimit
  · exact .inl (scanFrom_take hlongest hlimit)
  · obtain ⟨e, hspan⟩ := exists_pieceSpan_error (Nat.le_of_not_lt hlimit)
    have hmunch := munch?_of_longest hlongest
    have hpiece : (piece ++ rest).take piece.length = piece := List.take_left
    obtain ⟨c, tail, rfl⟩ := List.exists_cons_of_ne_nil hlongest.described.ne_nil
    rw [List.cons_append] at hmunch hpiece ⊢
    rw [scanFrom, hmunch]
    cases role with
    | blanks =>
      refine .inl ?_
      show scanFrom (offset + c.utf8Size) tail.length found (tail ++ rest) = _
      rw [scanFrom_pass, Text.byteLength_cons, Nat.add_assoc]
      rfl
    | comment | token =>
      refine .inr ⟨e, ?_⟩
      dsimp only
      rw [hpiece, hspan]
      rfl

/-- The scan of a text that can be cut up to its end answers, or the text is too long. -/
theorem scanFrom_ends {cuts : List Token} (h : Scans [] offset text cuts) (found : Array Token) :
    (∃ body, scanFrom offset 0 found text = .ok body) ∨
      ∃ e, scanFrom offset 0 found text = .error ⟨.offsetTooLarge e, none⟩ := by
  induction h generalizing found with
  | done => exact .inl ⟨found, rfl⟩
  | gap hlongest _ _ ih | token hlongest _ ih =>
    rw [List.append_nil] at hlongest
    rcases scanFrom_take_or_long hlongest with htake | hlong
    · rw [htake]
      exact ih _
    · exact .inr hlong

/-- A source that can be cut up to its end, but has too many bytes, is refused for that. -/
theorem tokenize_of_long {cuts : List Token} (h : Scans [] 0 source cuts)
    (hlong : Span.offsetLimit ≤ byteLength source) :
    ∃ e, tokenize source = .error ⟨.offsetTooLarge e, none⟩ := by
  unfold tokenize TokenList.close Span.ofRange
  rcases scanFrom_ends h #[] with ⟨body, hscan⟩ | ⟨e, hscan⟩
  · rw [hscan, if_pos hlong]
    exact ⟨_, rfl⟩
  · rw [hscan]
    exact ⟨e, rfl⟩

/-- The tokens of a source are words. -/
theorem words_of_tokenize (h : tokenize source = .ok tokens) :
    ∀ x ∈ tokens.body.toList, Word x.text.toList x.kind := by
  intro x hx
  obtain ⟨_, piece, rest, kind, -, rfl, hlongest⟩ := (scans_of_tokenize h).1.mem [] x hx
  simpa [cut] using hlongest.word

/-- Opening parentheses alone are cut one by one. -/
theorem scans_parens (offset n : Nat) :
    ∃ found, Scans [] offset (List.replicate n '(') found ∧ found.length = n ∧
      byteLength (List.replicate n '(') = n := by
  have hword : Word ['('] .openParen := word_of_munch? (by decide +kernel)
  induction n generalizing offset with
  | zero => exact ⟨[], .done, rfl, rfl⟩
  | succ n ih =>
    obtain ⟨found, hscans, hlength, hbytes⟩ := ih (offset + 1)
    have hfirst : Longest (['('] ++ List.replicate n '(' ++ []) ['('] (.token .openParen) := by
      rw [List.append_assoc]
      exact longest_alone hword (by decide +kernel)
    refine ⟨cut .openParen offset ['('] :: found, .token hfirst hscans, ?_, ?_⟩
    · rw [List.length_cons, hlength]
    · rw [List.replicate_succ, Text.byteLength_cons, hbytes, Nat.add_comm]
      rfl

/-- Written with blanks between them, parentheses that fill more than half of the bytes that can be
counted are refused. -/
theorem spaced_parens_refused {n : Nat} (hroom : n < Span.offsetLimit)
    (hmany : Span.offsetLimit < 2 * n) :
    ∃ tokens, tokenize (List.replicate n '(') = .ok tokens ∧
      ∃ e, tokenize (spelt tokens.body.toList) = .error ⟨.offsetTooLarge e, none⟩ := by
  obtain ⟨cuts, hcuts, hlength, hbytes⟩ := scans_parens 0 n
  have htokens := tokenize_of_scans hcuts (by rw [hbytes]; exact hroom)
  have hwords := words_of_tokenize htokens
  obtain ⟨found, hscans, -⟩ := scans_spelt 0 hwords
  have hle := le_byteLength_spelt fun x hx => (hwords x hx).ne_nil
  refine ⟨_, htokens, tokenize_of_long hscans ?_⟩
  have hsize : 2 * n ≤ byteLength (spelt cuts.toArray.toList) + 1 := by
    rwa [← hlength]
  exact Nat.le_of_lt_succ (Nat.lt_of_lt_of_le hmany hsize)

/-- The tokens of a source, written with single blanks between them and nothing else, are read
back with the same kinds and texts, one blank apart, unless the text is then too long to be read at
all. -/
theorem respacing_stable (h : tokenize source = .ok tokens) :
    (byteLength (spelt tokens.body.toList) < Span.offsetLimit →
      ∃ other, tokenize (spelt tokens.body.toList) = .ok other ∧
        other.spelling = tokens.spelling ∧ EvenlySpaced 0 other.body.toList) ∧
    (Span.offsetLimit ≤ byteLength (spelt tokens.body.toList) →
      ∃ e, tokenize (spelt tokens.body.toList) = .error ⟨.offsetTooLarge e, none⟩) := by
  obtain ⟨found, hscans, hfound, hspaced⟩ := scans_spelt 0 (words_of_tokenize h)
  refine ⟨fun hlimit => ⟨_, tokenize_of_scans hscans hlimit, ?_, hspaced⟩, tokenize_of_long hscans⟩
  unfold TokenList.spelling TokenList.toList
  rw [List.map_append, List.map_append, List.map_singleton, List.map_singleton,
    (scans_of_tokenize h).2.2, ← hfound]
  rfl

/-- A text literal with blanks and slashes in it stays whole, and the comment is gone. -/
theorem respacing_stable_literal :
    ∃ tokens other, tokenize "x:=\"a // b\"// c".toList = .ok tokens ∧
      spelt tokens.body.toList = "x : = \"a // b\"".toList ∧
      tokenize "x : = \"a // b\"".toList = .ok other ∧ other.spelling = tokens.spelling ∧
      EvenlySpaced 0 other.body.toList := by
  let tokens : TokenList := ⟨#[cut .name 0 ['x'], cut .define 1 [':'], cut .assign 2 ['='],
    cut .text 3 "\"a // b\"".toList], ⟨.eof, "", ⟨15, 15⟩⟩⟩
  have htokens : tokenize "x:=\"a // b\"// c".toList = .ok tokens := by decide +kernel
  have hspelt : spelt tokens.body.toList = "x : = \"a // b\"".toList := by decide +kernel
  obtain ⟨other, hother, hspelling, hspaced⟩ := (respacing_stable htokens).1 (by decide +kernel)
  rw [hspelt] at hother
  exact ⟨tokens, other, htokens, hspelt, hother, hspelling, hspaced⟩

/-- There need not be room for the blanks: a source of as many bytes as can be counted, all of them
opening parentheses, is read, but not when there are blanks between them. -/
theorem respacing_without_room :
    ∃ tokens, tokenize (List.replicate (2 ^ 32 - 1) '(') = .ok tokens ∧
      ¬∃ other, tokenize (spelt tokens.body.toList) = .ok other ∧
        other.spelling = tokens.spelling := by
  obtain ⟨tokens, htokens, e, hrefused⟩ :=
    spaced_parens_refused (n := 2 ^ 32 - 1) (by decide) (by decide)
  refine ⟨tokens, htokens, ?_⟩
  rintro ⟨other, hother, -⟩
  rw [hrefused] at hother
  cases hother

end Lexicon

end OnePass

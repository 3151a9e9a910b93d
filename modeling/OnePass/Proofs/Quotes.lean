import Mathlib.Algebra.Ring.Parity
import Mathlib.Data.List.DropRight
import OnePass.Proofs.Initializers

/-!
# Quoted literals

Three parts of the reading have to agree on a literal: the rule that says where it ends, the
quotes that are taken off it, and the escapes inside. They all read it element by element, a plain
character or a backslash with the character after it (`elements_induction`). So a text that is
written as a literal (`Lexicon.literal`) is one token, which stands for that text, and inside any
literal a backslash has a character after it. If that character is none that can be escaped, the
first such character is what the literal is refused for. `string_literals_round_trip` says both.
-/

namespace OnePass

open Text (byteLength)

namespace Lexicon

variable {text body taken : List Char} {c quote letter : Char} {kind : TokenKind} {offset : Nat}

/-! ## Writing literals -/

/-- The letter that stands after a backslash for a character that is escaped. -/
def escapeLetter? : Char → Option Char
  | '\n' => some 'n'
  | '\r' => some 'r'
  | '\t' => some 't'
  | '\x00' => some '0'
  | '\\' => some '\\'
  | '\'' => some '\''
  | '"' => some '"'
  | _ => none

/-- A character as it is written in a literal. -/
def escape (c : Char) : List Char := (escapeLetter? c).elim [c] fun letter => ['\\', letter]

/-- A text as a literal. -/
def literal (text : List Char) : List Char := '"' :: (text.flatMap escape ++ ['"'])

/-- The letters that mean something after a backslash. -/
def escapeLetters : List Char := ['n', 'r', 't', '0', '\\', '\'', '"']

theorem escaped?_escapeLetter (h : escapeLetter? c = some letter) : escaped? letter = some c := by
  unfold escapeLetter? at h
  split at h <;> cases h <;> rfl

theorem escape_plain (h : escapeLetter? c = none) : escape c = [c] := by
  rw [escape, h, Option.elim_none]

theorem escape_letter (h : escapeLetter? c = some letter) : escape c = ['\\', letter] := by
  rw [escape, h, Option.elim_some]

theorem escape_ne_nil (c : Char) : escape c ≠ [] := by
  cases h : escapeLetter? c with
  | none => simp [escape_plain h]
  | some => simp [escape_letter h]

/-- A literal has a byte for each character of its text, at least. -/
theorem length_le_byteLength_literal (text : List Char) :
    text.length ≤ byteLength (literal text) := by
  have hescaped : text.length ≤ byteLength (text.flatMap escape) := by
    induction text with
    | nil => exact Nat.zero_le _
    | cons c text ih =>
      have hc := Text.byteLength_pos (escape_ne_nil c)
      rw [List.length_cons, List.flatMap_cons, Text.byteLength_append]
      omega
  unfold literal
  rw [Text.byteLength_cons, Text.byteLength_append]
  omega

theorem not_special (h : escapeLetter? c = none) : c ≠ '"' ∧ c ≠ '\\' ∧ c ≠ '\n' := by
  refine ⟨?_, ?_, ?_⟩ <;> rintro rfl <;> cases h

/-- A letter means something after a backslash if it is one of these. -/
theorem escaped?_isSome : (escaped? c).isSome = true ↔ c ∈ escapeLetters := by
  constructor
  · intro h
    unfold escaped? at h
    split at h <;> first | exact (by decide) | cases h
  · intro h
    simp only [escapeLetters, List.mem_cons, List.not_mem_nil, or_false] at h
    rcases h with rfl | rfl | rfl | rfl | rfl | rfl | rfl <;> rfl

/-! ## Reading escapes -/

theorem unescapeFrom_escape (offset : Nat) (taken : List Char) (c : Char) (rest : List Char) :
    unescapeFrom offset taken ('\\' :: c :: rest) = match escaped? c with
      | some x => unescapeFrom (offset + 1 + c.utf8Size) (x :: taken) rest
      | none => .error ⟨offset, c⟩ := by
  cases hletter : escaped? c <;> simp [unescapeFrom, hletter]

theorem unescapeFrom_plain (offset : Nat) (taken : List Char) (h : c ≠ '\\') (rest : List Char) :
    unescapeFrom offset taken (c :: rest) =
      unescapeFrom (offset + c.utf8Size) (c :: taken) rest := by
  rw [unescapeFrom] <;> simp [h]

theorem unescapeFrom_escaped (offset : Nat) (taken text : List Char) :
    unescapeFrom offset taken (text.flatMap escape) = .ok (taken.reverse ++ text) := by
  induction text generalizing offset taken with
  | nil => simp [unescapeFrom]
  | cons c text ih =>
    rw [List.flatMap_cons]
    cases hletter : escapeLetter? c with
    | none =>
      rw [escape_plain hletter, List.singleton_append,
        unescapeFrom_plain _ _ (not_special hletter).2.1, ih]
      simp
    | some letter =>
      rw [escape_letter hletter, List.cons_append, List.singleton_append, unescapeFrom_escape,
        escaped?_escapeLetter hletter]
      dsimp only
      rw [ih]
      simp

/-- What is written with escapes is read as it was. -/
theorem unescape_escaped (text : List Char) : unescape (text.flatMap escape) = .ok text :=
  unescapeFrom_escaped 0 [] text

/-! ## Elements of a literal -/

/-- Many elements are nothing, or a plain character or an escape and many elements. -/
@[elab_as_elim]
theorem elements_induction {body : List Char} {motive : List Char → Prop}
    (h : (Pattern.many (quotedElement quote)).Matches body) (nil : motive [])
    (plain : ∀ c rest, c ≠ '\\' → motive rest → motive (c :: rest))
    (escape : ∀ c rest, motive rest → motive ('\\' :: c :: rest)) : motive body := by
  rcases elements_cases h with rfl | ⟨c, rest, rfl, -, hc, hrest⟩ | ⟨c, rest, rfl, hrest⟩
  · exact nil
  · exact plain c rest hc (elements_induction hrest nil plain escape)
  · exact escape c rest (elements_induction hrest nil plain escape)
termination_by body.length

/-- What is written with escapes is made of elements. -/
theorem elements_escaped (text : List Char) :
    (Pattern.many (quotedElement '"')).Matches (text.flatMap escape) := by
  induction text with
  | nil => exact .done
  | cons c text ih =>
    rw [List.flatMap_cons]
    refine .more ?_ ih
    cases hletter : escapeLetter? c with
    | none =>
      rw [escape_plain hletter]
      obtain ⟨hquote, hbackslash, hnewline⟩ := not_special hletter
      exact .left (.one (Pattern.contains_noneOf.2 (by simp [hquote, hbackslash, hnewline])))
    | some letter =>
      rw [escape_letter hletter]
      have hline : onLine.Matches [letter] := by
        unfold escapeLetter? at hletter
        split at hletter <;> cases hletter <;> exact .one (by decide)
      exact .right (.followed (s := ['\\']) (.one (by decide)) hline)

/-- The characters that stand after a backslash, where a backslash that is one of them has none
after it. -/
def afterBackslashes : List Char → List Char
  | '\\' :: c :: rest => c :: afterBackslashes rest
  | _ :: rest => afterBackslashes rest
  | [] => []

/-- The first character after a backslash that means nothing there. -/
def unknownEscape? (body : List Char) : Option Char :=
  (afterBackslashes body).find? (· ∉ escapeLetters)

theorem afterBackslashes_plain (h : c ≠ '\\') (rest : List Char) :
    afterBackslashes (c :: rest) = afterBackslashes rest := by
  rw [afterBackslashes]
  simp [h]

theorem even_rtakeWhile_append {p : Char → Bool} {s t : List Char}
    (hs : Even (s.rtakeWhile p).length) (ht : Even (t.rtakeWhile p).length) :
    Even ((s ++ t).rtakeWhile p).length := by
  unfold List.rtakeWhile at hs ht ⊢
  rw [List.length_reverse] at hs ht ⊢
  rw [List.reverse_append, List.takeWhile_append]
  split
  · rename_i hall
    rw [List.length_append, ← hall]
    exact ht.add hs
  · exact ht

/-- No backslash at the end of a literal's inside is without the character after it. -/
theorem even_backslashes (h : (Pattern.many (quotedElement quote)).Matches body) :
    Even (body.rtakeWhile (· = '\\')).length := by
  refine elements_induction h (by decide) (fun c rest hc ih => ?_) fun c rest ih => ?_
  · exact even_rtakeWhile_append (s := [c]) (by simp [List.rtakeWhile, hc]) ih
  · refine even_rtakeWhile_append (s := ['\\', c]) ?_ ih
    by_cases hc : c = '\\' <;> simp [List.rtakeWhile, hc]

/-- Escapes are read unless one of them is unknown, which is then the first of these. -/
theorem unescapeFrom_eq (h : (Pattern.many (quotedElement quote)).Matches body) (offset : Nat)
    (taken : List Char) :
    match unknownEscape? body with
    | some c => ∃ place, unescapeFrom offset taken body = .error ⟨place, c⟩
    | none => ∃ text, unescapeFrom offset taken body = .ok text := by
  revert offset taken
  refine elements_induction h ?_ (fun c rest hc ih => ?_) fun c rest ih => ?_ <;>
    intro offset taken
  · exact ⟨_, rfl⟩
  · unfold unknownEscape? at ih ⊢
    rw [afterBackslashes_plain hc, unescapeFrom_plain _ _ hc]
    exact ih _ _
  · unfold unknownEscape? at ih ⊢
    rw [afterBackslashes, List.find?_cons, unescapeFrom_escape]
    cases hletter : escaped? c with
    | none =>
      have hunknown : c ∉ escapeLetters := fun h => by simp [← escaped?_isSome, hletter] at h
      simp only [decide_eq_true hunknown]
      exact ⟨_, rfl⟩
    | some x =>
      have hknown : c ∈ escapeLetters := escaped?_isSome.1 (by rw [hletter]; rfl)
      simp only [decide_eq_false (not_not.2 hknown)]
      exact ih _ _

/-! ## Literals as tokens -/

/-- A text that is written as a literal is a word. -/
theorem literal_word (text : List Char) : Word (literal text) .text := by
  have hrules : ∀ rule ∈ rules, rule.pattern.derive '"' = .never ∨
      rule = ⟨quotedLiteral '"', .token .text⟩ := by decide +kernel
  have hmatch : (quotedLiteral '"').Matches (literal text) :=
    .followed (s := ['"']) (.one (by decide)) (.followed (elements_escaped text) (.one (by decide)))
  refine ⟨⟨⟨quotedLiteral '"', .token .text⟩, by decide, rfl, hmatch⟩, ?_⟩
  rintro role ⟨rule, hrule, rfl, hother⟩
  rcases hrules rule hrule with hnever | rfl
  · rw [literal, ← Pattern.matches_derive, hnever] at hother
    exact absurd hother Pattern.not_matches_never
  · exact .inl rfl

/-- It is cut off as one token. -/
theorem scans_literal (offset : Nat) (text : List Char) :
    Scans [] offset (literal text) [cut .text offset (literal text)] := by
  have hlongest : Longest (literal text ++ [] ++ []) (literal text) (.token .text) := by
    rw [List.append_nil]
    exact (literal_word text).longest (.inl rfl)
  have hscan : Scans [] offset (literal text ++ []) [cut .text offset (literal text)] :=
    .token hlongest .done
  rwa [List.append_nil] at hscan

/-- The literals among the tokens are elements between quotes. -/
theorem Word.quoted {piece : List Char} (h : Word piece kind)
    (hkind : kind = .text ∨ kind = .character) :
    ∃ quote body, piece = quote :: (body ++ [quote]) ∧
      (Pattern.many (quotedElement quote)).Matches body := by
  have hrules : ∀ rule ∈ rules, rule.role = .token .text ∨ rule.role = .token .character →
      rule.pattern = quotedLiteral '"' ∨ rule.pattern = quotedLiteral '\'' := by decide
  obtain ⟨rule, hrule, hrole, hmatch⟩ := h.described
  have hliteral : rule.role = .token .text ∨ rule.role = .token .character := by
    rw [hrole]
    exact hkind.imp (congrArg _) (congrArg _)
  rcases hrules rule hrule hliteral with hpattern | hpattern <;> rw [hpattern] at hmatch <;>
    exact ⟨_, quotedLiteral_parts hmatch⟩

end Lexicon

/-! ## Reading literals -/

namespace Grammar

variable {p : Productions} {s : State} {x : Token} {left : Option ExprId} {closing : TokenSet}
  {text body : List Char} {quote c : Char}

/-- The quotes are taken off. -/
theorem insideQuotes_eq {written : String} (h : written.toList = quote :: (body ++ [quote])) :
    insideQuotes written = body := by
  simp [insideQuotes, h]

/-- A literal with an escape that is not read is refused for it. -/
theorem operand_badEscape {e : Lexicon.EscapeError} (hkind : x.kind = .text ∨ x.kind = .character)
    (h : Lexicon.unescape (insideQuotes x.text) = .error e) :
    operand p left x closing s = .error ⟨.badEscape e.found, some x.span⟩ s := by
  have hvalue : quotedValue x s = .error ⟨.badEscape e.found, some x.span⟩ s := by
    rw [quotedValue_run, h]
  unfold operand
  rcases hkind with hkind | hkind <;> rw [hkind]
  · exact bind_error hvalue
  · exact bind_error hvalue

/-- A literal of a text stands for what is inside it. -/
theorem operand_text (hkind : x.kind = .text)
    (h : Lexicon.unescape (insideQuotes x.text) = .ok text) :
    operand p left x closing s = .ok s.newExpr (s.add (.text (String.ofList text)) x.span) := by
  have hvalue : quotedValue x s = .ok text s := by
    rw [quotedValue_run, h]
  unfold operand
  rw [hkind]
  dsimp only
  unfold textLiteral
  rw [bind_eq hvalue]
  exact push_run _ _ _

/-- A literal at the end of the source is a value, which has no type. -/
theorem extend_text {n : Nat} (hahead : s.cursor.ahead = [x])
    (hlast : s.cursor.tokens.last.kind = .eof) (hkind : x.kind = .text)
    (h : Lexicon.unescape (insideQuotes x.text) = .ok text) :
    (level (n + 2)).extend none valueEnd s =
        .ok (some s.next.newExpr) (s.next.add (.text (String.ofList text)) x.span) ∧
      ReadsValue s s.next.newExpr Builtin.void.handle
        (s.next.add (.text (String.ofList text)) x.span) := by
  have hexpr := expr?_newExpr s.next (.text (String.ofList text)) x.span
  have hnil := ahead_next hahead (by simp [hkind])
  refine ⟨?_, tokens_next s, hnil, ?_, _, hexpr, nofun, nofun⟩
  · have hstart : valueEnd.contains x.kind = false ∧ operandOnly.contains x.kind = true := by
      rw [hkind]
      decide
    have hend : s.next.cursor.isAt valueEnd = true := by
      rw [isAt_of_ahead_nil hnil (by rw [tokens_next, hlast])]
      decide
    rw [extend_operand hahead hstart.1 hstart.2, bind_eq (operand_text hkind h)]
    exact extendTurn_closing hend
  · unfold Tree.exprType? Tree.exprTypeWithin?
    rw [hexpr]
    rfl

/-- A variable is defined by a text that is written as a literal. -/
theorem parse_literal (name d a x last : Token) (hlast : last.kind = .eof)
    (hname : name.kind = .name) (hd : d.kind = .define) (ha : a.kind = .assign)
    (hnew : Tree.withBuiltins.findLocal? name.text = none) (hkind : x.kind = .text)
    (hx : x.text.toList = Lexicon.literal text) :
    ∃ t id init entity span, parse ⟨#[name, d, a, x], last⟩ = .ok t ∧ t.topLevel = [id] ∧
      t.expr? id = some ⟨.definition name.text .variable (some init) entity none, span⟩ ∧
      t.expr? init = some ⟨.text (String.ofList text), x.span⟩ := by
  have hinside : Lexicon.unescape (insideQuotes x.text) = .ok text := by
    rw [insideQuotes_eq hx, Lexicon.unescape_escaped]
  obtain ⟨tokens, htokens⟩ : ∃ tokens : TokenList, tokens = ⟨#[name, d, a, x], last⟩ := ⟨_, rfl⟩
  have hbody : tokens.body = #[name, d, a, x] := by rw [htokens]
  have hlast : tokens.last.kind = .eof := by rw [htokens, hlast]
  have hfuel : fuel tokens.size = 15 + 3 := by
    rw [htokens]
    rfl
  obtain ⟨s, hbefore, hahead, hsame, -⟩ := exists_before_value hbody hname hd ha
  obtain ⟨hvalue, hread⟩ := extend_text (n := 13) hahead (by rw [hsame, hlast]) hkind hinside
  obtain ⟨t, id, entity, span, -, hparse, htop, hid, -, hgrows, -⟩ :=
    parse_definition hbody hlast hname hd ha hnew hfuel hbefore hvalue hread
  rw [htokens] at hparse
  exact ⟨t, id, _, entity, span, hparse, htop, hid, hgrows.expr (expr?_newExpr _ _ _)⟩

/-- The source that defines a variable by a text that is written as a literal. -/
theorem parseSource_literal {source : List Char}
    (hsource : source = ['x', ' ', ':', '=', ' '] ++ Lexicon.literal text) :
    (byteLength source < Span.offsetLimit → ∃ t id init entity span,
      parseSource (String.ofList source) = .ok t ∧ t.topLevel = [id] ∧
      t.expr? id = some ⟨.definition "x" .variable (some init) entity none, span⟩ ∧
      t.expr? init = some ⟨.text (String.ofList text), ⟨5, byteLength source⟩⟩) ∧
    (Span.offsetLimit ≤ byteLength source →
      ∃ e, parseSource (String.ofList source) = .error ⟨.offsetTooLarge e, none⟩) := by
  have hname : Lexicon.Word ['x'] .name := Lexicon.word_of_munch? (by decide +kernel)
  have hscan : Lexicon.Scans [] 0 source
      [Lexicon.cut .name 0 ['x'], Lexicon.cut .define 2 [':'], Lexicon.cut .assign 3 ['='],
        Lexicon.cut .text 5 (Lexicon.literal text)] := by
    rw [hsource]
    exact Lexicon.scans_definition hname (by decide) (Lexicon.scans_literal 5 text)
      (List.append_nil _).symm (Lexicon.literal_word text)
  have hspan : (Lexicon.cut .text 5 (Lexicon.literal text)).span = ⟨5, byteLength source⟩ := by
    rw [hsource, Text.byteLength_append]
    rfl
  unfold parseSource
  rw [String.toList_ofList]
  refine ⟨fun hlimit => ?_, fun hlong => ?_⟩
  · have hfree : Tree.withBuiltins.findLocal? (Lexicon.cut .name 0 ['x']).text = none := by
      decide +kernel
    obtain ⟨t, id, init, entity, span, hparse, htop, hid, hinit⟩ :=
      parse_literal (Lexicon.cut .name 0 ['x']) (Lexicon.cut .define 2 [':'])
        (Lexicon.cut .assign 3 ['=']) (Lexicon.cut .text 5 (Lexicon.literal text))
        ⟨.eof, "", ⟨byteLength source, byteLength source⟩⟩ rfl rfl rfl rfl hfree rfl
        String.toList_ofList
    rw [hspan] at hinit
    rw [Lexicon.tokenize_of_scans hscan hlimit]
    exact ⟨t, id, init, entity, span, hparse, htop, hid, hinit⟩
  · obtain ⟨e, hrefused⟩ := Lexicon.tokenize_of_long hscan hlong
    rw [hrefused]
    exact ⟨e, rfl⟩

/-- Every text is written as a literal that is one token, which stands for the text again, also as
the value of a variable; or else there are more bytes than can be counted. And in every literal
each backslash has a character after it, and the literal is refused for the first such character
that means nothing there, if there is one. -/
theorem string_literals_round_trip :
    (∀ text : String,
      let written := Lexicon.literal text.toList
      let source := ['x', ' ', ':', '=', ' '] ++ written
      (byteLength written < Span.offsetLimit →
        Lexicon.tokenize written = .ok ⟨#[⟨.text, String.ofList written, ⟨0, byteLength written⟩⟩],
          ⟨.eof, "", ⟨byteLength written, byteLength written⟩⟩⟩) ∧
      (Span.offsetLimit ≤ byteLength written →
        ∃ e, Lexicon.tokenize written = .error ⟨.offsetTooLarge e, none⟩) ∧
      (byteLength source < Span.offsetLimit → ∃ t id init entity span,
        parseSource (String.ofList source) = .ok t ∧ t.topLevel = [id] ∧
        t.expr? id = some ⟨.definition "x" .variable (some init) entity none, span⟩ ∧
        t.expr? init = some ⟨.text text, ⟨5, byteLength source⟩⟩) ∧
      (Span.offsetLimit ≤ byteLength source →
        ∃ e, parseSource (String.ofList source) = .error ⟨.offsetTooLarge e, none⟩)) ∧
    ∀ (source : List Char) (tokens : TokenList), Lexicon.tokenize source = .ok tokens →
      ∀ x ∈ tokens.body, x.kind = .text ∨ x.kind = .character →
      ∃ quote body, x.text.toList = quote :: (body ++ [quote]) ∧ insideQuotes x.text = body ∧
        Even (body.rtakeWhile (· = '\\')).length ∧
        ∀ c, Lexicon.unknownEscape? body = some c →
          (∀ (p : Productions) (left : Option ExprId) (closing : TokenSet) (s : State),
            operand p left x closing s = .error ⟨.badEscape c, some x.span⟩ s) ∧
          (Cause.badEscape c).kind = .syntactic ∧
          (Cause.badEscape c).description =
            "invalid escape sequence '\\" ++ String.singleton c ++ "'" := by
  constructor
  · intro text written source
    have hscan : Lexicon.Scans [] 0 written [Lexicon.cut .text 0 written] :=
      Lexicon.scans_literal 0 _
    have hsource := @parseSource_literal text.toList source rfl
    rw [String.ofList_toList] at hsource
    refine ⟨fun hlimit => ?_, Lexicon.tokenize_of_long hscan, hsource⟩
    rw [Lexicon.tokenize_of_scans hscan hlimit]
    simp [Lexicon.cut]
  · intro source tokens h x hx hkind
    obtain ⟨quote, body, htext, hbody⟩ :=
      (Lexicon.words_of_tokenize h x (by simpa using hx)).quoted hkind
    have hinside := insideQuotes_eq htext
    refine ⟨quote, body, htext, hinside, Lexicon.even_backslashes hbody, fun c hc => ⟨?_, rfl, rfl⟩⟩
    intro p left closing s
    have hread := Lexicon.unescapeFrom_eq hbody 0 []
    rw [hc] at hread
    obtain ⟨place, hread⟩ := hread
    have hrefused : Lexicon.unescape (insideQuotes x.text) = .error ⟨place, c⟩ := by
      rw [hinside]
      exact hread
    exact operand_badEscape hkind hrefused

/-- A text with quotes, a backslash and a newline in it, and a literal of a character with two
unknown escapes behind an escaped backslash. -/
theorem string_literals_round_trip_mixed :
    (∃ t id init entity span, parseSource "x := \"a\\\"\\\\\\n\\'\"" = .ok t ∧ t.topLevel = [id] ∧
      t.expr? id = some ⟨.definition "x" .variable (some init) entity none, span⟩ ∧
      t.expr? init = some ⟨.text "a\"\\\n'", ⟨5, 16⟩⟩) ∧
    ∀ (p : Productions) (left : Option ExprId) (closing : TokenSet) (s : State),
      operand p left (Lexicon.cut .character 0 "'\\\\\\q\\z'".toList) closing s =
        .error ⟨.badEscape 'q', some ⟨0, 8⟩⟩ s := by
  obtain ⟨x, hx⟩ : ∃ x, x = Lexicon.cut .character 0 "'\\\\\\q\\z'".toList := ⟨_, rfl⟩
  have htokens : Lexicon.tokenize "'\\\\\\q\\z'".toList = .ok ⟨#[x], ⟨.eof, "", ⟨8, 8⟩⟩⟩ := by
    rw [hx]
    decide +kernel
  have hunknown : Lexicon.unknownEscape? (insideQuotes x.text) = some 'q' := by
    rw [hx]
    decide +kernel
  obtain ⟨-, -, haccepted, -⟩ := string_literals_round_trip.1 "a\"\\\n'"
  obtain ⟨quote, body, -, hinside, -, hrefused⟩ :=
    string_literals_round_trip.2 _ _ htokens x (by simp) (.inr (by rw [hx]; rfl))
  rw [hinside] at hunknown
  rw [← hx]
  refine ⟨haccepted (by decide +kernel), fun p left closing s => ?_⟩
  rw [(hrefused 'q' hunknown).1 p left closing s, hx]
  rfl

/-- A literal of as many letters as there are offsets is not read, alone or as a value. -/
theorem string_literals_without_room :
    (∀ tokens, Lexicon.tokenize (Lexicon.literal (List.replicate (2 ^ 32) 'a')) ≠ .ok tokens) ∧
    ∀ t, parseSource (String.ofList (['x', ' ', ':', '=', ' '] ++
      Lexicon.literal (List.replicate (2 ^ 32) 'a'))) ≠ .ok t := by
  have hlength : (List.replicate (2 ^ 32) 'a').length = Span.offsetLimit := List.length_replicate
  generalize List.replicate (2 ^ 32) 'a' = text at hlength
  have hlong : Span.offsetLimit ≤ byteLength (Lexicon.literal text) :=
    hlength.symm.le.trans (Lexicon.length_le_byteLength_literal text)
  constructor
  · intro tokens h
    obtain ⟨e, hrefused⟩ := Lexicon.tokenize_of_long (Lexicon.scans_literal 0 text) hlong
    rw [hrefused] at h
    cases h
  · intro t h
    have hsource : Span.offsetLimit ≤
        byteLength (['x', ' ', ':', '=', ' '] ++ Lexicon.literal text) := by
      rw [Text.byteLength_append]
      exact hlong.trans (Nat.le_add_left _ _)
    obtain ⟨e, hrefused⟩ := (parseSource_literal rfl).2 hsource
    rw [hrefused] at h
    cases h

end Grammar

end OnePass

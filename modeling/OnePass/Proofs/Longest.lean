import Mathlib.Data.List.Induction
import Mathlib.Data.List.Pairwise
import OnePass.Lexicon.Rules

/-!
# The longest match

What is taken at a place of a source. `Pattern.longest?` answers the longest start of a text that
a pattern describes, though it stops as soon as nothing more can follow (`longest?_some`,
`longest?_none`). `Lexicon.munch?` answers the longest start that any rule describes, and what it
is (`longest_of_munch?`, `munch?_none`). No text is described by two rules as different things,
but for the keywords, which are names as well and of which the keyword counts (`rules_yield`); so
it does not matter in which order the other rules stand.
-/

namespace OnePass

/-- Two classes of listed characters that have none in common. -/
def CharClass.apart (s t : CharClass) : Bool :=
  !s.complemented && !t.complemented &&
    s.ranges.all fun (low, high) => t.ranges.all fun (low', high') => high < low' || high' < low

theorem CharClass.not_contains_of_apart {s t : CharClass} {c : Char} (h : s.apart t = true)
    (hs : s.contains c = true) : t.contains c = false := by
  obtain ⟨⟨hs', ht'⟩, hranges⟩ : (s.complemented = false ∧ t.complemented = false) ∧
      ∀ r ∈ s.ranges, ∀ r' ∈ t.ranges, r.2 < r'.1 ∨ r'.2 < r.1 := by
    simpa [apart] using h
  rw [contains, hs', Bool.bne_false, List.any_eq_true] at hs
  obtain ⟨r, hr, hin⟩ := hs
  have hin : r.1 ≤ c ∧ c ≤ r.2 := by simpa using hin
  rw [contains, ht', Bool.bne_false, List.any_eq_false]
  intro r' hr' hin'
  have hin' : r'.1 ≤ c ∧ c ≤ r'.2 := by simpa using hin'
  rcases hranges r hr r' hr' with hlt | hlt
  · exact absurd (Char.le_trans hin'.1 hin.2) (Char.not_le.2 hlt)
  · exact absurd (Char.le_trans hin.1 hin'.2) (Char.not_le.2 hlt)

namespace Pattern

variable {a b : Pattern} {text : List Char} {n m : Nat} {c : Char}

/-! ## One pattern -/

/-- The first `n` characters of a text are the longest start of it that the pattern describes. -/
structure Longest (a : Pattern) (text : List Char) (n : Nat) : Prop where
  le : n ≤ text.length
  start : a.Matches (text.take n)
  most : ∀ m ≤ text.length, a.Matches (text.take m) → m ≤ n

/-- The pattern describes no start of the text. -/
def Fails (a : Pattern) (text : List Char) : Prop := ∀ m ≤ text.length, ¬a.Matches (text.take m)

theorem Longest.unique (h : a.Longest text n) (h' : a.Longest text m) : n = m :=
  Nat.le_antisymm (h'.most n h.le h.start) (h.most m h'.le h'.start)

theorem Fails.not_longest (h : a.Fails text) : ¬a.Longest text n := fun h' => h n h'.le h'.start

theorem Longest.cons (h : (a.derive c).Longest text n) : a.Longest (c :: text) (n + 1) := by
  refine ⟨Nat.succ_le_succ h.le, matches_derive.1 h.start, ?_⟩
  intro m hm hmatch
  cases m with
  | zero => exact Nat.zero_le _
  | succ m =>
    exact Nat.succ_le_succ (h.most m (Nat.le_of_succ_le_succ hm) (matches_derive.2 hmatch))

theorem longest_zero (hnull : a.nullable = true) (h : (a.derive c).Fails text) :
    a.Longest (c :: text) 0 := by
  refine ⟨Nat.zero_le _, nullable_iff.1 hnull, ?_⟩
  intro m hm hmatch
  cases m with
  | zero => exact Nat.le_refl _
  | succ m => exact absurd (matches_derive.2 hmatch) (h m (Nat.le_of_succ_le_succ hm))

theorem fails_cons (hnull : ¬a.nullable = true) (h : (a.derive c).Fails text) :
    a.Fails (c :: text) := by
  intro m hm hmatch
  cases m with
  | zero => exact hnull (nullable_iff.2 hmatch)
  | succ m => exact h m (Nat.le_of_succ_le_succ hm) (matches_derive.2 hmatch)

/-- A walk answers the longest start, counted from where it began, or else what it began with. -/
theorem longestFrom_eq (a : Pattern) (k : Nat) (best : Option Nat) (text : List Char) :
    (∃ n, a.Longest text n ∧ a.longestFrom k best text = some (k + n)) ∨
      (a.Fails text ∧ a.longestFrom k best text = best) := by
  induction text generalizing a k best with
  | nil =>
    by_cases hnull : a.nullable = true
    · refine .inl ⟨0, ⟨Nat.le_refl _, nullable_iff.1 hnull, fun m hm _ => hm⟩, ?_⟩
      rw [longestFrom, if_pos hnull, Nat.add_zero]
    · refine .inr ⟨fun m _ hmatch => hnull (nullable_iff.2 ?_), ?_⟩
      · rwa [List.take_nil] at hmatch
      · rw [longestFrom, if_neg hnull]
  | cons c rest ih =>
    -- the walk ends here, or goes on without finding anything
    have hstop : (a.derive c).Fails rest →
        a.longestFrom k best (c :: rest) = (if a.nullable then some k else best) →
        (∃ n, a.Longest (c :: rest) n ∧ a.longestFrom k best (c :: rest) = some (k + n)) ∨
          (a.Fails (c :: rest) ∧ a.longestFrom k best (c :: rest) = best) := by
      intro hfails hwalk
      by_cases hnull : a.nullable = true
      · exact .inl ⟨0, longest_zero hnull hfails, by rw [hwalk, if_pos hnull, Nat.add_zero]⟩
      · exact .inr ⟨fails_cons hnull hfails, by rw [hwalk, if_neg hnull]⟩
    cases hderive : a.derive c with
    | never =>
      refine hstop ?_ (by rw [longestFrom, hderive])
      rw [hderive]
      exact fun _ _ => not_matches_never
    | _ =>
      have hwalk : a.longestFrom k best (c :: rest) =
          (a.derive c).longestFrom (k + 1) (if a.nullable then some k else best) rest := by
        rw [longestFrom, hderive]
      rcases ih (a.derive c) (k + 1) (if a.nullable then some k else best) with
        ⟨n, hlongest, hn⟩ | ⟨hfails, hbest⟩
      · refine .inl ⟨n + 1, hlongest.cons, ?_⟩
        rw [hwalk, hn, Nat.add_assoc, Nat.add_comm 1 n]
      · exact hstop hfails (hwalk.trans hbest)

theorem longest?_some : a.longest? text = some n ↔ a.Longest text n := by
  unfold longest?
  rcases longestFrom_eq a 0 none text with ⟨m, hm, heq⟩ | ⟨hfails, heq⟩ <;> rw [heq]
  · rw [Nat.zero_add, Option.some.injEq]
    exact ⟨fun h => h ▸ hm, hm.unique⟩
  · exact ⟨nofun, fun h => absurd h hfails.not_longest⟩

theorem longest?_none : a.longest? text = none ↔ a.Fails text := by
  unfold longest?
  rcases longestFrom_eq a 0 none text with ⟨m, hm, heq⟩ | ⟨hfails, heq⟩ <;> rw [heq]
  · exact ⟨nofun, fun h => absurd hm h.not_longest⟩
  · exact ⟨fun _ => hfails, fun _ => rfl⟩

/-- Whether a pattern describes a text can be computed. -/
theorem longest?_length : a.longest? text = some text.length ↔ a.Matches text := by
  rw [longest?_some]
  constructor
  · intro h
    have hstart := h.start
    rwa [List.take_length] at hstart
  · intro h
    exact ⟨Nat.le_refl _, by rwa [List.take_length], fun m hm _ => hm⟩

theorem any_listed (chars : List Char) (d : Char) :
    ((chars.map fun c => (c, c)).any fun (low, high) => low ≤ d && d ≤ high) =
      decide (d ∈ chars) := by
  rw [List.any_map, Bool.eq_iff_iff, List.any_eq_true, decide_eq_true_eq]
  constructor
  · rintro ⟨c, hc, hd⟩
    obtain ⟨hlow, hhigh⟩ := Bool.and_eq_true_iff.1 hd
    rwa [Char.le_antisymm (of_decide_eq_true hhigh) (of_decide_eq_true hlow)]
  · intro hd
    have hself := decide_eq_true (Char.le_refl d)
    exact ⟨d, hd, Bool.and_eq_true_iff.2 ⟨hself, hself⟩⟩

theorem contains_oneOf {chars : List Char} {d : Char} :
    (CharClass.oneOf chars).contains d = true ↔ d ∈ chars := by
  unfold CharClass.contains CharClass.oneOf
  rw [any_listed, Bool.bne_false, decide_eq_true_eq]

theorem contains_noneOf {chars : List Char} {d : Char} :
    (CharClass.noneOf chars).contains d = true ↔ d ∉ chars := by
  unfold CharClass.contains CharClass.noneOf
  rw [any_listed, Bool.bne_true, Bool.not_eq_true', decide_eq_false_iff_not]

theorem matches_exactly {word : String} : (exactly word).Matches text ↔ text = word.toList := by
  unfold exactly
  generalize word.toList = chars
  induction chars generalizing text with
  | nil =>
    constructor
    · rintro ⟨⟩
      rfl
    · rintro rfl
      exact .empty
  | cons c rest ih =>
    rw [List.foldr_cons, matches_followed]
    constructor
    · rintro ⟨s, t, rfl, hs, ht⟩
      rw [ih.1 ht]
      cases hs with
      | one hc =>
        rw [List.mem_singleton.1 (contains_oneOf.1 hc)]
        rfl
    · rintro rfl
      exact ⟨[c], rest, rfl, .one (contains_oneOf.2 List.mem_cons_self), ih.2 rfl⟩

/-- Many characters of a class. -/
theorem matches_many_one {chars : CharClass} :
    (many (.one chars)).Matches text ↔ ∀ c ∈ text, chars.contains c = true := by
  constructor
  · intro h
    generalize hp : many (.one chars) = p at h
    induction h with
    | done => exact nofun
    | more hs _ _ ih =>
      cases hp
      cases hs with
      | one hc =>
        intro d hd
        rcases List.mem_cons.1 hd with rfl | hd
        · exact hc
        · exact ih rfl d hd
    | _ => cases hp
  · intro h
    induction text with
    | nil => exact .done
    | cons c rest ih =>
      rw [← List.singleton_append]
      exact .more (.one (h c List.mem_cons_self)) (ih fun d hd => h d (List.mem_cons_of_mem _ hd))

/-- A word and what a pattern describes after it. -/
theorem matches_after {word : String} :
    (followed (exactly word) a).Matches text ↔
      ∃ rest, text = word.toList ++ rest ∧ a.Matches rest := by
  rw [matches_followed]
  constructor
  · rintro ⟨s, t, rfl, hs, ht⟩
    exact ⟨t, by rw [matches_exactly.1 hs], ht⟩
  · rintro ⟨rest, rfl, hrest⟩
    exact ⟨word.toList, rest, rfl, matches_exactly.2 rfl, hrest⟩

/-! ## Patterns that share no text -/

/-- The classes of the characters that a text of the pattern may begin with. -/
def firsts : Pattern → List CharClass
  | .never | .empty => []
  | .one chars => [chars]
  | .either a b => a.firsts ++ b.firsts
  | .followed a b => if a.nullable then a.firsts ++ b.firsts else a.firsts
  | .many a => a.firsts

/-- Every text of the pattern holds the character. -/
def needs (c : Char) : Pattern → Bool
  | .never => true
  | .empty | .many _ => false
  | .one chars => chars = .oneOf [c]
  | .either a b => a.needs c && b.needs c
  | .followed a b => a.needs c || b.needs c

/-- Some text of the pattern may hold the character. -/
def allows (c : Char) : Pattern → Bool
  | .never | .empty => false
  | .one chars => chars.contains c
  | .either a b | .followed a b => a.allows c || b.allows c
  | .many a => a.allows c

/-- No text can be one of both patterns: they begin differently, or a character that the texts of
one hold is not in those of the other. -/
def apart (a b : Pattern) : Bool :=
  a.firsts.all (fun s => b.firsts.all s.apart) ||
    ['.', 'b', 'x'].any fun c => a.needs c && !b.allows c || b.needs c && !a.allows c

theorem contains_firsts (h : a.Matches (c :: text)) : ∃ s ∈ a.firsts, s.contains c = true := by
  induction a generalizing text with
  | never | empty => cases h
  | one chars =>
    cases h with
    | one hc => exact ⟨chars, List.mem_singleton_self _, hc⟩
  | either a b iha ihb =>
    rcases matches_either.1 h with h | h
    · obtain ⟨s, hs, hc⟩ := iha h
      exact ⟨s, List.mem_append_left _ hs, hc⟩
    · obtain ⟨s, hs, hc⟩ := ihb h
      exact ⟨s, List.mem_append_right _ hs, hc⟩
  | followed a b iha ihb =>
    obtain ⟨s, t, heq, hs, ht⟩ := matches_followed.1 h
    unfold firsts
    cases s with
    | nil =>
      obtain rfl : c :: text = t := heq
      rw [if_pos (nullable_iff.2 hs)]
      obtain ⟨s, hs, hc⟩ := ihb ht
      exact ⟨s, List.mem_append_right _ hs, hc⟩
    | cons d s =>
      obtain ⟨rfl, -⟩ := List.cons.inj heq
      obtain ⟨s, hs, hc⟩ := iha hs
      refine ⟨s, ?_, hc⟩
      split
      · exact List.mem_append_left _ hs
      · exact hs
  | many a ih =>
    obtain ⟨s, t, -, hs, -⟩ := matches_many_cons.1 h
    exact ih hs

theorem mem_of_needs (hneeds : a.needs c = true) (h : a.Matches text) : c ∈ text := by
  induction h with
  | empty | done | more => cases hneeds
  | @one chars d hd =>
    obtain rfl : chars = .oneOf [c] := by simpa [needs] using hneeds
    rw [List.mem_singleton.1 (contains_oneOf.1 hd)]
    exact List.mem_singleton_self _
  | left _ ih => exact ih (Bool.and_eq_true_iff.1 hneeds).1
  | right _ ih => exact ih (Bool.and_eq_true_iff.1 hneeds).2
  | followed _ _ iha ihb =>
    rcases Bool.or_eq_true_iff.1 hneeds with hneeds | hneeds
    · exact List.mem_append_left _ (iha hneeds)
    · exact List.mem_append_right _ (ihb hneeds)

theorem allows_of_mem (h : a.Matches text) (hc : c ∈ text) : a.allows c = true := by
  induction h with
  | empty | done => cases hc
  | one hd =>
    obtain rfl := List.mem_singleton.1 hc
    exact hd
  | left _ ih => exact Bool.or_eq_true_iff.2 (.inl (ih hc))
  | right _ ih => exact Bool.or_eq_true_iff.2 (.inr (ih hc))
  | followed _ _ iha ihb =>
    rcases List.mem_append.1 hc with hc | hc
    · exact Bool.or_eq_true_iff.2 (.inl (iha hc))
    · exact Bool.or_eq_true_iff.2 (.inr (ihb hc))
  | more _ _ iha ihb =>
    rcases List.mem_append.1 hc with hc | hc
    · exact iha hc
    · exact ihb hc

theorem not_matches_of_apart (hapart : a.apart b = true) (hnull : ¬a.nullable = true)
    (ha : a.Matches text) : ¬b.Matches text := by
  intro hb
  rcases Bool.or_eq_true_iff.1 hapart with hfirst | hchars
  · cases text with
    | nil => exact hnull (nullable_iff.2 ha)
    | cons c rest =>
      obtain ⟨s, hs, hcs⟩ := contains_firsts ha
      obtain ⟨t, ht, hct⟩ := contains_firsts hb
      have hst := List.all_eq_true.1 (List.all_eq_true.1 hfirst s hs) t ht
      rw [CharClass.not_contains_of_apart hst hcs] at hct
      cases hct
  · obtain ⟨c, -, hc⟩ := List.any_eq_true.1 hchars
    have hc : a.needs c = true ∧ b.allows c = false ∨ b.needs c = true ∧ a.allows c = false := by
      simpa using hc
    rcases hc with ⟨hneeds, hlacks⟩ | ⟨hneeds, hlacks⟩
    · rw [allows_of_mem hb (mem_of_needs hneeds ha)] at hlacks
      cases hlacks
    · rw [allows_of_mem ha (mem_of_needs hneeds hb)] at hlacks
      cases hlacks

end Pattern

/-! ## All rules -/

namespace Lexicon

variable {text piece other : List Char} {role role' : Role}

/-- A rule describes the text as something. -/
def Describes (text : List Char) (role : Role) : Prop :=
  ∃ rule ∈ rules, rule.role = role ∧ rule.pattern.Matches text

/-- No rule describes a start of the text. -/
def Stuck (text : List Char) : Prop := ∀ piece role, piece <+: text → ¬Describes piece role

/-- The piece is the longest start of the text that a rule describes, and `role` is what it is. A
keyword is also described as a name, which does not count. -/
structure Longest (text piece : List Char) (role : Role) : Prop where
  start : piece <+: text
  described : Describes piece role
  most : ∀ other role', other <+: text → Describes other role' → other.length ≤ piece.length
  only : ∀ role', Describes piece role' → role' = role ∨ role' = .token .name

theorem Describes.ne_nil (h : Describes text role) : text ≠ [] := by
  have hrules : ∀ rule ∈ rules, rule.pattern.nullable = false := by decide
  rintro rfl
  obtain ⟨rule, hrule, -, hmatch⟩ := h
  rw [← Pattern.nullable_iff, hrules rule hrule] at hmatch
  cases hmatch

/-- There is only one longest piece, and it is only one thing. -/
theorem Longest.unique (h : Longest text piece role) (h' : Longest text other role') :
    piece = other ∧ role = role' := by
  have hlength : piece.length = other.length :=
    Nat.le_antisymm (h'.most _ _ h.start h.described) (h.most _ _ h'.start h'.described)
  obtain rfl : piece = other := (List.prefix_of_prefix_length_le h.start h'.start
    (Nat.le_of_eq hlength)).eq_of_length hlength
  refine ⟨rfl, ?_⟩
  rcases h.only _ h'.described with heq | hname
  · exact heq.symm
  · rcases h'.only _ h.described with heq | hname'
    · exact heq
    · exact hname'.trans hname.symm

/-- A piece that is the longest start of a text is the longest start of what it is cut from too. -/
theorem Longest.shorten (h : Longest text piece role) (hstart : piece <+: other)
    (hother : other <+: text) : Longest other piece role :=
  ⟨hstart, h.described, fun start role' hs => h.most start role' (hs.trans hother), h.only⟩

/-! ## What two rules describe -/

/-- The rules of what is dropped. -/
def gapRules : List Rule :=
  [⟨(anyOf [' ', '\t', '\r']).oneOrMore, .blanks⟩,
   ⟨.followed (.exactly "//") (.many onLine), .comment⟩]

/-- The rules of one text each. -/
def wordRules : List Rule := fixedWords.map fun (text, kind) => ⟨.exactly text, .token kind⟩

/-- The rules of a form each. -/
def formRules : List Rule := formedWords.map fun (pattern, kind) => ⟨pattern, .token kind⟩

theorem rules_eq : rules = gapRules ++ wordRules ++ formRules := rfl

/-- If the first rule describes a text as one thing and the second as another, then the second
describes it as a name. -/
def Yields (r r' : Rule) : Prop :=
  ∀ text, r.pattern.Matches text → r'.pattern.Matches text →
    r'.role = r.role ∨ r'.role = .token .name

theorem fixedWord_role : ∀ word ∈ fixedWords, ∀ rule ∈ rules,
    rule.pattern.longest? word.1.toList = some word.1.toList.length →
      rule.role = .token word.2 ∨ rule.role = .token .name := by
  decide +kernel

theorem formRules_apart :
    (gapRules ++ formRules).Pairwise fun r r' => r.pattern.apart r'.pattern = true := by
  decide +kernel

theorem yields_of_word {r r' : Rule} (hr : r ∈ wordRules) (hr' : r' ∈ rules) : Yields r r' := by
  obtain ⟨word, hword, rfl⟩ := List.mem_map.1 hr
  intro text htext hmatch
  obtain rfl := Pattern.matches_exactly.1 htext
  exact fixedWord_role word hword r' hr' (Pattern.longest?_length.2 hmatch)

theorem yields_of_apart {r r' : Rule} (hr : r ∈ gapRules ++ formRules)
    (hapart : r.pattern.apart r'.pattern = true) : Yields r r' := by
  have hnull : ∀ rule ∈ gapRules ++ formRules, rule.pattern.nullable = false := by decide
  intro text h h'
  exact absurd h' (Pattern.not_matches_of_apart hapart (by rw [hnull r hr]; exact nofun) h)

/-- Blanks and comments are no words. -/
theorem yields_of_gap {r r' : Rule} (hr : r ∈ gapRules) (hr' : r' ∈ wordRules) : Yields r r' := by
  have hgap : ∀ rule ∈ gapRules, ∀ kind, rule.role ≠ .token kind := by
    intro rule hrule kind
    simp only [gapRules, List.mem_cons, List.not_mem_nil, or_false] at hrule
    rcases hrule with rfl | rfl <;> exact nofun
  intro text h h'
  have hrules : r ∈ rules := List.mem_append_left _ (List.mem_append_left _ hr)
  rcases yields_of_word hr' hrules text h' h with heq | hname
  · obtain ⟨word, -, rfl⟩ := List.mem_map.1 hr'
    exact absurd heq (hgap r hr _)
  · exact absurd hname (hgap r hr _)

/-- Of two rules that describe a text as different things, the later one describes it as a name. -/
theorem rules_yield : rules.Pairwise Yields := by
  obtain ⟨hgaps, hforms, hcross⟩ := List.pairwise_append.1 formRules_apart
  have hwords : ∀ rule ∈ wordRules, rule ∈ rules := fun rule hrule =>
    List.mem_append_left _ (List.mem_append_right _ hrule)
  rw [rules_eq, List.pairwise_append, List.pairwise_append]
  refine ⟨⟨?_, ?_, fun r hr r' hr' => yields_of_gap hr hr'⟩, ?_, ?_⟩
  · exact hgaps.imp_of_mem fun hr _ => yields_of_apart (List.mem_append_left _ hr)
  · exact List.pairwise_of_forall_mem_list fun r hr r' hr' => yields_of_word hr (hwords r' hr')
  · exact hforms.imp_of_mem fun hr _ => yields_of_apart (List.mem_append_right _ hr)
  · intro r hr r' hr'
    rcases List.mem_append.1 hr with hr | hr
    · exact yields_of_apart (List.mem_append_left _ hr) (hcross r hr r' hr')
    · exact yields_of_word hr (List.mem_append_right _ hr')

/-! ## What is taken -/

/-- What rules find at the start of a text: nothing if none of them describes a start of it, and
else the longest start, by the first of the rules that describes it. -/
def Finds (asked : List Rule) (text : List Char) : Option (Nat × Role) → Prop
  | none => ∀ rule ∈ asked, rule.pattern.Fails text
  | some (n, role) =>
    ∃ before rule after, asked = before ++ rule :: after ∧ rule.role = role ∧
      rule.pattern.Longest text n ∧
      (∀ r ∈ asked, ∀ m, r.pattern.Longest text m → m ≤ n) ∧
      ∀ r ∈ before, ¬r.pattern.Longest text n

theorem finds_nil : Finds [] text none := nofun

variable {asked : List Rule} {rule : Rule} {found : Option (Nat × Role)} {n : Nat}

/-- A rule that describes no start of the text finds nothing more. -/
theorem Finds.fails (h : Finds asked text found) (hfails : rule.pattern.Fails text) :
    Finds (asked ++ [rule]) text found := by
  cases found with
  | none =>
    intro r hr
    rcases List.mem_append.1 hr with hr | hr
    · exact h r hr
    · rwa [List.mem_singleton.1 hr]
  | some best =>
    obtain ⟨before, winner, after, rfl, hrole, hlongest, hmost, hbefore⟩ := h
    refine ⟨before, winner, after ++ [rule], ?_, hrole, hlongest, ?_, hbefore⟩
    · rw [List.append_assoc, List.cons_append]
    · intro r hr m hm
      rcases List.mem_append.1 hr with hr | hr
      · exact hmost r hr m hm
      · rw [List.mem_singleton.1 hr] at hm
        exact absurd hm hfails.not_longest

/-- A rule that describes a longer start than all before it is the first to describe it. -/
theorem finds_longer (hlongest : rule.pattern.Longest text n)
    (hshorter : ∀ r ∈ asked, ∀ m, r.pattern.Longest text m → m < n) :
    Finds (asked ++ [rule]) text (some (n, rule.role)) := by
  refine ⟨asked, rule, [], rfl, rfl, hlongest, ?_, ?_⟩
  · intro r hr m hm
    rcases List.mem_append.1 hr with hr | hr
    · exact Nat.le_of_lt (hshorter r hr m hm)
    · rw [List.mem_singleton.1 hr] at hm
      exact Nat.le_of_eq (hm.unique hlongest)
  · exact fun r hr h => Nat.lt_irrefl n (hshorter r hr n h)

/-- A rule that describes no longer start than another one before it does not count. -/
theorem Finds.better (h : Finds asked text found) (hlongest : rule.pattern.Longest text n) :
    Finds (asked ++ [rule]) text (better found n rule.role) := by
  unfold Lexicon.better
  match found with
  | none => exact finds_longer hlongest fun r hr m hm => absurd hm (h r hr).not_longest
  | some (best, role) =>
    obtain ⟨before, winner, after, rfl, hrole, hwinner, hmost, hbefore⟩ := h
    dsimp only
    split
    · rename_i hlt
      exact finds_longer hlongest fun r hr m hm => Nat.lt_of_le_of_lt (hmost r hr m hm) hlt
    · rename_i hge
      refine ⟨before, winner, after ++ [rule], ?_, hrole, hwinner, ?_, hbefore⟩
      · rw [List.append_assoc, List.cons_append]
      · intro r hr m hm
        rcases List.mem_append.1 hr with hr | hr
        · exact hmost r hr m hm
        · rw [List.mem_singleton.1 hr] at hm
          rw [hm.unique hlongest]
          exact Nat.le_of_not_lt hge

theorem munch?_finds (text : List Char) : Finds rules text (munch? text) := by
  unfold munch?
  generalize rules = asked
  induction asked using List.reverseRecOn with
  | nil => exact finds_nil
  | append_singleton asked rule ih =>
    rw [List.foldl_append, List.foldl_cons, List.foldl_nil]
    cases hrule : rule.pattern.longest? text with
    | none => exact ih.fails (Pattern.longest?_none.1 hrule)
    | some n => exact ih.better (Pattern.longest?_some.1 hrule)

/-- A rule that describes a start of a text has a longest one, which is at least as long. -/
theorem exists_longest {pattern : Pattern} (hstart : piece <+: text) (h : pattern.Matches piece) :
    ∃ n, pattern.Longest text n ∧ piece.length ≤ n := by
  have htake : pattern.Matches (text.take piece.length) := by
    rwa [← List.prefix_iff_eq_take.1 hstart]
  cases hlongest : pattern.longest? text with
  | none => exact absurd htake (Pattern.longest?_none.1 hlongest _ hstart.length_le)
  | some n =>
    have hlongest := Pattern.longest?_some.1 hlongest
    exact ⟨n, hlongest, hlongest.most _ hstart.length_le htake⟩

/-- What is taken is the longest start that a rule describes. -/
theorem longest_of_munch? (h : munch? text = some (n, role)) :
    Longest text (text.take n) role ∧ (text.take n).length = n := by
  obtain ⟨before, rule, after, hrules, rfl, hlongest, hmost, hbefore⟩ := h ▸ munch?_finds text
  have hlength : (text.take n).length = n := List.length_take_of_le hlongest.le
  have hrule : rule ∈ rules := by
    rw [hrules]
    exact List.mem_append_right _ List.mem_cons_self
  refine ⟨⟨List.take_prefix _ _, ⟨rule, hrule, rfl, hlongest.start⟩, ?_, ?_⟩, hlength⟩
  · rintro other _ hstart ⟨r, hr, -, hmatch⟩
    obtain ⟨m, hm, hle⟩ := exists_longest hstart hmatch
    rw [hlength]
    exact Nat.le_trans hle (hmost r hr m hm)
  · rintro _ ⟨r, hr, rfl, hmatch⟩
    have hpairwise := rules_yield
    rw [hrules] at hr hpairwise
    have hafter := (List.pairwise_cons.1 (List.pairwise_append.1 hpairwise).2.1).1
    rcases List.mem_append.1 hr with hr | hr
    · -- an earlier rule that describes the piece would have been the one
      obtain ⟨m, hm, hle⟩ := exists_longest (List.take_prefix _ _) hmatch
      rw [hlength] at hle
      obtain rfl := Nat.le_antisymm (hmost r (hrules ▸ List.mem_append_left _ hr) m hm) hle
      exact absurd hm (hbefore r hr)
    · rcases List.mem_cons.1 hr with rfl | hr
      · exact .inl rfl
      · exact hafter r hr _ hlongest.start hmatch

theorem stuck_of_munch? (h : munch? text = none) : Stuck text := by
  have hfinds : Finds rules text none := h ▸ munch?_finds text
  rintro piece role hstart ⟨rule, hrule, -, hmatch⟩
  obtain ⟨n, hn, -⟩ := exists_longest hstart hmatch
  exact (hfinds rule hrule).not_longest hn

theorem munch?_of_longest (h : Longest text piece role) :
    munch? text = some (piece.length, role) := by
  cases hmunch : munch? text with
  | none => exact absurd h.described (stuck_of_munch? hmunch piece role h.start)
  | some found =>
    obtain ⟨hlongest, hlength⟩ := longest_of_munch? hmunch
    obtain ⟨hpiece, hrole⟩ := hlongest.unique h
    rw [← hpiece, hlength, ← hrole]

theorem munch?_none : munch? text = none ↔ Stuck text := by
  refine ⟨stuck_of_munch?, fun h => ?_⟩
  cases hmunch : munch? text with
  | none => rfl
  | some found =>
    have hlongest := (longest_of_munch? hmunch).1
    exact absurd hlongest.described (h _ _ hlongest.start)

end Lexicon

end OnePass

/-!
# Patterns

A pattern describes a set of texts by choice, sequence and repetition of character classes;
`Pattern.Matches` says which texts. Matching steps through a text by derivatives: the
derivative of a pattern by a character describes what may follow that character
(`matches_derive`). `Pattern.longest?` is the length of the longest start of a text that
the pattern describes.
-/

namespace OnePass

/-- A set of characters: some ranges, both ends included, or all that lies outside them. -/
structure CharClass where
  ranges : List (Char × Char)
  complemented : Bool
deriving DecidableEq

namespace CharClass

/-- Whether `c` is in the class. -/
def contains (s : CharClass) (c : Char) : Bool :=
  (s.ranges.any fun (low, high) => low ≤ c && c ≤ high) != s.complemented

/-- The characters of some ranges. -/
def within (ranges : List (Char × Char)) : CharClass := ⟨ranges, false⟩

/-- The characters listed. -/
def oneOf (chars : List Char) : CharClass := ⟨chars.map fun c => (c, c), false⟩

/-- All characters but those listed. -/
def noneOf (chars : List Char) : CharClass := ⟨chars.map fun c => (c, c), true⟩

end CharClass

/-- A set of texts, by its form. -/
inductive Pattern where
  /-- No text. -/
  | never
  /-- The empty text. -/
  | empty
  /-- One character of a class. -/
  | one (chars : CharClass)
  /-- What either pattern describes. -/
  | either (a b : Pattern)
  /-- A text of the first, then one of the second. -/
  | followed (a b : Pattern)
  /-- Any number of texts of the pattern, one after the other. -/
  | many (a : Pattern)
deriving DecidableEq

namespace Pattern

/-- The texts that a pattern describes. -/
inductive Matches : Pattern → List Char → Prop where
  | empty : Matches .empty []
  | one {chars : CharClass} {c : Char} : chars.contains c = true → Matches (.one chars) [c]
  | left {a b : Pattern} {text : List Char} : Matches a text → Matches (.either a b) text
  | right {a b : Pattern} {text : List Char} : Matches b text → Matches (.either a b) text
  | followed {a b : Pattern} {s t : List Char} :
      Matches a s → Matches b t → Matches (.followed a b) (s ++ t)
  | done {a : Pattern} : Matches (.many a) []
  | more {a : Pattern} {s t : List Char} :
      Matches a s → Matches (.many a) t → Matches (.many a) (s ++ t)

/-- At least one text of the pattern. -/
def oneOrMore (a : Pattern) : Pattern := .followed a (.many a)

/-- A text of the pattern, or nothing. -/
def optional (a : Pattern) : Pattern := .either .empty a

/-- Exactly this text. -/
def exactly (text : String) : Pattern :=
  text.toList.foldr (fun c rest => .followed (.one (.oneOf [c])) rest) .empty

/-! ## Derivatives -/

/-- Whether the pattern describes the empty text. -/
def nullable : Pattern → Bool
  | .never => false
  | .empty => true
  | .one _ => false
  | .either a b => a.nullable || b.nullable
  | .followed a b => a.nullable && b.nullable
  | .many _ => true

/-- Choice that keeps no side without a text. -/
def orElse : Pattern → Pattern → Pattern
  | .never, b => b
  | a, .never => a
  | a, b => .either a b

/-- Sequence that keeps no empty first part, and nothing if the first part has no text. -/
def andThen : Pattern → Pattern → Pattern
  | .never, _ => .never
  | .empty, b => b
  | a, b => .followed a b

/-- What may follow `c` in the texts of the pattern. -/
def derive (c : Char) : Pattern → Pattern
  | .never => .never
  | .empty => .never
  | .one chars => if chars.contains c then .empty else .never
  | .either a b => (a.derive c).orElse (b.derive c)
  | .followed a b =>
    let first := (a.derive c).andThen b
    if a.nullable then first.orElse (b.derive c) else first
  | .many a => (a.derive c).andThen (.many a)

/-- Walks on through a text after `length` characters, `best` being the longest start found
so far. -/
def longestFrom (pattern : Pattern) (length : Nat) (best : Option Nat) : List Char → Option Nat
  | [] => if pattern.nullable then some length else best
  | c :: rest =>
    let best := if pattern.nullable then some length else best
    match pattern.derive c with
    | .never => best
    | next => longestFrom next (length + 1) best rest

/-- Length of the longest start of `text` that the pattern describes. -/
def longest? (pattern : Pattern) (text : List Char) : Option Nat :=
  pattern.longestFrom 0 none text

/-! ## What derivatives describe -/

theorem nullable_iff {a : Pattern} : a.nullable = true ↔ a.Matches [] := by
  constructor
  · intro h
    induction a with
    | never => cases h
    | empty => exact .empty
    | one => cases h
    | either a b iha ihb =>
      rcases Bool.or_eq_true _ _ ▸ h with h | h
      · exact .left (iha h)
      · exact .right (ihb h)
    | followed a b iha ihb =>
      obtain ⟨ha, hb⟩ := Bool.and_eq_true _ _ ▸ h
      exact .followed (iha ha) (ihb hb)
    | many a => exact .done
  · intro h
    generalize ht : ([] : List Char) = text at h
    induction h with
    | empty => rfl
    | one => cases ht
    | left _ ih => simp [nullable, ih ht]
    | right _ ih => simp [nullable, ih ht]
    | followed _ _ iha ihb =>
      obtain ⟨rfl, rfl⟩ := List.append_eq_nil_iff.1 ht.symm
      simp [nullable, iha rfl, ihb rfl]
    | done => rfl
    | more => rfl

theorem not_matches_never {text : List Char} : ¬Matches .never text := nofun

theorem matches_either {a b : Pattern} {text : List Char} :
    (Pattern.either a b).Matches text ↔ a.Matches text ∨ b.Matches text := by
  constructor
  · intro h
    cases h with
    | left h => exact .inl h
    | right h => exact .inr h
  · rintro (h | h)
    · exact .left h
    · exact .right h

theorem matches_followed {a b : Pattern} {text : List Char} :
    (Pattern.followed a b).Matches text ↔ ∃ s t, text = s ++ t ∧ a.Matches s ∧ b.Matches t := by
  constructor
  · intro h
    cases h with
    | followed hs ht => exact ⟨_, _, rfl, hs, ht⟩
  · rintro ⟨s, t, rfl, hs, ht⟩
    exact .followed hs ht

theorem matches_orElse {a b : Pattern} {text : List Char} :
    (a.orElse b).Matches text ↔ a.Matches text ∨ b.Matches text := by
  unfold orElse
  split
  · exact ⟨.inr, fun h => h.resolve_left not_matches_never⟩
  · exact ⟨.inl, fun h => h.resolve_right not_matches_never⟩
  · exact matches_either

theorem matches_andThen {a b : Pattern} {text : List Char} :
    (a.andThen b).Matches text ↔ ∃ s t, text = s ++ t ∧ a.Matches s ∧ b.Matches t := by
  unfold andThen
  split
  · constructor
    · exact fun h => (not_matches_never h).elim
    · rintro ⟨s, t, -, h, -⟩
      exact (not_matches_never h).elim
  · constructor
    · exact fun h => ⟨[], text, rfl, .empty, h⟩
    · rintro ⟨s, t, rfl, hs, ht⟩
      cases hs
      exact ht
  · exact matches_followed

/-- A repetition starts with a part that is not empty, unless it is empty itself. -/
theorem matches_many_cons {a : Pattern} {c : Char} {text : List Char} :
    (Pattern.many a).Matches (c :: text) ↔
      ∃ s t, text = s ++ t ∧ a.Matches (c :: s) ∧ (Pattern.many a).Matches t := by
  constructor
  · intro h
    generalize hp : Pattern.many a = p at h
    generalize hw : c :: text = w at h
    induction h with
    | @more b s t hs ht _ iht =>
      cases hp
      cases s with
      | nil => exact iht rfl hw
      | cons d s =>
        obtain ⟨rfl, rfl⟩ := List.cons.inj hw
        exact ⟨s, t, rfl, hs, ht⟩
    | done => cases hw
    | _ => cases hp
  · rintro ⟨s, t, rfl, hs, ht⟩
    exact .more (s := c :: s) hs ht

/-- The derivative by `c` describes what may follow `c`. -/
theorem matches_derive {a : Pattern} {c : Char} {text : List Char} :
    (a.derive c).Matches text ↔ a.Matches (c :: text) := by
  induction a generalizing text with
  | never => exact ⟨nofun, nofun⟩
  | empty => exact ⟨nofun, nofun⟩
  | one chars =>
    unfold derive
    split
    · rename_i h
      constructor
      · rintro ⟨⟩
        exact .one h
      · rintro ⟨⟩
        exact .empty
    · rename_i h
      constructor
      · nofun
      · intro h'
        cases h' with
        | one h' => exact (h h').elim
  | either a b iha ihb => rw [derive, matches_orElse, matches_either, iha, ihb]
  | followed a b iha ihb =>
    have first : ((a.derive c).andThen b).Matches text ↔
        ∃ s t, text = s ++ t ∧ a.Matches (c :: s) ∧ b.Matches t := by
      simp only [matches_andThen, iha]
    have split : (Pattern.followed a b).Matches (c :: text) ↔
        (∃ s t, text = s ++ t ∧ a.Matches (c :: s) ∧ b.Matches t) ∨
          a.Matches [] ∧ b.Matches (c :: text) := by
      rw [matches_followed]
      constructor
      · rintro ⟨s, t, h, hs, ht⟩
        cases s with
        | nil =>
          cases h
          exact .inr ⟨hs, ht⟩
        | cons d s =>
          obtain ⟨rfl, rfl⟩ := List.cons.inj h
          exact .inl ⟨s, t, rfl, hs, ht⟩
      · rintro (⟨s, t, rfl, hs, ht⟩ | ⟨hs, ht⟩)
        · exact ⟨c :: s, t, rfl, hs, ht⟩
        · exact ⟨[], c :: text, rfl, hs, ht⟩
    rw [derive, split, ← nullable_iff]
    by_cases h : a.nullable = true
    · simp only [h, if_true, matches_orElse, first, ihb, true_and]
    · simp only [h, Bool.false_eq_true, if_false, first, false_and, or_false]
  | many a ih =>
    rw [derive, matches_andThen, matches_many_cons]
    simp only [ih]

end Pattern

end OnePass

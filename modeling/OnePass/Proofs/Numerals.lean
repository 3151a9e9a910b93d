import Mathlib.Data.Nat.Digits.Defs
import Mathlib.Tactic.Ring
import OnePass.Proofs.Initializers

/-!
# Whole numbers

A whole number is read digit by digit (`Number.digitsFrom?`), after the mark of its radix. What it
denotes is said here by `Nat.ofDigits`, of the places of its digits in one list of digits
(`denoted`). The two agree on digits of the radix, of which there may be any number and with any
zeros in front (`digitsValue?_eq`), and the tokens of whole numbers consist of these
(`Lexicon.Word.numeral`). So in `integer_literals_denote` only the number decides whether a literal
is accepted, and then its size and its type.
-/

namespace OnePass

/-! ## Ranges of characters -/

namespace CharClass

variable {c low high : Char} {ranges : List (Char × Char)}

/-- The characters of a range. -/
def spanned (low high : Char) : List Char :=
  (List.range' low.toNat (high.toNat + 1 - low.toNat)).map Char.ofNat

theorem mem_spanned (hlow : low ≤ c) (hhigh : c ≤ high) : c ∈ spanned low high := by
  have hlow : low.toNat ≤ c.toNat := hlow
  have hhigh : c.toNat ≤ high.toNat := hhigh
  refine List.mem_map.2 ⟨c.toNat, List.mem_range'_1.2 ⟨hlow, by omega⟩, Char.ofNat_toNat c⟩

/-- A class of ranges has no characters but those of its ranges. -/
theorem mem_of_within (h : (within ranges).contains c = true) :
    c ∈ ranges.flatMap fun range => spanned range.1 range.2 := by
  have hany : ∃ low high, (low, high) ∈ ranges ∧ low ≤ c ∧ c ≤ high := by
    simpa [contains, within] using h
  obtain ⟨low, high, hmem, hlow, hhigh⟩ := hany
  exact List.mem_flatMap.2 ⟨_, hmem, mem_spanned hlow hhigh⟩

end CharClass

/-! ## What digits denote -/

namespace Number

variable {radix : Nat} {digits : List Char} {c : Char}

/-- The number of a digit of either case, which is sixteen for what is no digit. -/
def digitPlace (c : Char) : Nat :=
  ['0', '1', '2', '3', '4', '5', '6', '7', '8', '9', 'a', 'b', 'c', 'd', 'e', 'f'].idxOf c.toLower

/-- The number that digits denote. -/
def denoted (radix : Nat) (digits : List Char) : Nat :=
  Nat.ofDigits radix (digits.map digitPlace).reverse

/-- A digit is worth more the more digits come after it. -/
theorem denoted_cons (radix : Nat) (c : Char) (digits : List Char) :
    denoted radix (c :: digits) = digitPlace c * radix ^ digits.length + denoted radix digits := by
  unfold denoted
  rw [List.map_cons, List.reverse_cons, Nat.ofDigits_append, Nat.ofDigits_singleton,
    List.length_reverse, List.length_map]
  ring

/-- The characters that are digits of a radix, for the reading too. -/
def IsDigit (radix : Nat) (c : Char) : Prop :=
  digitPlace c < radix ∧ digitValue? c = some (digitPlace c)

instance : Decidable (IsDigit radix c) := inferInstanceAs (Decidable (_ ∧ _))

theorem digitsFrom?_eq (h : ∀ c ∈ digits, IsDigit radix c) (value : Nat) :
    digitsFrom? radix value digits =
      some (value * radix ^ digits.length + denoted radix digits) := by
  induction digits generalizing value with
  | nil => simp [digitsFrom?, denoted]
  | cons c digits ih =>
    obtain ⟨hlt, hvalue⟩ := h c List.mem_cons_self
    rw [digitsFrom?, hvalue]
    dsimp only
    rw [if_pos hlt, ih (fun d hd => h d (List.mem_cons_of_mem _ hd)), denoted_cons,
      List.length_cons, pow_succ]
    congr 1
    ring

/-- What is read is what the digits denote, however many they are. -/
theorem digitsValue?_eq (hne : digits ≠ []) (h : ∀ c ∈ digits, IsDigit radix c) :
    digitsValue? radix digits = some (denoted radix digits) := by
  unfold digitsValue?
  rw [if_neg (by simpa using hne), digitsFrom?_eq h, zero_mul, zero_add]

end Number

/-! ## Tokens of whole numbers -/

/-- The radix of a whole number, by the kind of its token. -/
def TokenKind.radix : TokenKind → Nat
  | .binary => 2
  | .hexadecimal => 16
  | _ => 10

/-- What stands before the digits of a whole number. -/
def TokenKind.radixMark : TokenKind → List Char
  | .binary => ['0', 'b']
  | .hexadecimal => ['0', 'x']
  | _ => []

namespace Lexicon

open Number (IsDigit)

variable {piece : List Char} {kind : TokenKind} {radix : Nat}

/-- Many characters of ranges of digits, of which there is one at least. -/
theorem digits_of_matches {ranges : List (Char × Char)}
    (hdigits : (ranges.flatMap fun range => CharClass.spanned range.1 range.2).all
      (IsDigit radix ·) = true)
    (h : (Pattern.one (.within ranges)).oneOrMore.Matches piece) :
    piece ≠ [] ∧ ∀ c ∈ piece, IsDigit radix c := by
  have hdigit {c : Char} (hc : (CharClass.within ranges).contains c = true) : IsDigit radix c :=
    of_decide_eq_true (List.all_eq_true.1 hdigits c (CharClass.mem_of_within hc))
  obtain ⟨s, t, rfl, hs, ht⟩ := Pattern.matches_followed.1 h
  cases hs with
  | @one _ c hc =>
    refine ⟨List.cons_ne_nil _ _, fun d hd => ?_⟩
    rcases List.mem_cons.1 hd with rfl | hd
    · exact hdigit hc
    · exact hdigit (Pattern.matches_many_one.1 ht d hd)

/-- The tokens of whole numbers are digits after the mark of their radix. -/
theorem Word.numeral (h : Word piece kind) (hkind : kind ∈ TokenSet.integers) :
    ∃ digits, piece = kind.radixMark ++ digits ∧ digits ≠ [] ∧
      ∀ c ∈ digits, IsDigit kind.radix c := by
  have hkinds : ∀ k ∈ TokenSet.integers.kinds, k = .decimal ∨ k = .binary ∨ k = .hexadecimal := by
    decide
  obtain ⟨rule, hrule, hrole, hmatch⟩ := h.described
  rcases hkinds kind (TokenSet.mem_kinds.2 hkind) with rfl | rfl | rfl
  · have hpattern : ∀ rule ∈ rules, rule.role = .token .decimal → rule.pattern = digits := by decide
    rw [hpattern rule hrule hrole] at hmatch
    exact ⟨piece, rfl, digits_of_matches (by decide) hmatch⟩
  · have hpattern : ∀ rule ∈ rules, rule.role = .token .binary → rule.pattern = binaryLiteral := by
      decide
    rw [hpattern rule hrule hrole] at hmatch
    obtain ⟨t, rfl, ht⟩ := Pattern.matches_after.1 hmatch
    have ht : (Pattern.one (.within [('0', '0'), ('1', '1')])).oneOrMore.Matches t := ht
    exact ⟨t, rfl, digits_of_matches (by decide) ht⟩
  · have hpattern : ∀ rule ∈ rules, rule.role = .token .hexadecimal →
        rule.pattern = hexLiteral := by decide
    rw [hpattern rule hrule hrole] at hmatch
    obtain ⟨t, rfl, ht⟩ := Pattern.matches_after.1 hmatch
    exact ⟨t, rfl, digits_of_matches (by decide) ht⟩

end Lexicon

/-! ## Types of whole numbers -/

/-- The number type of a reading and a size. -/
def Builtin.ofAtom? (a : Atom) : Option Builtin :=
  Builtin.composable.find? fun b => b.entity.atom? = some a

namespace Tree

variable {t : Tree} {id : ExprId} {value : Nat} {span : Span}

/-- Number types are composed as the built-in types say. -/
theorem HasBuiltins.compose?_ofAtom? (h : t.HasBuiltins) (reading : Reading) (size : Nat) :
    t.compose? reading size = (Builtin.ofAtom? ⟨reading.dominant, size⟩).map Builtin.handle := by
  have hatom : t.isAtom reading.dominant size ∘ Builtin.handle =
      fun b : Builtin => decide (b.entity.atom? = some ⟨reading.dominant, size⟩) := by
    funext b
    simp only [Function.comp, isAtom, h b, Option.bind_some]
  unfold compose? Builtin.ofAtom?
  rw [List.find?_map, hatom]

/-- The type of a whole number is found by its size. -/
theorem exprType?_int (h : t.HasBuiltins)
    (he : t.expr? id = some ⟨.int value (Grammar.intSize value), span⟩) :
    t.exprType? id =
      some (if value < UInt32.size then Builtin.s32 else Builtin.s64).handle := by
  unfold exprType? exprTypeWithin?
  rw [he]
  simp only [Option.bind_eq_bind, Option.bind_some, h.compose?_ofAtom?, Grammar.intSize]
  split <;> rfl

end Tree

/-! ## Reading whole numbers -/

namespace Grammar

variable {x : Token} {digits : List Char} {value : Nat} {s : State}

/-- The mark is taken off. -/
theorem digitsOf_eq (hkind : x.kind ∈ TokenSet.integers)
    (h : x.text.toList = x.kind.radixMark ++ digits) : digitsOf x = (x.kind.radix, digits) := by
  have hkinds : ∀ k ∈ TokenSet.integers.kinds, k = .decimal ∨ k = .binary ∨ k = .hexadecimal := by
    decide
  unfold digitsOf
  rcases hkinds x.kind (TokenSet.mem_kinds.2 hkind) with hk | hk | hk <;> rw [hk] at h ⊢ <;>
    simp [h, TokenKind.radixMark, TokenKind.radix, afterRadixMark]

/-- A whole number that does not fit. -/
theorem integer_tooLarge
    (hdigits : Number.digitsValue? (digitsOf x).1 (digitsOf x).2 = some value)
    (hlarge : UInt64.size ≤ value) : integer x s = .error ⟨.badInteger, some x.span⟩ s := by
  unfold integer
  dsimp only
  rw [hdigits]
  dsimp only
  rw [if_neg (Nat.not_lt.2 hlarge)]
  rfl

/-- What is chosen by four bytes. -/
theorem ite_lt_size {α : Type} (value : Nat) (a b : α) :
    (if value < UInt32.size then a else b) = if 2 ^ 32 ≤ value then b else a := by
  unfold UInt32.size
  split <;> split <;> first | rfl | omega

/-- The tokens of whole numbers are digits after the mark of a radix. A literal is accepted just if
the number that they denote is below `2 ^ 64`, and stands for that number then. It takes eight bytes
from `2 ^ 32` on and four below, and its type is the signed one of that size, also in every tree
that comes of this one. -/
theorem integer_literals_denote {source : List Char} {tokens : TokenList}
    (h : Lexicon.tokenize source = .ok tokens) (hx : x ∈ tokens.body)
    (hkind : x.kind ∈ TokenSet.integers) :
    ∃ digits, x.text.toList = x.kind.radixMark ++ digits ∧ digits ≠ [] ∧
      (∀ c ∈ digits, Number.digitPlace c < x.kind.radix) ∧
      let value := Number.denoted x.kind.radix digits
      ∀ s : State,
        (value < 2 ^ 64 →
          let s' := s.add (.int value (if 2 ^ 32 ≤ value then 8 else 4)) x.span
          integer x s = .ok s.newExpr s' ∧
          (s.tree.HasBuiltins → ∀ t, s'.tree.Extends t → t.exprType? s.newExpr =
            some (if 2 ^ 32 ≤ value then Builtin.s64 else Builtin.s32).handle)) ∧
        (2 ^ 64 ≤ value → integer x s = .error ⟨.badInteger, some x.span⟩ s ∧
          Cause.badInteger.kind = .syntactic) := by
  obtain ⟨digits, htext, hne, hdigits⟩ :=
    (Lexicon.words_of_tokenize h x (by simpa using hx)).numeral hkind
  have hvalue : Number.digitsValue? (digitsOf x).1 (digitsOf x).2 =
      some (Number.denoted x.kind.radix digits) := by
    rw [digitsOf_eq hkind htext]
    exact Number.digitsValue?_eq hne hdigits
  refine ⟨digits, htext, hne, fun c hc => (hdigits c hc).1, ?_⟩
  intro value s
  refine ⟨fun hfits => ?_, fun hlarge => ⟨integer_tooLarge hvalue hlarge, rfl⟩⟩
  dsimp only
  rw [← ite_lt_size value 4 8, ← ite_lt_size value Builtin.s32 Builtin.s64]
  refine ⟨integer_eq hvalue hfits, fun hb t hextends => ?_⟩
  have hnode := hextends.expr (expr?_newExpr s (.int value (intSize value)) x.span)
  have hadded := hextends.hasBuiltins ((s.tree.pushExpr_evolves _).toExtends.hasBuiltins hb)
  exact Tree.exprType?_int hadded hnode

/-- The largest number that fits, with zeros in front, and a number in both cases that does not. -/
theorem integer_literals_denote_bounds :
    (∀ s : State, s.tree = .withBuiltins →
      let s' := s.add (.int 18446744073709551615 8) ⟨0, 22⟩
      integer (Lexicon.cut .decimal 0 "0018446744073709551615".toList) s = .ok s.newExpr s' ∧
        s'.tree.exprType? s.newExpr = some Builtin.s64.handle) ∧
    ∀ s : State, integer (Lexicon.cut .hexadecimal 23 "0x1aBcDeF0123456789".toList) s =
      .error ⟨.badInteger, some ⟨23, 42⟩⟩ s := by
  obtain ⟨x, hx⟩ : ∃ x, x = Lexicon.cut .decimal 0 "0018446744073709551615".toList := ⟨_, rfl⟩
  obtain ⟨y, hy⟩ : ∃ y, y = Lexicon.cut .hexadecimal 23 "0x1aBcDeF0123456789".toList := ⟨_, rfl⟩
  have htokens : Lexicon.tokenize "0018446744073709551615 0x1aBcDeF0123456789".toList =
      .ok ⟨#[x, y], ⟨.eof, "", ⟨42, 42⟩⟩⟩ := by
    rw [hx, hy]
    decide +kernel
  obtain ⟨digits, hdigits, -, -, hx64⟩ := integer_literals_denote htokens (x := x) (by simp)
    (by rw [hx]; decide)
  obtain ⟨digits', hdigits', -, -, hy64⟩ := integer_literals_denote htokens (x := y) (by simp)
    (by rw [hy]; decide)
  have hvalue : Number.denoted x.kind.radix digits = 18446744073709551615 := by
    have hdigits : "0018446744073709551615".toList = digits := by
      simpa [hx, Lexicon.cut, TokenKind.radixMark] using hdigits
    rw [← hdigits, hx]
    decide +kernel
  have hvalue' : Number.denoted y.kind.radix digits' = 0x1aBcDeF0123456789 := by
    have hdigits : "1aBcDeF0123456789".toList = digits' := by
      simpa [hy, Lexicon.cut, TokenKind.radixMark] using hdigits'
    rw [← hdigits, hy]
    decide +kernel
  rw [← hx, ← hy]
  refine ⟨fun s hs => ?_, fun s => ?_⟩
  · have hb : s.tree.HasBuiltins := by
      rw [hs]
      exact Builtin.entity?_withBuiltins
    obtain ⟨haccepted, htype⟩ := (hx64 s).1 (by rw [hvalue]; decide)
    have hspan : x.span = ⟨0, 22⟩ := by rw [hx]; rfl
    rw [hvalue, hspan] at haccepted htype
    exact ⟨haccepted, htype hb _ .refl⟩
  · rw [((hy64 s).2 (by rw [hvalue']; decide)).1, hy]
    rfl

end Grammar

end OnePass

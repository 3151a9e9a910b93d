import OnePass.Token.Kind

/-!
# Sets of token kinds

A set of token kinds has one bit per kind, so that "is the next token one of these" is one
look-up. A set is listed in the order of the kinds; one of a single kind is named as that
kind is.
-/

namespace OnePass

/-- A set of token kinds, the bit of a kind at its place in the order. -/
structure TokenSet where
  bits : BitVec 56
deriving DecidableEq, Inhabited

namespace TokenSet

/-- Whether `k` is in the set. -/
def contains (s : TokenSet) (k : TokenKind) : Bool := s.bits.getLsbD k.index

instance : Membership TokenKind TokenSet := ⟨fun s k => s.contains k = true⟩

instance (k : TokenKind) (s : TokenSet) : Decidable (k ∈ s) :=
  inferInstanceAs (Decidable (s.contains k = true))

instance : EmptyCollection TokenSet := ⟨⟨0⟩⟩

/-- The set of one kind. -/
def single (k : TokenKind) : TokenSet := ⟨BitVec.twoPow 56 k.index⟩

instance : Singleton TokenKind TokenSet := ⟨single⟩

instance : Union TokenSet := ⟨fun s t => ⟨s.bits ||| t.bits⟩⟩

instance : Inter TokenSet := ⟨fun s t => ⟨s.bits &&& t.bits⟩⟩

instance : Insert TokenKind TokenSet := ⟨fun k s => {k} ∪ s⟩

/-- The set of the kinds in a list. -/
def ofList (kinds : List TokenKind) : TokenSet := kinds.foldr insert ∅

/-- Whether every kind of `t` is in `s`. -/
def includes (s t : TokenSet) : Bool := s ∩ t = t

/-- Whether the two sets have a kind in common. -/
def meets (s t : TokenSet) : Bool := s ∩ t ≠ ∅

/-- The kinds in the set, in order. -/
def kinds (s : TokenSet) : List TokenKind := TokenKind.all.filter s.contains

/-- The kind of a set that has only one. -/
def only? (s : TokenSet) : Option TokenKind :=
  TokenKind.all.find? fun k => s = {k}

/-- The name of a set: that of its only kind, and a question mark for any other set. -/
def label (s : TokenSet) : String :=
  match s.only? with
  | some k => k.label
  | none => "?"

/-- The names of the kinds in the set, or a word for the set of none. -/
def toText (s : TokenSet) : String :=
  match s.kinds with
  | [] => "<None>"
  | kinds => String.intercalate " | " (kinds.map TokenKind.label)

/-! ## Membership -/

theorem mem_def {k : TokenKind} {s : TokenSet} : k ∈ s ↔ s.contains k = true := Iff.rfl

@[simp] theorem not_mem_empty (k : TokenKind) : ¬k ∈ (∅ : TokenSet) := by
  simp [mem_def, contains, EmptyCollection.emptyCollection]

@[simp] theorem mem_union {k : TokenKind} {s t : TokenSet} : k ∈ s ∪ t ↔ k ∈ s ∨ k ∈ t := by
  simp [mem_def, contains, Union.union]

@[simp] theorem mem_singleton {k l : TokenKind} : k ∈ ({l} : TokenSet) ↔ k = l := by
  have bit : ({l} : TokenSet).contains k = (decide (l.index < 56) && decide (l.index = k.index)) :=
    BitVec.getLsbD_twoPow l.index k.index
  rw [mem_def, bit, Bool.and_eq_true, decide_eq_true_eq, decide_eq_true_eq]
  constructor
  · intro h
    exact (TokenKind.index_injective h.2).symm
  · rintro rfl
    exact ⟨k.index_lt, rfl⟩

theorem insert_eq (k : TokenKind) (s : TokenSet) : insert k s = {k} ∪ s := rfl

@[simp] theorem mem_insert {k l : TokenKind} {s : TokenSet} : k ∈ insert l s ↔ k = l ∨ k ∈ s := by
  rw [insert_eq, mem_union, mem_singleton]

theorem mem_ofList {k : TokenKind} {kinds : List TokenKind} : k ∈ ofList kinds ↔ k ∈ kinds := by
  induction kinds with
  | nil => simp [ofList]
  | cons l kinds ih =>
    rw [ofList, List.foldr_cons, mem_insert, List.mem_cons]
    exact or_congr_right ih

theorem mem_kinds {k : TokenKind} {s : TokenSet} : k ∈ s.kinds ↔ k ∈ s := by
  simp [kinds, mem_def, TokenKind.mem_all]

/-! ## Families of kinds -/

/-- Whole numbers in the three radices. -/
def integers : TokenSet := ofList [.decimal, .binary, .hexadecimal]

/-- Literals. -/
def literals : TokenSet := integers ∪ ofList [.float, .text, .character]

/-- Operators on numbers and their bits, between two operands. -/
def arithmetic : TokenSet :=
  ofList [.plus, .minus, .star, .slash, .percent, .ampersand, .bar, .caret, .shiftLeft, .shiftRight]

/-- Operators whose result is a truth value. -/
def logic : TokenSet :=
  ofList [.andWord, .orWord, .equal, .notEqual, .less, .lessEqual, .greater, .greaterEqual]

/-- All operators between two operands. -/
def operators : TokenSet := {.assign} ∪ arithmetic ∪ logic

end TokenSet

end OnePass

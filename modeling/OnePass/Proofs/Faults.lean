import OnePass.Proofs.Offsets
import OnePass.Proofs.Safety

/-!
# Faults that no source has

A fault of a source is one that the scanner notices (`tokenize_lexical`) or one that the grammar
can find (`parse_grammatical`), since reading the tokens of a source is safe and ends. So none is
about the front end itself: the causes that would be are never met, and no description says what
only they would say (`Cause.not_internalWording`). The wordings are told apart by their openings,
which for each cause is the text in front of the first name it mentions.
-/

namespace OnePass

variable {source : List Char} {fault : Fault} {cause : Cause}

/-! ## What the scanner notices -/

namespace Lexicon

theorem bind_eq_error {ε α β : Type} {x : Except ε α} {f : α → Except ε β} {e : ε}
    (h : x >>= f = .error e) : x = .error e ∨ ∃ a, x = .ok a ∧ f a = .error e := by
  cases x with
  | error =>
    cases h
    exact .inl rfl
  | ok a => exact .inr ⟨a, rfl, h⟩

theorem pieceSpan_lexical {offset : Nat} {piece : List Char}
    (h : pieceSpan offset piece = .error fault) : fault.cause.lexical = true := by
  unfold pieceSpan at h
  split at h
  · cases h
  · cases h
    rfl

theorem scanFrom_lexical {offset pending : Nat} {found : Array Token} {text : List Char}
    (h : scanFrom offset pending found text = .error fault) : fault.cause.lexical = true := by
  induction text generalizing offset pending found with
  | nil => cases h
  | cons c rest ih =>
    unfold scanFrom at h
    cases pending with
    | succ pending => exact ih h
    | zero =>
      dsimp only at h
      split at h
      · exact ih h
      · rcases bind_eq_error h with h | ⟨_, _, h⟩
        · exact pieceSpan_lexical h
        · exact ih h
      · rcases bind_eq_error h with h | ⟨_, _, h⟩
        · exact pieceSpan_lexical h
        · exact ih h
      · rcases bind_eq_error h with h | ⟨_, _, h⟩
        · exact pieceSpan_lexical h
        · cases h
          rfl

theorem tokenize_lexical (h : tokenize source = .error fault) : fault.cause.lexical = true := by
  unfold tokenize at h
  rcases bind_eq_error h with h | ⟨_, _, h⟩
  · exact scanFrom_lexical h
  · split at h
    · cases h
    · cases h
      rfl

end Lexicon

/-! ## What the grammar finds -/

namespace Grammar

/-- The tokens of a source are refused for nothing but what the grammar can find. -/
theorem parse_grammatical {tokens : TokenList} (hclosed : tokens.last.kind = .eof)
    (h : parse tokens = .error fault) : fault.cause.grammatical = true := by
  rcases parse_ends hclosed with ⟨tree, htree⟩ | ⟨fault', hfault, hnot⟩
  · rw [htree] at h
    cases h
  · obtain rfl := Except.error.inj (hfault.symm.trans h)
    unfold parse at h
    cases hrun : program (.initial tokens) with
    | ok _ s =>
      rw [hrun] at h
      cases h
    | error found s =>
      rw [hrun] at h
      cases h
      rcases (program_safe tokens).grammatical hrun with hgrammatical | hfuel
      · exact hgrammatical
      · rw [hfuel] at hnot
        exact absurd (by simp) hnot

/-- A source is refused for what the scanner notices or for what the grammar finds. -/
theorem parseSource_cause {source : String} (h : parseSource source = .error fault) :
    fault.cause.lexical = true ∨ fault.cause.grammatical = true := by
  unfold parseSource at h
  cases htokens : Lexicon.tokenize source.toList with
  | error found =>
    rw [htokens] at h
    cases h
    exact .inl (Lexicon.tokenize_lexical htokens)
  | ok tokens =>
    rw [htokens] at h
    exact .inr (parse_grammatical (Lexicon.tokenize_eof htokens).2 h)

end Grammar

/-! ## What no description says -/

namespace Cause

/-- Descriptions that mention no name and that only a mistake of the front end would have. -/
def fixedWordings : List String :=
  ["expected function signature", "expected record body", "expected expression",
    "expected expression or type during definition", "expected scope after 'if'",
    "expected scope after 'for'"]

/-- What only a mistake of the front end would be described as. -/
def InternalWording (text : String) : Prop :=
  (∃ rest, text = "no atom type composes " ++ rest) ∨
    (∃ name, text = "function " ++ name ++ " already has a body") ∨
    (∃ op, text = "'" ++ op ++ "' is not a unary operator") ∨ text ∈ fixedWordings

/-! Descriptions are told apart by the characters that they begin with. -/

/-- The text begins with the characters. -/
def Opens (opening : List Char) (text : String) : Prop := opening <+: text.toList

section

variable {opening other : List Char} {text : String}

theorem opens_literal (opening : List Char) : Opens opening (String.ofList opening) := by
  unfold Opens
  rw [String.toList_ofList]

theorem Opens.append (h : Opens opening text) (rest : String) : Opens opening (text ++ rest) := by
  unfold Opens
  rw [String.toList_append]
  exact List.IsPrefix.trans h (List.prefix_append _ _)

/-- A name and what follows it. -/
theorem Opens.names (h : Opens opening text) {name rest : String} :
    Opens opening (text ++ name ++ rest) :=
  (h.append name).append rest

theorem Opens.start (h : Opens opening text) (hstart : other.isPrefixOf opening = true) :
    Opens other text :=
  (List.isPrefixOf_iff_prefix.1 hstart).trans h

/-- Neither of two openings begins with the other. -/
def apart (a b : List Char) : Bool := !a.isPrefixOf b && !b.isPrefixOf a

theorem Opens.not_opens (h : Opens opening text) (hapart : apart opening other = true) :
    ¬Opens other text := by
  intro hother
  unfold apart at hapart
  rcases List.prefix_or_prefix_of_prefix h hother with hbegins | hbegins
  · rw [List.isPrefixOf_iff_prefix.2 hbegins] at hapart
    cases hapart
  · rw [List.isPrefixOf_iff_prefix.2 hbegins, Bool.not_true, Bool.and_false] at hapart
    cases hapart

theorem Opens.ne (h : Opens opening text) (hnot : opening.isPrefixOf other = false) :
    text ≠ String.ofList other := by
  rintro rfl
  unfold Opens at h
  rw [String.toList_ofList] at h
  rw [List.isPrefixOf_iff_prefix.2 h] at hnot
  cases hnot

end

/-- What many descriptions begin with. -/
def expectedWord : List Char := ['e', 'x', 'p', 'e', 'c', 't', 'e', 'd', ' ']

/-- What the wordings with a name in them begin with. -/
def namedOpenings : List (List Char) := [['n', 'o', ' ', 'a'], ['f', 'u'], ['\'']]

/-- What the fixed wordings begin with. -/
def fixedOpenings : List (List Char) :=
  [expectedWord ++ ['f'], expectedWord ++ ['r'], expectedWord ++ ['e'], expectedWord ++ ['s', 'c']]

theorem InternalWording.opening {text : String} (h : InternalWording text) :
    (∃ opening ∈ namedOpenings, Opens opening text) ∨ text ∈ fixedWordings := by
  rcases h with ⟨rest, rfl⟩ | ⟨name, rfl⟩ | ⟨op, rfl⟩ | h
  · exact .inl ⟨['n', 'o', ' ', 'a'], by decide, ((opens_literal _).append _).start rfl⟩
  · exact .inl ⟨['f', 'u'], by decide, (opens_literal _).names.start rfl⟩
  · exact .inl ⟨['\''], by decide, (opens_literal _).names⟩
  · exact .inr h

theorem opening_of_fixed {text : String} (h : text ∈ fixedWordings) :
    ∃ opening ∈ fixedOpenings, Opens opening text := by
  have hstart {l other : List Char} (hmem : l ∈ fixedOpenings)
      (hbegins : l.isPrefixOf other = true) :
      ∃ opening ∈ fixedOpenings, Opens opening (String.ofList other) :=
    ⟨l, hmem, (opens_literal other).start hbegins⟩
  simp only [fixedWordings, List.mem_cons, List.not_mem_nil, or_false] at h
  rcases h with rfl | rfl | rfl | rfl | rfl | rfl
  · exact hstart (l := expectedWord ++ ['f']) (by decide) rfl
  · exact hstart (l := expectedWord ++ ['r']) (by decide) rfl
  · exact hstart (l := expectedWord ++ ['e']) (by decide) rfl
  · exact hstart (l := expectedWord ++ ['e']) (by decide) rfl
  · exact hstart (l := expectedWord ++ ['s', 'c']) (by decide) rfl
  · exact hstart (l := expectedWord ++ ['s', 'c']) (by decide) rfl

section

variable {opening : List Char} {text : String}

/-- A text is none of the wordings if it is no fixed one and begins otherwise than those with a
name. -/
theorem Opens.not_internalWording (h : Opens opening text)
    (hnamed : namedOpenings.all (apart opening) = true) (hfixed : text ∉ fixedWordings) :
    ¬InternalWording text := by
  intro hinternal
  rcases hinternal.opening with ⟨other, hother, hopens⟩ | hmem
  · exact h.not_opens (List.all_eq_true.1 hnamed other hother) hopens
  · exact hfixed hmem

/-- A text that begins otherwise than the fixed wordings is none of them. -/
theorem Opens.not_fixed (h : Opens opening text)
    (hfixed : fixedOpenings.all (apart opening) = true) : text ∉ fixedWordings := by
  intro hmem
  obtain ⟨other, hother, hopens⟩ := opening_of_fixed hmem
  exact h.not_opens (List.all_eq_true.1 hfixed other hother) hopens

/-- A text with another opening is none of the wordings. -/
theorem Opens.differs (h : Opens opening text)
    (hapart : (namedOpenings ++ fixedOpenings).all (apart opening) = true) :
    ¬InternalWording text := by
  rw [List.all_append, Bool.and_eq_true] at hapart
  exact h.not_internalWording hapart.1 (h.not_fixed hapart.2)

end

theorem opens_wanted (wanted : TokenSet) :
    wantedText wanted = "" ∨ Opens ['\''] (wantedText wanted) := by
  unfold wantedText
  cases wanted.kinds with
  | nil => exact .inl rfl
  | cons k rest =>
    refine .inr ?_
    rw [List.map_cons, String.join_cons]
    exact (opens_literal _).names.append _

/-- What is wanted stands between quotes, and what is found comes after it. -/
theorem expected_differs (wanted : TokenSet) (found : TokenKind) :
    ¬InternalWording (description (.expected wanted found)) := by
  have hunder {opening : List Char} {text : String} (h : Opens opening text) :
      Opens (expectedWord ++ opening) ("expected " ++ text) := by
    unfold Opens at h ⊢
    rw [String.toList_append]
    exact (List.prefix_append_right_inj _).2 h
  show ¬InternalWording ("expected " ++ wantedText wanted ++ "got '" ++ found.label ++ "'")
  rcases opens_wanted wanted with hempty | hquote
  · rw [hempty, String.append_empty]
    exact (hunder (opens_literal _)).names.differs (by decide)
  · exact ((hunder hquote).names.append _).differs (by decide)

/-- The last character tells apart the two wordings that begin with a name. -/
theorem notAType_differs (name : String) : ¬InternalWording (description (.notAType name)) := by
  have hopens : Opens ['\''] (description (.notAType name)) := (opens_literal _).names
  have hlast {text : String} {l : List Char} {c : Char} (h : l.getLast? = some c) :
      (text ++ String.ofList l).toList.getLast? = some c := by
    rw [String.toList_append, String.toList_ofList, List.getLast?_append, h]
    rfl
  rintro (⟨rest, h⟩ | ⟨function, h⟩ | ⟨op, h⟩ | h)
  · exact hopens.not_opens rfl (h ▸ (opens_literal _).append _)
  · exact hopens.not_opens rfl (h ▸ (opens_literal _).names)
  · have htype : (description (.notAType name)).toList.getLast? = some 'e' := hlast rfl
    have hoperator : (description (.notAType name)).toList.getLast? = some 'r' := h ▸ hlast rfl
    rw [htype] at hoperator
    cases hoperator
  · exact hopens.not_fixed (by decide) h

/-- No fault of a source is described as one of the wordings. -/
theorem not_internalWording (h : cause.internal = false) : ¬InternalWording cause.description := by
  cases cause with
  | expected wanted found => exact expected_differs wanted found
  | notAType name => exact notAType_differs name
  | noScopeAfter word =>
    obtain rfl : word = "else" := by simpa [internal] using h
    exact (opens_literal _).names.not_internalWording (by decide) (by decide +kernel)
  | nothingBeforeDot | noFunctionScope =>
    exact (opens_literal _).not_internalWording (by decide) (by decide +kernel)
  | noExpressionAfter text =>
    have hopens : Opens _ (description (.noExpressionAfter text)) := (opens_literal _).names
    refine hopens.not_internalWording (by decide) ?_
    simp only [fixedWordings, List.mem_cons, List.not_mem_nil, or_false, not_or]
    exact ⟨hopens.ne rfl, hopens.ne rfl, hopens.ne rfl, hopens.ne rfl, hopens.ne rfl, hopens.ne rfl⟩
  | stack error =>
    cases error with
    | tooDeep => exact (opens_literal _).names.differs (by decide +kernel)
    | closeMain | notChild | arena => cases h
  | offsetTooLarge => exact (opens_literal _).names.differs (by decide +kernel)
  | notUnary | noComposite | bodyTaken | notASignature | notARecord | emptyGroup | emptyDefinition
  | missingHandle | endlessType | outOfFuel => cases h
  | noLeftOperand | noRightOperand | noDefinitionAfterComma | noCondition | noInitialization
  | noIteration | returnOutside | trailingComma | emptyCharacter | wideCharacter | badInteger
  | badFloat | tooManyArguments | notAStruct =>
    exact (opens_literal _).differs (by decide +kernel)
  | unrecognized | noOperand | noTypeAfter | badEscape | unknownName | redefinition
  | notAssignable | condition | notAFunction | missingArgument | structMember | enumMember =>
    exact (opens_literal _).names.differs (by decide +kernel)
  | noMember | unaryOperand | assignment | returned | argument | noMembers =>
    exact (opens_literal _).names.names.differs (by decide +kernel)
  | arithmeticOperands | logicOperands | initializer =>
    exact (opens_literal _).names.names.names.differs (by decide +kernel)

end Cause

/-! ## No mistakes of the front end -/

@[simp] theorem Fault.report_kind : (fault.report source).kind = fault.cause.kind := by
  unfold Fault.report
  cases fault.span <;> rfl

@[simp] theorem Fault.report_category : (fault.report source).category = fault.cause.category := by
  unfold Fault.report
  cases fault.span <;> rfl

@[simp] theorem Fault.report_description :
    (fault.report source).description = fault.cause.description := by
  unfold Fault.report
  cases fault.span <;> rfl

/-- What a source is refused for is no mistake of the front end. -/
structure Fault.External (fault : Fault) (source : List Char) : Prop where
  main : fault.cause ≠ .stack .closeMain
  child : ∀ frame, fault.cause ≠ .stack (.notChild frame)
  arena : ∀ error, fault.cause ≠ .stack (.arena error)
  category : (fault.report source).category ≠ .arena
  cause : fault.cause.internal = false
  wording : ¬Cause.InternalWording (fault.report source).description

theorem Fault.external (h : fault.cause.internal = false) : fault.External source := by
  have hcause {cause : Cause} (hinternal : cause.internal = true) : fault.cause ≠ cause := by
    rintro rfl
    rw [h] at hinternal
    cases hinternal
  refine ⟨hcause rfl, fun _ => hcause rfl, fun _ => hcause rfl, ?_, h, ?_⟩
  · rw [Fault.report_category]
    revert h
    rcases fault.cause with _ | _ | (_ | _ | _ | _) | _ <;> simp [Cause.internal, Cause.category]
  · rw [Fault.report_description]
    exact Cause.not_internalWording h

theorem Cause.internal_eq_false (h : cause.lexical = true ∨ cause.grammatical = true) :
    cause.internal = false := by
  rcases h with h | h
  · cases cause with
    | unrecognized | offsetTooLarge => rfl
    | _ => cases h
  · unfold Cause.grammatical at h
    rw [Bool.and_eq_true] at h
    simpa using h.1

namespace Grammar

/-- Reading a source cannot go wrong inside, whatever the source is: what it is refused for is no
mistake of the front end, and what is looked up while its tokens are read is there. -/
theorem no_internal_fault (source : String) :
    (∀ fault, parseSource source = .error fault → fault.External source.toList) ∧
      ∀ tokens, Lexicon.tokenize source.toList = .ok tokens → Safe program (.initial tokens) :=
  ⟨fun _ h => Fault.external (Cause.internal_eq_false (parseSource_cause h)),
    fun tokens _ => program_safe tokens⟩

/-- What a source is refused for. -/
def refusal? (source : String) : Option Fault :=
  match parseSource source with
  | .ok _ => none
  | .error fault => some fault

theorem refusal?_eq_some {source : String} :
    refusal? source = some fault ↔ parseSource source = .error fault := by
  unfold refusal?
  cases parseSource source <;> simp

/-- Parentheses are left open. -/
theorem no_internal_fault_open :
    ∃ fault, parseSource "x :: (1" = .error fault ∧ fault.External "x :: (1".toList := by
  have hrefused : refusal? "x :: (1" = some ⟨.expected {.closeParen} .eof, some ⟨7, 7⟩⟩ := by
    decide +kernel
  have hfault := refusal?_eq_some.1 hrefused
  exact ⟨_, hfault, (no_internal_fault "x :: (1").1 _ hfault⟩

end Grammar

end OnePass

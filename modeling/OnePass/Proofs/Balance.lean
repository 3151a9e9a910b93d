import Mathlib.Data.List.TakeWhile
import OnePass.Proofs.Returns

/-!
# Balance

The tokens of an accepted source are balanced: parentheses and braces are nested properly, each
`else` stands right behind a closing brace, and of the kinds that the grammar has no use for there
is none (`accepted_balanced`). What is nested is a matter of the kinds of the tokens alone
(`nests`), and so is the grammar of such words (`Passage`).

What a phrase passes is a word of that grammar (`Reads.passes`). The phrases that a bracket begins
pass the bracket that closes it, at their end or with more behind it (`Phrase.Passes`); no other
phrase passes a bracket that it has not opened, so that those which end a sequence are never
skipped.
-/

namespace OnePass

/-! ## Words that are balanced -/

/-- The bracket that closes what a token opens. -/
def TokenKind.closer? : TokenKind → Option TokenKind
  | .openParen => some .closeParen
  | .openBrace => some .closeBrace
  | _ => none

/-- Whether the brackets of a word are nested properly, while those in the first list are still
to be closed, the first one first. -/
def nests : List TokenKind → List TokenKind → Bool
  | awaited, [] => awaited.isEmpty
  | awaited, kind :: rest =>
    match kind.closer? with
    | some closer => nests (closer :: awaited) rest
    | none =>
      if kind = .closeParen ∨ kind = .closeBrace then
        decide (awaited.head? = some kind) && nests awaited.tail rest
      else nests awaited rest

/-- The kinds of token that no production reads. -/
def unusedKinds : List TokenKind :=
  [.openBracket, .closeBracket, .unionWord, .breakWord, .caseWord, .continueWord, .switchWord,
    .inWord]

/-- Each `else` of a word stands right behind a closing brace. -/
def ElsesFollow (word : List TokenKind) : Prop :=
  ∀ before after, word = before ++ .elseWord :: after → before.getLast? = some .closeBrace

/-- A word with brackets that are nested, without tokens that have no use, and where each `else`
stands right behind a closing brace. -/
structure Balanced (word : List TokenKind) : Prop where
  nested : nests [] word = true
  used : ∀ kind ∈ word, kind ∉ unusedKinds
  elses : ElsesFollow word

/-! ## The grammar of words -/

/-- The kinds whose place is free: all that are used, but for brackets, `else` and the end. -/
def plainKinds : TokenSet :=
  .ofList (TokenKind.all.filter (· ∉ unusedKinds ++
    [.openParen, .closeParen, .openBrace, .closeBrace, .elseWord, .eof]))

/-- What whole phrases pass. -/
inductive Passage : List TokenKind → Prop where
  | nil : Passage []
  | plain {kind word} (hkind : kind ∈ plainKinds) (hword : Passage word) : Passage (kind :: word)
  | parens {inner word} (hinner : Passage inner) (hword : Passage word) :
      Passage (.openParen :: (inner ++ .closeParen :: word))
  | braces {inner word} (hinner : Passage inner) (hword : Passage word) :
      Passage (.openBrace :: (inner ++ .closeBrace :: word))
  | bracesElse {inner word} (hinner : Passage inner) (hword : Passage word) :
      Passage (.openBrace :: (inner ++ .closeBrace :: .elseWord :: word))

theorem mem_plainKinds {kind : TokenKind} : kind ∈ plainKinds ↔ kind ∉ unusedKinds ++
    [.openParen, .closeParen, .openBrace, .closeBrace, .elseWord, .eof] := by
  unfold plainKinds
  rw [TokenSet.mem_ofList, List.mem_filter]
  simp [TokenKind.mem_all]

theorem TokenSet.mem_of_includes {s t : TokenSet} {kind : TokenKind} (h : s.includes t = true)
    (hkind : kind ∈ t) : kind ∈ s := by
  have hmeet : s ∩ t = t := of_decide_eq_true h
  rw [← hmeet] at hkind
  have hbits : (s.bits &&& t.bits).getLsbD kind.index = true := hkind
  rw [BitVec.getLsbD_and, Bool.and_eq_true] at hbits
  exact hbits.1

namespace ElsesFollow

variable {u v : List TokenKind} {kind : TokenKind}

theorem append (hu : ElsesFollow u) (hv : ElsesFollow v) : ElsesFollow (u ++ v) := by
  intro before after h
  rcases List.append_eq_append_iff.1 h with ⟨rest, rfl, hrest⟩ | ⟨rest, rfl, hrest⟩
  · rw [List.getLast?_append, hv rest after hrest]
    rfl
  · cases rest with
    | nil => exact absurd (hv [] after hrest.symm) nofun
    | cons kind rest =>
      obtain ⟨rfl, -⟩ := List.cons.inj hrest
      exact hu before rest rfl

theorem cons (hkind : kind ≠ .elseWord) (h : ElsesFollow u) : ElsesFollow (kind :: u) := by
  have hone : ElsesFollow [kind] := by
    intro before after heq
    rcases List.cons_eq_append_iff.1 heq with ⟨rfl, hword⟩ | ⟨rest, -, hword⟩
    · exact absurd (List.cons.inj hword).1.symm hkind
    · exact absurd hword (by simp)
  exact hone.append h

theorem closed : ElsesFollow [.closeBrace, .elseWord] := by
  intro before after h
  rcases List.cons_eq_append_iff.1 h with ⟨rfl, hword⟩ | ⟨rest, rfl, hword⟩
  · cases hword
  · rcases List.cons_eq_append_iff.1 hword with ⟨rfl, -⟩ | ⟨rest', -, hword⟩
    · rfl
    · exact absurd hword (by simp)

end ElsesFollow

namespace Passage

variable {u v word : List TokenKind}

theorem append (h : Passage u) (hv : Passage v) : Passage (u ++ v) := by
  induction h with
  | nil => exact hv
  | plain hkind _ ih => exact .plain hkind ih
  | parens hinner _ _ ih =>
    rw [List.cons_append, List.append_assoc]
    exact .parens hinner ih
  | braces hinner _ _ ih =>
    rw [List.cons_append, List.append_assoc]
    exact .braces hinner ih
  | bracesElse hinner _ _ ih =>
    rw [List.cons_append, List.append_assoc]
    exact .bracesElse hinner ih

/-- A passage closes all that it opens, and nothing else. -/
theorem nests_append (h : Passage u) (awaited rest : List TokenKind) :
    nests awaited (u ++ rest) = nests awaited rest := by
  induction h generalizing awaited rest with
  | nil => rfl
  | @plain kind word hkind _ ih =>
    have hplain := mem_plainKinds.1 hkind
    have hclosing : ¬(kind = .closeParen ∨ kind = .closeBrace) := by
      rintro (rfl | rfl) <;> exact hplain (by decide)
    have hopening : kind.closer? = none := by
      unfold TokenKind.closer?
      split
      · exact absurd (by decide) hplain
      · exact absurd (by decide) hplain
      · rfl
    rw [← ih awaited rest, List.cons_append, nests.eq_def]
    simp only [hopening, if_neg hclosing]
  | parens _ _ ih ih' | braces _ _ ih ih' | bracesElse _ _ ih ih' =>
    simp [nests, TokenKind.closer?, ih, ih']

theorem used (h : Passage word) : ∀ kind ∈ word, kind ∉ unusedKinds := by
  induction h with
  | nil => exact nofun
  | plain hkind _ ih =>
    have hplain := mem_plainKinds.1 hkind
    exact List.forall_mem_cons.2 ⟨fun hunused => hplain (List.mem_append_left _ hunused), ih⟩
  | parens _ _ ih ih' | braces _ _ ih ih' =>
    refine List.forall_mem_cons.2 ⟨by decide, List.forall_mem_append.2 ⟨ih, ?_⟩⟩
    exact List.forall_mem_cons.2 ⟨by decide, ih'⟩
  | bracesElse _ _ ih ih' =>
    refine List.forall_mem_cons.2 ⟨by decide, List.forall_mem_append.2 ⟨ih, ?_⟩⟩
    exact List.forall_mem_cons.2 ⟨by decide, List.forall_mem_cons.2 ⟨by decide, ih'⟩⟩

theorem elses (h : Passage word) : ElsesFollow word := by
  induction h with
  | nil => exact fun _ _ h => absurd h (by simp)
  | plain hkind _ ih =>
    exact .cons (fun helse => mem_plainKinds.1 hkind (by rw [helse]; decide)) ih
  | parens _ _ ih ih' | braces _ _ ih ih' => exact .cons nofun (ih.append (.cons nofun ih'))
  | bracesElse _ _ ih ih' => exact .cons nofun (ih.append (ElsesFollow.closed.append ih'))

theorem balanced (h : Passage word) : Balanced word where
  nested := by
    have hnests := h.nests_append [] []
    rwa [List.append_nil] at hnests
  used := h.used
  elses := h.elses

end Passage

/-! ## What is passed -/

/-- From the first place to the second one, tokens of these kinds are passed. -/
inductive Cursor.Over : Cursor → List TokenKind → Cursor → Prop where
  | refl {c : Cursor} : Over c [] c
  | step {c c' : Cursor} {word : List TokenKind} (hkind : c.current.kind ≠ .eof)
      (h : Over c.advance word c') : Over c (c.current.kind :: word) c'

theorem Cursor.Over.trans {c c' c'' : Cursor} {u v : List TokenKind} (h : c.Over u c')
    (h' : c'.Over v c'') : c.Over (u ++ v) c'' := by
  induction h with
  | refl => exact h'
  | step hkind _ ih => exact .step hkind (ih h')

/-- A passage, and then one of the closing tokens; the mark of the end is not passed. -/
def EndsIn (closing : TokenSet) (word : List TokenKind) : Prop :=
  ∃ inner kind, Passage inner ∧ kind ∈ closing ∧
    word = inner ++ if kind = .eof then [] else [kind]

namespace EndsIn

variable {closing : TokenSet} {u v : List TokenKind}

theorem behind (h : Passage u) (hv : EndsIn closing v) : EndsIn closing (u ++ v) := by
  obtain ⟨inner, kind, hinner, hkind, rfl⟩ := hv
  exact ⟨u ++ inner, kind, h.append hinner, hkind, (List.append_assoc ..).symm⟩

theorem closed {kind : TokenKind} (h : EndsIn {kind} u) (hkind : kind ≠ .eof) :
    ∃ inner, Passage inner ∧ u = inner ++ [kind] := by
  obtain ⟨inner, last, hinner, hlast, rfl⟩ := h
  obtain rfl := TokenSet.mem_singleton.1 hlast
  exact ⟨inner, hinner, by rw [if_neg hkind]⟩

theorem parens (h : EndsIn {.closeParen} u) (hv : Passage v) :
    Passage (.openParen :: (u ++ v)) := by
  obtain ⟨inner, hinner, rfl⟩ := h.closed (by decide)
  rw [List.append_assoc]
  exact .parens hinner hv

theorem braces (h : EndsIn {.closeBrace} u) : Passage (.openBrace :: u) := by
  obtain ⟨inner, hinner, rfl⟩ := h.closed (by decide)
  exact .braces hinner .nil

theorem bracesElse (h : EndsIn {.closeBrace} u) (hv : Passage v) :
    Passage (.openBrace :: (u ++ .elseWord :: v)) := by
  obtain ⟨inner, hinner, rfl⟩ := h.closed (by decide)
  rw [List.append_assoc]
  exact .bracesElse hinner hv

end EndsIn

namespace Grammar

variable {s s₁ s₂ s' : State} {log : List Binding} {φ : Phrase} {closing wanted : TokenSet}
  {P Q R : List TokenKind → Prop}

/-- What ends in a closing parenthesis, and a passage behind it. -/
def ParenThen (word : List TokenKind) : Prop :=
  ∃ u v, EndsIn {.closeParen} u ∧ Passage v ∧ word = u ++ v

/-- The words that a phrase passes. The token that begins an operand is passed before it. -/
def Phrase.Passes : Phrase → List TokenKind → Prop
  | sequence _ closing _, word | arguments closing _ _, word => EndsIn closing word
  | call .., word => EndsIn {.closeParen} word
  | group .., word => ParenThen word
  | structLiteral .., word | scopeBody .., word | scope .., word => EndsIn {.closeBrace} word
  | scopeAfter .., word => ∃ u v, Passage u ∧ EndsIn {.closeBrace} v ∧ word = u ++ .openBrace :: v
  | elseScope _, word => word = [] ∨ ∃ v, Passage v ∧ word = .elseWord :: v
  | operand _ token _ _, word => Passage (token.kind :: word)
  | _, word => Passage word

/-- What is passed from one state to the other has a property. -/
def Passed (P : List TokenKind → Prop) (s s' : State) : Prop :=
  ∃ word, s.cursor.Over word s'.cursor ∧ P word

namespace Passed

theorem still (hcursor : s'.cursor = s.cursor) : Passed Passage s s' :=
  ⟨[], by rw [hcursor]; exact .refl, .nil⟩

theorem refl : Passed Passage s s := still rfl

theorem comp (h : Passed P s s₁) (h' : Passed Q s₁ s')
    (hR : ∀ {u v}, P u → Q v → R (u ++ v)) : Passed R s s' := by
  obtain ⟨u, hu, hP⟩ := h
  obtain ⟨v, hv, hQ⟩ := h'
  exact ⟨u ++ v, hu.trans hv, hR hP hQ⟩

theorem trans (h : Passed Passage s s₁) (h' : Passed Passage s₁ s') : Passed Passage s s' :=
  h.comp h' Passage.append

theorem ended (h : Passed Passage s s₁) (h' : Passed (EndsIn closing) s₁ s') :
    Passed (EndsIn closing) s s' := h.comp h' EndsIn.behind

/-- The next token, and what is passed behind it. -/
theorem after (hkind : s.cursor.current.kind ≠ .eof) (h : Passed P s.next s')
    (hQ : ∀ {word}, P word → Q (s.cursor.current.kind :: word)) : Passed Q s s' := by
  obtain ⟨word, hword, hP⟩ := h
  exact ⟨_, .step hkind hword, hQ hP⟩

/-- One of some tokens whose place is free. -/
theorem one (hat : s.cursor.isAt wanted = true) (hplain : plainKinds.includes wanted = true) :
    Passed Passage s s.next := by
  have hmem : s.cursor.current.kind ∈ plainKinds := TokenSet.mem_of_includes hplain hat
  refine after (fun heof => ?_) refl (Passage.plain hmem)
  rw [heof] at hmem
  exact mem_plainKinds.1 hmem (by decide)

theorem past (hplain : plainKinds.includes wanted = true) : Passed Passage s (s.past wanted) := by
  suffices ∀ steps (c : Cursor),
      ∃ word, c.Over word (Cursor.skipWithin wanted steps c) ∧ Passage word from this _ _
  intro steps
  induction steps with
  | zero => exact fun c => ⟨[], .refl, .nil⟩
  | succ steps ih =>
    intro c
    unfold Cursor.skipWithin
    split
    · rename_i hat
      have hmem : c.current.kind ∈ plainKinds := TokenSet.mem_of_includes hplain hat
      obtain ⟨word, hword, hpassage⟩ := ih c.advance
      refine ⟨_, .step (fun heof => ?_) hword, .plain hmem hpassage⟩
      rw [heof] at hmem
      exact mem_plainKinds.1 hmem (by decide)
    · exact ⟨[], .refl, .nil⟩

/-- One of the tokens that end a phrase; the cursor stays in front of the mark of the end. -/
theorem last (hat : s.cursor.isAt closing = true) : Passed (EndsIn closing) s s.next := by
  by_cases heof : s.cursor.current.kind = .eof
  · have hstays : s.next.cursor = s.cursor := if_pos (decide_eq_true heof)
    refine ⟨[], by rw [hstays]; exact .refl, [], _, .nil, hat, ?_⟩
    rw [if_pos heof]
    rfl
  · refine ⟨[s.cursor.current.kind], .step heof .refl, [], _, .nil, hat, ?_⟩
    rw [if_neg heof]
    rfl

theorem imp (h : Passed P s s') (hQ : ∀ {word}, P word → Q word) : Passed Q s s' := by
  obtain ⟨word, hword, hP⟩ := h
  exact ⟨word, hword, hQ hP⟩

theorem add (h : Passed P s s') {node : Node} {span : Span} : Passed P s (s'.add node span) := h

theorem before {node : Node} {span : Span} (h : Passed P (s.add node span) s') : Passed P s s' := h

theorem opens {frame : FrameId} (h : Opens s frame s') : Passed Passage s s' := still h.2.1

theorem closes (h : Passed P s s₁) (hclose : Closes s₁ s') : Passed P s s' := by
  obtain ⟨_, _, hcursor, _⟩ := hclose
  unfold Passed
  rw [hcursor]
  exact h

/-- An opening brace, and what ends in the closing one. -/
theorem brace (hat : s.cursor.isAt {.openBrace} = true)
    (h : Passed (EndsIn {.closeBrace}) s.next s') :
    Passed (fun word => ∃ v, EndsIn {.closeBrace} v ∧ word = .openBrace :: v) s s' := by
  have hkind : s.cursor.current.kind = .openBrace := TokenSet.mem_singleton.1 hat
  have heof : s.cursor.current.kind ≠ .eof := by rw [hkind]; decide
  refine h.after heof fun {word} hword => ⟨word, hword, ?_⟩
  rw [hkind]

theorem braces (hat : s.cursor.isAt {.openBrace} = true)
    (h : Passed (EndsIn {.closeBrace}) s.next s') : Passed Passage s s' := by
  refine (brace hat h).imp ?_
  rintro _ ⟨v, hv, rfl⟩
  exact hv.braces

end Passed

theorem DeclaredType.passed {op : DefOp} {type : Option EntityId}
    (h : DeclaredType op s type s') : Passed Passage s s' := by
  cases h with
  | constant | inferred => exact .refl
  | named _ hnames => exact .one hnames.isAt (by decide)

theorem ResultType.passed {type : EntityId} (h : ResultType s type s') : Passed Passage s s' := by
  cases h with
  | nothing => exact .refl
  | named harrow hnames =>
    exact (Passed.one harrow (by decide)).trans (.one hnames.isAt (by decide))

theorem Separates.passed {rest : List EntityId} (h : Separates rest closing s s') :
    Passed Passage s s' := by
  have hpast : Passed Passage s (s.past {.newline}) := .past (by decide)
  cases h with
  | last => exact hpast
  | comma hcomma => exact hpast.trans (.one hcomma (by decide))
  | surplus hcomma => exact (hpast.trans (.one hcomma (by decide))).trans (.past (by decide))

/-- A token with what it begins makes a whole passage. -/
theorem Begins.passes {token : Token} {left : Option ExprId} {id : ExprId} {word : List TokenKind}
    (h : Begins token closing id left φ) (hword : φ.Passes word) :
    Passage (token.kind :: word) := by
  cases h with
  | literal hkind =>
    have hplain : plainKinds.includes .literals = true := by decide
    exact .plain (TokenSet.mem_of_includes hplain hkind) hword
  | record hkind =>
    exact .plain (by rcases hkind with hkind | hkind <;> rw [hkind] <;> decide) hword
  | name hkind | branch hkind | loop hkind | returns hkind | member hkind =>
    exact .plain (by rw [hkind]; decide) hword
  | group hkind =>
    obtain ⟨u, v, hu, hv, rfl⟩ := hword
    rw [hkind]
    exact hu.parens hv
  | call hkind =>
    have hparens := EndsIn.parens hword .nil
    rw [List.append_nil] at hparens
    rwa [hkind]
  | scope hkind | structLiteral hkind =>
    rw [hkind]
    exact EndsIn.braces hword

/-- A scope and what stands before it make a whole passage, with `else` and its scope or without. -/
theorem passage_scopes {first : ExprId} {word after : List TokenKind} {keyword : String}
    {token : Token} {answer : Option ExprId}
    (h : (Phrase.scopeAfter keyword token first).Passes word)
    (hafter : (Phrase.elseScope answer).Passes after) : Passage (word ++ after) := by
  obtain ⟨u, v, hu, hv, rfl⟩ := h
  rw [List.append_assoc]
  refine hu.append ?_
  rcases hafter with rfl | ⟨w, hw, rfl⟩
  · rw [List.append_nil]
    exact hv.braces
  · exact hv.bracesElse hw

theorem passage_scopeAfter {scope : ExprId} {word : List TokenKind} {keyword : String}
    {token : Token} (h : (Phrase.scopeAfter keyword token scope).Passes word) : Passage word := by
  have hscopes := @passage_scopes _ _ [] _ _ none h (.inl rfl)
  rwa [List.append_nil] at hscopes

/-- A phrase passes its brackets in pairs, and no token without a use. -/
theorem Reads.passes (h : Reads φ s log s') : Passed φ.Passes s s' := by
  induction h with
  | stepClosing | extendClosing | extendBrace | nextNone | initialNone => exact .refl
  | elseNone => exact ⟨[], .refl, .inl rfl⟩
  | stepNewline _ _ hkind =>
    exact @Passed.one _ {.newline} (TokenSet.mem_singleton.2 hkind) (by decide)
  | typeName hnames => exact .one hnames.isAt (by decide)
  | stepPrefix _ hat _ ih | stepPostfix _ hat _ ih | initialSome hat _ ih
  | nameDefinition hat _ ih => exact (Passed.one hat (by decide)).trans ih
  | stepOperator _ _ hkind _ ih =>
    exact (@Passed.one _ .operators hkind (by decide)).trans ih
  | stepOperand _ _ hat _ _ _ _ ih => exact ih.after (Cursor.ne_eof_of_isAt hat (by decide)) id
  | operand hbegins _ ih => exact ih.imp hbegins.passes
  | initialConstant _ ih | nameAlone _ _ ih => exact ih
  | extendStep _ _ _ _ _ ih ih' => exact ih.trans ih'
  | sequenceClosing hclosing => exact (Passed.past (by decide)).ended (.last hclosing)
  | sequenceItem _ _ _ _ ih ih' => exact (Passed.past (by decide)).ended (ih.ended ih')
  | literal | nameUse | postfixOperation => exact .still rfl
  | prefixOperation _ _ _ _ ih | binaryOperation _ _ _ _ _ ih | returns _ _ _ _ _ ih => exact ih
  | argumentsNil hclosing => exact (Passed.past (by decide)).ended (.last hclosing)
  | argumentsCons _ _ _ _ hseparates _ _ ih ih' =>
    exact ((Passed.past (by decide)).trans ih).ended (hseparates.passed.ended ih')
  | call _ _ _ _ _ ih | structLiteral _ _ _ _ ih | scopeBody _ ih => exact ih
  | scope hopen _ hclose ih => exact ((Passed.opens hopen).ended ih).closes hclose
  | scopeAfter hat _ ih =>
    refine (Passed.past (by decide)).comp (Passed.brace hat ih) ?_
    rintro u _ hu ⟨v, hv, rfl⟩
    exact ⟨u, v, hu, hv, rfl⟩
  | @elseSome _ _ s _ hat _ ih =>
    have hkind : s.cursor.current.kind = .elseWord := TokenSet.mem_singleton.1 hat
    have heof : s.cursor.current.kind ≠ .eof := by rw [hkind]; decide
    refine ih.after heof fun {word} hword => .inr ⟨word, passage_scopeAfter hword, ?_⟩
    rw [hkind]
  | branch hopen _ _ _ _ hclose ih ih' ih'' =>
    have hscopes := ih'.comp ih'' passage_scopes
    exact ((((Passed.opens hopen).trans ih).trans hscopes).closes hclose).add
  | loopEndless hopen _ _ _ _ hclose ih ih' =>
    have hcond := (Passed.opens hopen).trans ih
    exact ((hcond.trans (ih'.imp passage_scopeAfter).before).closes hclose).add
  | loopWhile hopen _ _ _ _ hclose ih ih' =>
    have hcond := (Passed.opens hopen).trans ih
    exact ((hcond.trans (ih'.imp passage_scopeAfter)).closes hclose).add
  | loopCounted hopen _ _ hfirst _ _ hsecond _ _ hclose ih₁ ih₂ ih₃ ih₄ =>
    have hinit := ((Passed.opens hopen).trans ih₁).trans (.one hfirst (by decide))
    have hcond := (hinit.trans ih₂).trans (.one hsecond (by decide))
    exact (((hcond.trans ih₃).trans (ih₄.imp passage_scopeAfter)).closes hclose).add
  | groupParameters hopen _ hat _ hresult hclose ih =>
    have hcontent := ((Passed.opens hopen).trans ih).ended (.last hat)
    have hgroup := hcontent.comp hresult.passed (R := ParenThen) fun {u v} hu hv =>
      ⟨u, v, hu, hv, rfl⟩
    exact (hgroup.closes hclose).add
  | groupExpression hopen _ hat _ _ hclose ih =>
    have hcontent := ((Passed.opens hopen).trans ih).ended (.last hat)
    have hgroup := hcontent.imp (Q := ParenThen) fun {u} hu =>
      ⟨u, [], hu, .nil, (List.append_nil u).symm⟩
    exact (hgroup.closes hclose).add
  | @function _ _ _ _ _ _ _ _ _ _ _ _ s s₁ s₂ s₃ _ _ _ _ hnamed henter hat _ hclose _ ih =>
    have hcursor := henter.2.1.trans (State.bindNew_cursor _ _ _)
    rw [hnamed] at hcursor
    have hbegun : Passed Passage s (s₂.inside (.function s.newEntity)) := .still hcursor
    have hbody : Passed Passage s s₃.outside :=
      hbegun.trans ((Passed.past (by decide)).trans (.braces hat ih))
    exact (hbody.closes hclose).trans (.still rfl)
  | nextSome hat _ _ _ ih =>
    exact (Passed.one hat (by decide)).trans ((Passed.past (by decide)).trans ih)
  | declaration _ ih => exact ih
  | definitionFunction _ _ htype _ _ _ _ _ ih ih' | definitionRecord _ _ htype _ _ _ _ _ ih ih'
  | definitionVariable _ _ htype _ _ _ _ _ ih ih' =>
    exact htype.passed.trans (ih.trans ih')
  | @record _ _ _ _ s s₁ s₂ _ hat hopen _ _ hclose ih =>
    have hbraces := Passed.braces hat ((Passed.opens hopen).ended ih)
    have hbody : Passed Passage s s₂.outside := (Passed.past (by decide)).trans hbraces
    exact (hbody.closes hclose).add
  | typedef => exact .still rfl
  | member hat => exact .one hat (by decide)

end Grammar

/-! ## Whole lists of tokens -/

/-- The tokens before the first mark of an end. -/
def TokenList.upToEnd (tokens : TokenList) : List Token :=
  tokens.body.toList.takeWhile fun token => token.kind ≠ .eof

theorem TokenList.get_of_lt {tokens : TokenList} {i : Nat} (hi : i < tokens.body.size) :
    tokens.get i = tokens.body[i] := by
  unfold get
  rw [Array.getElem?_eq_getElem hi, Option.getD_some]

theorem TokenList.get_of_le {tokens : TokenList} {i : Nat} (hi : tokens.body.size ≤ i) :
    tokens.get i = tokens.last := by
  unfold get
  rw [Array.getElem?_eq_none hi, Option.getD_none]

theorem TokenList.drop_body {tokens : TokenList} {i : Nat} (hi : i < tokens.body.size) :
    tokens.body.toList.drop i = tokens.get i :: tokens.body.toList.drop (i + 1) := by
  rw [List.drop_eq_getElem_cons (by simpa using hi), Array.getElem_toList, TokenList.get_of_lt hi]

namespace Cursor.Over

variable {c c' : Cursor} {word : List TokenKind}

theorem forward (h : c.Over word c') : c.Forward c' := by
  induction h with
  | refl => exact .refl
  | step _ _ ih => exact forward_advance.trans ih

theorem position (h : c.Over word c') : c'.position = c.position + word.length := by
  induction h with
  | refl => rfl
  | step hkind _ ih =>
    rw [ih, position_advance hkind, List.length_cons]
    omega

/-- What is passed up to a mark of the end is all that stands before the first one. -/
theorem word_eq (h : c.Over word c') (hend : c'.current.kind = .eof) :
    word = ((c.tokens.body.toList.drop c.position).takeWhile fun token =>
      token.kind ≠ .eof).map Token.kind := by
  induction h with
  | @refl c =>
    rcases Nat.lt_or_ge c.position c.tokens.body.size with hlt | hge
    · rw [TokenList.drop_body hlt, List.takeWhile_cons_of_neg (by simpa [current] using hend)]
      rfl
    · rw [List.drop_eq_nil_of_le (by simpa using hge)]
      rfl
  | @step c c' word hkind h ih =>
    rcases Nat.lt_or_ge c.position c.tokens.body.size with hlt | hge
    · have hrest := ih hend
      rw [position_advance hkind, (forward_advance (c := c)).tokens] at hrest
      rw [TokenList.drop_body hlt, List.takeWhile_cons_of_pos (by simpa [current] using hkind),
        List.map_cons, ← hrest]
      rfl
    · -- behind all tokens every place shows the last one, which is not the mark
      have hforward := forward_advance.trans h.forward
      have hlast : c'.current = c.current := by
        unfold current
        rw [hforward.tokens, TokenList.get_of_le hge,
          TokenList.get_of_le (Nat.le_trans hge hforward.position)]
      rw [hlast] at hend
      exact absurd hend hkind

end Cursor.Over

namespace Grammar

/-- A list of tokens that is accepted is read up to its end, and the tokens up to there are
balanced. A list with no other mark of the end than its last token is balanced as a whole. -/
theorem accepted_balanced {tokens : TokenList} {tree : Tree} (h : parse tokens = .ok tree) :
    (∃ s, program (.initial tokens) = .ok () s ∧ s.cursor.current.kind = .eof ∧
      s.cursor.position = tokens.upToEnd.length) ∧
    Balanced (tokens.upToEnd.map Token.kind) ∧
    ((∀ token ∈ tokens.body, token.kind ≠ .eof) → tokens.upToEnd = tokens.body.toList) := by
  unfold parse at h
  cases hprogram : program (.initial tokens) with
  | error fault s =>
    rw [hprogram] at h
    cases h
  | ok u s =>
    obtain ⟨body, log, s₁, hread, rfl⟩ := program_reads hprogram
    have hend := hread.reaches_end
    obtain ⟨word, hover, inner, kind, hinner, hkind, rfl⟩ := hread.passes
    obtain rfl := TokenSet.mem_singleton.1 hkind
    rw [if_pos rfl, List.append_nil] at hover
    have hword : inner = tokens.upToEnd.map Token.kind := hover.word_eq hend
    have hposition : s₁.cursor.position = 0 + inner.length := hover.position
    refine ⟨⟨_, rfl, hend, ?_⟩, hword ▸ hinner.balanced, fun hbody => ?_⟩
    · show s₁.cursor.position = _
      rw [hposition, hword, List.length_map, Nat.zero_add]
    · have hall : ∀ token ∈ tokens.body.toList, decide (token.kind ≠ .eof) = true :=
        fun token htoken => decide_eq_true (hbody token (Array.mem_toList_iff.1 htoken))
      exact List.takeWhile_eq_self_iff.2 hall

/-- A function with a branch in it. -/
def branchSource : String :=
  "f :: (x: s32) -> s32 \x7b\nif x == 1 \x7b return (x) \x7d else\n \x7b return f(x) \x7d\n\x7d\n"

theorem accepted_balanced_branch : ∃ tokens tree,
    Lexicon.tokenize branchSource.toList = .ok tokens ∧ parse tokens = .ok tree ∧
      Balanced (tokens.body.toList.map Token.kind) := by
  have hrun : (parseSource branchSource).toOption.any (fun _ => true) = true := by decide +kernel
  obtain ⟨tree, hparse, -⟩ := exists_parse hrun
  obtain ⟨tokens, htokens, hparse⟩ := parseSource_ok hparse
  obtain ⟨-, hbalanced, hwhole⟩ := accepted_balanced hparse
  rw [hwhole (Lexicon.tokenize_eof htokens).1] at hbalanced
  exact ⟨tokens, tree, htokens, hparse, hbalanced⟩

end Grammar

end OnePass

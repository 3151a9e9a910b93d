import OnePass.Proofs.Enclosure
import OnePass.Proofs.Spans
import OnePass.Proofs.Written

/-!
# Returns

A `return` belongs to the function that is around it. In the tree of a source that is accepted
it lies in the body of that function, with no other body and no record in between, and what it
returns converts into the result of the function. Each `return` in the source begins such an
expression, since no production passes the word otherwise (`Reads.heeds`); one that is outside
of all functions, or with a record around it first, is therefore never accepted
(`returns_belong_to_function`).
-/

namespace OnePass

/-! ## What is returned -/

/-- What is returned converts into the result of the function. -/
def Tree.Yields (t : Tree) (value : Option ExprId) (function : EntityId) : Prop :=
  ∃ name params result source, t.entity? function = some ⟨name, .function params result⟩ ∧
    Grammar.returnedType? t value = some source ∧ Grammar.Converts t source result

/-- A `return` begins with the token. -/
def Tree.ReturnsAt (t : Tree) (token : Token) : Prop :=
  ∃ id value function span, t.expr? id = some ⟨.result value function, span⟩ ∧
    span.start = token.span.start

theorem Tree.ReturnsAt.mono {t t' : Tree} {token : Token} (h : t.ReturnsAt token)
    (hgrows : t.Extends t') : t'.ReturnsAt token := by
  obtain ⟨id, value, function, span, he, hstart⟩ := h
  exact ⟨id, value, function, span, hgrows.expr he, hstart⟩

namespace Grammar

variable {s s₁ s₂ s' : State} {t t' : Tree} {log : List Binding} {φ : Phrase} {id : ExprId}
  {closing wanted : TokenSet}

theorem returnedType?_mono {value : Option ExprId} {source : EntityId} (h : t.Extends t')
    (hb : t.HasBuiltins) (hsource : returnedType? t value = some source) :
    returnedType? t' value = some source := by
  cases value with
  | none => exact hsource
  | some value => exact Tree.exprType?_mono h hb hsource

/-- What was returned was checked against the function. -/
theorem Origin.returns {value : Option ExprId} {function : EntityId} {span : Span}
    (h : Origin t id ⟨.result value function, span⟩) :
    ∃ e source, t.entity? function = some e ∧ returnedType? t value = some source ∧
      Converts t source (resultOf e) := by
  cases h with
  | made hread hs hfits hplaced hmade hexpr hevolves =>
    cases hread with
    | returns hconstruct hentity hvalue hsource hconverts =>
      cases hmade
      cases eq_of_newExpr hexpr
      have hs' := hvalue.sound hs nofun
      have hthen := (Tree.pushExpr_evolves _ _).trans hevolves
      exact ⟨_, _, (hvalue.extends.trans hthen.toExtends).entity hentity,
        returnedType?_mono hthen.toExtends hs'.builtins hsource,
        Tree.converts_mono hthen hs'.hasRecords hconverts⟩
    | literal hnode =>
      cases hmade
      cases eq_of_newExpr hexpr
      cases hnode
    | _ => cases hmade <;> cases eq_of_newExpr hexpr

/-- The entity of a function is one. -/
theorem Origin.function {name : String} {function : EntityId} {header body : ExprId} {span : Span}
    (h : Origin t id ⟨.function name function header body, span⟩) :
    ∃ canonical params result, t.entity? function = some ⟨canonical, .function params result⟩ := by
  cases h with
  | made hread hs hfits hplaced hmade hexpr hevolves =>
    have hread' := hread
    cases hread with
    | function =>
      cases hmade
      cases eq_of_newExpr hexpr
      obtain ⟨_, _, _, _, _, _, _, _, hentity⟩ := hread'.function_entity
      exact ⟨_, _, _, hevolves.entity hentity⟩
    | literal hnode =>
      cases hmade
      cases eq_of_newExpr hexpr
      cases hnode
    | _ => cases hmade <;> cases eq_of_newExpr hexpr

/-! ## The word -/

theorem position_advance_le (c : Cursor) : c.advance.position ≤ c.position + 1 := by
  unfold Cursor.advance
  split
  · exact Nat.le_succ _
  · exact Nat.le_refl _

/-- Only tokens of the set are skipped. -/
theorem mem_of_skipWithin {steps k : Nat} {c : Cursor} (hle : c.position ≤ k)
    (hlt : k < (Cursor.skipWithin wanted steps c).position) :
    (c.tokens.get k).kind ∈ wanted := by
  induction steps generalizing c with
  | zero => exact absurd hlt (Nat.not_lt.2 hle)
  | succ steps ih =>
    unfold Cursor.skipWithin at hlt
    split at hlt
    · rename_i hat
      rcases Nat.eq_or_lt_of_le hle with rfl | hbehind
      · exact hat
      · have hnext := ih (Nat.le_trans (position_advance_le c) hbehind) hlt
        rwa [Cursor.forward_advance.tokens] at hnext
    · exact absurd hlt (Nat.not_lt.2 hle)

/-- From one state to the other, each `return` that was passed begins an expression, if the
tokens are in order. -/
structure Heeds (s s' : State) : Prop where
  forward : s.cursor.Forward s'.cursor
  grows : s.tree.Extends s'.tree
  heeded : s.cursor.tokens.Ordered → ∀ k, s.cursor.position ≤ k → k < s'.cursor.position →
    (s.cursor.tokens.get k).kind = .returnWord → s'.tree.ReturnsAt (s.cursor.tokens.get k)

namespace Heeds

/-- No token was passed. -/
theorem still (h : Trail s log s') (hcursor : s'.cursor = s.cursor) : Heeds s s' := by
  refine ⟨h.forward, h.extends, fun _ k hle hlt => ?_⟩
  rw [hcursor] at hlt
  exact absurd hlt (Nat.not_lt.2 hle)

theorem step (h : Step s log s') (hcursor : s'.cursor = s.cursor) : Heeds s s' :=
  still (.single h) hcursor

theorem refl : Heeds s s := still .refl rfl

theorem trans (h : Heeds s s₁) (h' : Heeds s₁ s') : Heeds s s' := by
  refine ⟨h.forward.trans h'.forward, h.grows.trans h'.grows, fun ho k hle hlt hkind => ?_⟩
  by_cases hk : k < s₁.cursor.position
  · exact (h.heeded ho k hle hk hkind).mono h'.grows
  · have hlater := h'.heeded (h.forward.tokens.symm ▸ ho) k (Nat.le_of_not_lt hk) hlt
    rw [h.forward.tokens] at hlater
    exact hlater hkind

/-- The next token, and what was read behind it. -/
theorem after (h : Heeds s.next s') (hhead : s.cursor.tokens.Ordered →
    s.cursor.current.kind = .returnWord → s'.tree.ReturnsAt s.cursor.current) : Heeds s s' := by
  have hforward : s.cursor.Forward s.next.cursor := Cursor.forward_advance
  refine ⟨hforward.trans h.forward, h.grows, fun ho k hle hlt hkind => ?_⟩
  rcases Nat.eq_or_lt_of_le hle with rfl | hbehind
  · exact hhead ho hkind
  · have hlater := h.heeded (hforward.tokens.symm ▸ ho) k
      (Nat.le_trans (position_advance_le _) hbehind) hlt
    rw [hforward.tokens] at hlater
    exact hlater hkind

/-- A token that is no `return`. -/
theorem next (hkind : s.cursor.current.kind ≠ .returnWord) : Heeds s s.next :=
  after refl fun _ hreturn => absurd hreturn hkind

/-- A token of a set in which there is no `return`. -/
theorem one (hat : s.cursor.isAt wanted = true) (hwanted : .returnWord ∉ wanted) :
    Heeds s s.next := by
  refine next fun hkind => hwanted ?_
  rw [← hkind]
  exact hat

theorem past (hwanted : .returnWord ∉ wanted) : Heeds s (s.past wanted) := by
  refine ⟨Cursor.forward_skip, .refl, fun _ k hle hlt hkind => absurd ?_ hwanted⟩
  rw [← hkind]
  exact mem_of_skipWithin hle hlt

theorem add (h : Heeds s s') {node : Node} {span : Span} : Heeds s (s'.add node span) :=
  h.trans (step .add rfl)

theorem install {entity : Entity} : Heeds s (s.install entity) := by
  have htrail : Trail s [⟨s.tree.currentFrame, entity.name, s.newEntity, 0⟩] (s.install entity) :=
    .install rfl
  exact still htrail rfl

theorem opens {frame : FrameId} (h : Opens s frame s') : Heeds s s' := step (.opens h) h.2.1

theorem closes (h : Heeds s s₁) (hclose : Closes s₁ s') : Heeds s s' := by
  have hclose' := hclose
  obtain ⟨_, _, hcursor, _⟩ := hclose
  exact h.trans (step (.closes hclose') hcursor)

end Heeds

theorem DeclaredType.heeds {op : DefOp} {type : Option EntityId}
    (h : DeclaredType op s type s') : Heeds s s' := by
  cases h with
  | constant | inferred => exact .refl
  | named _ hnames => exact .one hnames.isAt (by decide)

theorem ResultType.heeds {type : EntityId} (h : ResultType s type s') : Heeds s s' := by
  cases h with
  | nothing => exact .refl
  | named harrow hnames =>
    exact (Heeds.one harrow (by decide)).trans (.one hnames.isAt (by decide))

theorem Separates.heeds {rest : List EntityId} (h : Separates rest closing s s') :
    Heeds s s' := by
  have hpast : Heeds s (s.past {.newline}) := .past (by decide)
  cases h with
  | last => exact hpast
  | comma hcomma => exact hpast.trans (.one hcomma (by decide))
  | surplus hcomma => exact (hpast.trans (.one hcomma (by decide))).trans (.past (by decide))

theorem State.bindNew_cursor (s : State) (name : String) (entity : EntityId) :
    (s.bindNew name entity).cursor = s.cursor := by
  unfold State.bindNew
  split <;> rfl

/-- What ends a sequence or some arguments is no `return`. -/
def Phrase.EndsElsewhere : Phrase → Prop
  | sequence _ closing _ | arguments closing .. => .returnWord ∉ closing
  | _ => True

/-- What a token begins is no sequence. -/
theorem Begins.endsElsewhere {token : Token} {left : Option ExprId}
    (h : Begins token closing id left φ) : φ.EndsElsewhere := by
  cases h <;> exact True.intro

/-- The operand that a `return` begins is one that returns. -/
theorem Reads.returnsAt {left : Option ExprId}
    (h : Reads (.operand left s.cursor.current closing id) s.next log s')
    (ho : s.cursor.tokens.Ordered) (hkind : s.cursor.current.kind = .returnWord) :
    s'.tree.ReturnsAt s.cursor.current := by
  have hs : Stands s.cursor.tokens s.cursor.position s := ⟨rfl, Nat.le_refl _⟩
  cases h with
  | operand hbegins hread =>
    cases hbegins with
    | returns =>
      cases hread with
      | returns hconstruct hentity hvalue hsource hconverts =>
        refine ⟨_, _, _, _, expr?_newExpr _ _ _, ?_⟩
        have hnext : s.next.cursor.position = s.cursor.position + 1 :=
          Cursor.position_advance (by rw [hkind]; decide)
        have hle := hvalue.forward.position
        rw [((hs.step .next).read hvalue).previous, hs.current,
          ho.merge_between (by omega) (by omega)]
        rfl
    | literal hliteral =>
      rw [hkind] at hliteral
      exact absurd hliteral (by decide)
    | record hrecord => rcases hrecord with hrecord | hrecord <;> cases hkind.symm.trans hrecord
    | name hother | branch hother | loop hother | group hother | call hother | scope hother
    | structLiteral hother | member hother => cases hkind.symm.trans hother

/-- No production passes a `return` that does not begin an expression. -/
theorem Reads.heeds (h : Reads φ s log s') (hends : φ.EndsElsewhere) : Heeds s s' := by
  induction h with
  | stepClosing | extendClosing | extendBrace | elseNone | nextNone | initialNone => exact .refl
  | stepNewline _ _ hkind => exact .next (by rw [hkind]; decide)
  | typeName hnames => exact .one hnames.isAt (by decide)
  | stepPrefix _ hat _ ih | stepPostfix _ hat _ ih | elseSome hat _ ih | initialSome hat _ ih
  | nameDefinition hat _ ih => exact (Heeds.one hat (by decide)).trans (ih True.intro)
  | @stepOperator _ _ _ _ s _ _ _ hkind _ ih =>
    have hat : s.cursor.isAt TokenSet.operators = true := hkind
    exact (Heeds.one hat (by decide)).trans (ih True.intro)
  -- the one rule that passes a `return`, since it passes any token that begins an operand
  | stepOperand _ _ _ _ _ _ hread ih =>
    exact (ih True.intro).after fun ho hkind => hread.returnsAt ho hkind
  | operand hbegins _ ih => exact ih hbegins.endsElsewhere
  | initialConstant _ ih | nameAlone _ _ ih => exact ih True.intro
  | extendStep _ _ _ _ _ ih ih' => exact (ih True.intro).trans (ih' True.intro)
  | sequenceClosing hclosing => exact (Heeds.past (by decide)).trans (.one hclosing hends)
  | sequenceItem _ _ _ _ ih ih' =>
    exact (Heeds.past (by decide)).trans ((ih True.intro).trans (ih' hends))
  | literal | nameUse | postfixOperation => exact Heeds.refl.add
  | prefixOperation _ _ _ _ ih | binaryOperation _ _ _ _ _ ih | returns _ _ _ _ _ ih =>
    exact (ih True.intro).add
  | argumentsNil hclosing => exact (Heeds.past (by decide)).trans (.one hclosing hends)
  | argumentsCons _ _ _ _ hseparates _ _ ih ih' =>
    have hvalue := (Heeds.past (by decide)).trans (ih True.intro)
    exact (hvalue.trans (hseparates.heeds.trans (ih' hends))).add
  | call _ _ _ _ _ ih | structLiteral _ _ _ _ ih | scopeBody _ ih =>
    exact (ih (by simp [Phrase.EndsElsewhere])).add
  | scope hopen _ hclose ih => exact ((Heeds.opens hopen).trans (ih True.intro)).closes hclose
  | scopeAfter hat _ ih =>
    exact (Heeds.past (by decide)).trans ((Heeds.one hat (by decide)).trans (ih True.intro))
  | branch hopen _ _ _ _ hclose ih ih' ih'' =>
    have hcond := (Heeds.opens hopen).trans (ih True.intro)
    have hscopes := (ih' True.intro).trans (ih'' True.intro)
    exact ((hcond.trans hscopes).closes hclose).add
  | loopEndless hopen _ _ _ _ hclose ih ih' =>
    have hcond := (Heeds.opens hopen).trans (ih True.intro)
    exact ((hcond.add.trans (ih' True.intro)).closes hclose).add
  | loopWhile hopen _ _ _ _ hclose ih ih' =>
    have hcond := (Heeds.opens hopen).trans (ih True.intro)
    exact ((hcond.trans (ih' True.intro)).closes hclose).add
  | loopCounted hopen _ _ hfirst _ _ hsecond _ _ hclose ih₁ ih₂ ih₃ ih₄ =>
    have hinit := ((Heeds.opens hopen).trans (ih₁ True.intro)).trans (.one hfirst (by decide))
    have hcond := (hinit.trans (ih₂ True.intro)).trans (.one hsecond (by decide))
    exact (((hcond.trans (ih₃ True.intro)).trans (ih₄ True.intro)).closes hclose).add
  | groupParameters hopen _ hat _ hresult hclose ih =>
    have hcontent := ((Heeds.opens hopen).trans (ih True.intro)).trans (.one hat (by decide))
    exact ((hcontent.trans hresult.heeds).closes hclose).add
  | groupExpression hopen _ hat _ _ hclose ih =>
    have hcontent := ((Heeds.opens hopen).trans (ih True.intro)).trans (.one hat (by decide))
    exact (hcontent.closes hclose).add
  | function _ _ _ hnamed henter hat _ hclose hbind ih =>
    obtain ⟨_, hhead⟩ := Enters.trail hnamed henter
    have hcursor := henter.2.1.trans (State.bindNew_cursor _ _ _)
    rw [hnamed] at hcursor
    have hbrace := (Heeds.past (by decide)).trans (.one hat (by decide))
    have hbegun := (Heeds.still hhead hcursor).trans ((Heeds.step .inside rfl).trans hbrace)
    have hended := (hbegun.trans (ih True.intro)).trans (.step .outside rfl)
    exact ((hended.closes hclose).trans (.step (.bindBody hbind) rfl)).add
  | nextSome hat _ _ _ ih =>
    exact (Heeds.one hat (by decide)).trans ((Heeds.past (by decide)).trans (ih True.intro))
  | declaration _ ih => exact (Heeds.install.trans (ih True.intro)).add
  | definitionFunction _ _ htype _ _ _ _ _ ih ih' | definitionRecord _ _ htype _ _ _ _ _ ih ih'
  | definitionVariable _ _ htype _ _ _ _ _ ih ih' =>
    exact htype.heeds.trans ((ih True.intro).trans (ih' True.intro))
  | record hat hopen _ _ hclose ih =>
    have hbegun := ((Heeds.past (by decide)).trans (.one hat (by decide))).trans (.opens hopen)
    have hbody := (hbegun.trans (.step .inside rfl)).trans
      (ih (by simp [Phrase.EndsElsewhere]))
    exact ((hbody.trans (.step .outside rfl)).closes hclose).add
  | typedef => exact Heeds.install.add
  | member hat => exact (Heeds.one hat (by decide)).add

/-- A source is read up to the mark of its end. -/
theorem Reads.reaches_end {body : Array ExprId} {answer : List ExprId}
    (h : Reads (.sequence body {.eof} answer) s log s') : s'.cursor.current.kind = .eof := by
  generalize hφ : Phrase.sequence body {.eof} answer = φ at h
  induction h generalizing body answer with
  | @sequenceClosing _ _ s hclosing =>
    cases hφ
    have hkind : (s.past separators).cursor.current.kind = .eof :=
      TokenSet.mem_singleton.1 hclosing
    have hstays : (s.past separators).cursor.advance = (s.past separators).cursor :=
      if_pos (decide_eq_true hkind)
    show ((s.past separators).cursor.advance).current.kind = .eof
    rw [hstays, hkind]
  | sequenceItem _ _ _ _ _ ih =>
    cases hφ
    exact ih rfl
  | _ => cases hφ

/-! ## Whole sources -/

/-- Every `return` of an accepted source begins an expression that returns. -/
theorem returnsAt_of_parse {source : List Char} {tokens : TokenList} {tree : Tree}
    (htokens : Lexicon.tokenize source = .ok tokens) (h : parse tokens = .ok tree) {x : Token}
    (hx : x ∈ tokens.toList) (hkind : x.kind = .returnWord) : tree.ReturnsAt x := by
  obtain ⟨hlaid, hlast⟩ := Lexicon.tokenize_laid htokens
  have ho := hlaid.tokens_ordered (by rw [hlast])
  obtain ⟨hbody, heof⟩ := Lexicon.tokenize_eof htokens
  obtain ⟨body, log, s, hread, rfl⟩ := parse_reads h
  have hheeds := hread.heeds (by simp [Phrase.EndsElsewhere])
  have hend := hread.reaches_end
  rcases List.mem_append.1 hx with hx | hx
  · obtain ⟨k, hk, rfl⟩ := Array.mem_iff_getElem.1 (Array.mem_toList_iff.1 hx)
    have hget : tokens.get k = tokens.body[k] := by
      unfold TokenList.get
      rw [Array.getElem?_eq_getElem hk, Option.getD_some]
    -- no token is left behind the place where the reading ends
    have hpassed : k < s.cursor.position := by
      by_contra hleft
      have hlt : s.cursor.position < tokens.body.size := by omega
      unfold Cursor.current TokenList.get at hend
      rw [hread.forward.tokens] at hend
      have hthere : (State.initial tokens).cursor.tokens.body[s.cursor.position]? =
          some tokens.body[s.cursor.position] := Array.getElem?_eq_getElem hlt
      rw [hthere] at hend
      exact hbody _ (Array.getElem_mem hlt) hend
    have hreturns := hheeds.heeded ho k (Nat.zero_le _) hpassed
      (show (tokens.get k).kind = .returnWord by rw [hget]; exact hkind)
    rw [← hget]
    exact hreturns.mono
      (Step.add.extends.trans (setMainScope_evolves (some s.newExpr)).toExtends)
  · rw [List.mem_singleton.1 hx, heof] at hkind
    cases hkind

/-- In an accepted source, every `return` of the tree belongs to the function with the innermost
body around it, from which no record divides it, and what it returns converts into the result of
that function. Every `return` of the source begins one of the tree, so that none is accepted
outside of functions, or in a record without a function around it there. -/
theorem returns_belong_to_function {source : String} {tree : Tree}
    (h : parseSource source = .ok tree) :
    (∀ id value function span, tree.expr? id = some ⟨.result value function, span⟩ →
      (∃ body, tree.Encloses function body id) ∧ tree.Yields value function) ∧
    ∃ tokens, Lexicon.tokenize source.toList = .ok tokens ∧
      ∀ x ∈ tokens.toList, x.kind = .returnWord → tree.ReturnsAt x := by
  obtain ⟨tokens, htokens, hparse⟩ := parseSource_ok h
  refine ⟨?_, tokens, htokens, fun x hx hkind => returnsAt_of_parse htokens hparse hx hkind⟩
  intro id value function span he
  obtain ⟨main, hinside⟩ := inside_of_parse hparse he
  obtain ⟨body, hencloses⟩ := hinside.encloses (oneTree_of_parse hparse)
  refine ⟨⟨body, hencloses⟩, ?_⟩
  obtain ⟨f, name, header, span', hf⟩ := hencloses.function
  rcases origin_of_parse hparse hf with hfunction | ⟨_, _, hmain⟩
  · obtain ⟨canonical, params, result, hentity⟩ := hfunction.function
    rcases origin_of_parse hparse he with horigin | ⟨_, _, hmain⟩
    · obtain ⟨e, source, he', hsource, hconverts⟩ := horigin.returns
      obtain rfl := Option.some.inj (he'.symm.trans hentity)
      exact ⟨canonical, params, result, source, hentity, hsource, hconverts⟩
    · cases hmain
  · cases hmain

/-- A function that returns a number, and in it a structure with a function that returns. -/
def memberReturnSource : String :=
  "f :: () -> s32 \x7b\nS :: struct \x7b\ng :: () \x7b return \x7d\n\x7d\nreturn 1\n\x7d\n"

/-- The one `return` belongs to the member of the structure, the other to the function around
the structure. -/
theorem returns_belong_to_function_member : ∃ tree,
    parseSource memberReturnSource = .ok tree ∧
      ((∃ body, tree.Encloses ⟨17⟩ body ⟨2⟩) ∧ tree.Yields none ⟨17⟩) ∧
      (∃ body, tree.Encloses ⟨16⟩ body ⟨8⟩) ∧ tree.Yields (some ⟨7⟩) ⟨16⟩ := by
  have hrun : (parseSource memberReturnSource).toOption.any (fun tree =>
      decide ((tree.expr? ⟨2⟩).map Expr.node = some (.result none ⟨17⟩) ∧
        (tree.expr? ⟨8⟩).map Expr.node = some (.result (some ⟨7⟩) ⟨16⟩))) = true := by
    decide +kernel
  obtain ⟨tree, hparse, hcheck⟩ := exists_parse hrun
  obtain ⟨hmember, hfunction⟩ := of_decide_eq_true hcheck
  obtain ⟨_, hmember⟩ := exists_span hmember
  obtain ⟨_, hfunction⟩ := exists_span hfunction
  obtain ⟨hbelong, _⟩ := returns_belong_to_function hparse
  exact ⟨tree, hparse, hbelong _ _ _ _ hmember, hbelong _ _ _ _ hfunction⟩

end Grammar

end OnePass

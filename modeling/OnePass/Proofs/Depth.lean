import OnePass.Proofs.Faults
import OnePass.Proofs.Respacing
import OnePass.Proofs.Turns

/-!
# The limit of nesting

Brackets of both sorts open a frame each, and frames may lie `Tree.depthLimit` deep. So a literal
in some brackets is read if and only if there are at most so many brackets, whatever their sorts
are, and leaves one frame per bracket; one bracket more is refused at the first one too many
(`depth_limit_exact`). Either way the reading is followed bracket by bracket from the outermost one
(`extend_bracketed`, `extend_too_deep`): what is read to the matching bracket begins with one more
open frame and one bracket less.
-/

namespace OnePass

open Text (byteLength)

/-! ## Brackets -/

/-- A bracket that opens a frame. -/
inductive Bracket where
  | brace
  | paren
deriving DecidableEq

namespace Bracket

def opening : Bracket → Char
  | .brace => '\x7b'
  | .paren => '('

def closing : Bracket → Char
  | .brace => '\x7d'
  | .paren => ')'

def openKind : Bracket → TokenKind
  | .brace => .openBrace
  | .paren => .openParen

def closeKind : Bracket → TokenKind
  | .brace => .closeBrace
  | .paren => .closeParen

/-- What closes an expression in a bracket. -/
def inside : Bracket → TokenSet
  | .brace => Grammar.separators ∪ {.closeBrace}
  | .paren => {.closeParen}

end Bracket

/-- The literal `1` in brackets, the first of which is the outermost. -/
def bracketed (w : List Bracket) : List Char :=
  w.map Bracket.opening ++ '1' :: (w.map Bracket.closing).reverse

/-- The tokens of a literal in brackets that begins at byte `offset`. -/
def bracketedTokens : Nat → List Bracket → List Token
  | offset, [] => [Lexicon.cut .decimal offset ['1']]
  | offset, b :: w =>
    Lexicon.cut b.openKind offset [b.opening] :: (bracketedTokens (offset + 1) w ++
      [Lexicon.cut b.closeKind (offset + 1 + byteLength (bracketed w)) [b.closing]])

theorem bracketed_cons (b : Bracket) (w : List Bracket) :
    bracketed (b :: w) = [b.opening] ++ (bracketed w ++ [b.closing]) := by
  simp [bracketed]

/-- The tokens of the outermost bracket around those of what stands in it. -/
theorem bracketedTokens_cons (offset : Nat) (b : Bracket) (w : List Bracket) (rest : List Token) :
    bracketedTokens offset (b :: w) ++ rest =
      Lexicon.cut b.openKind offset [b.opening] :: (bracketedTokens (offset + 1) w ++
        Lexicon.cut b.closeKind (offset + 1 + byteLength (bracketed w)) [b.closing] :: rest) := by
  simp [bracketedTokens]

theorem byteLength_bracketed (w : List Bracket) : byteLength (bracketed w) = 2 * w.length + 1 := by
  induction w with
  | nil => rfl
  | cons b w ih =>
    have hopening : byteLength [b.opening] = 1 := by cases b <;> rfl
    have hclosing : byteLength [b.closing] = 1 := by cases b <;> rfl
    rw [bracketed_cons, Text.byteLength_append, Text.byteLength_append, ih, hopening, hclosing,
      List.length_cons]
    omega

theorem length_bracketedTokens (offset : Nat) (w : List Bracket) :
    (bracketedTokens offset w).length = 2 * w.length + 1 := by
  induction w generalizing offset with
  | nil => rfl
  | cons b w ih =>
    rw [bracketedTokens, List.length_cons, List.length_append, ih, List.length_singleton,
      List.length_cons]
    omega

namespace Lexicon

variable {after : List Char}

theorem longest_opening (b : Bracket) :
    Longest ([b.opening] ++ after) [b.opening] (.token b.openKind) := by
  cases b <;> exact longest_alone (word_of_munch? (by decide +kernel)) (by decide +kernel)

theorem longest_closing (b : Bracket) :
    Longest ([b.closing] ++ after) [b.closing] (.token b.closeKind) := by
  cases b <;> exact longest_alone (word_of_munch? (by decide +kernel)) (by decide +kernel)

/-- The literal is taken before a closing bracket or nothing. -/
theorem longest_one (hafter : after = [] ∨ ∃ b rest, after = Bracket.closing b :: rest) :
    Longest (['1'] ++ after) ['1'] (.token .decimal) := by
  have hword : Word ['1'] .decimal := word_of_munch? (by decide +kernel)
  rcases hafter with rfl | ⟨b, rest, rfl⟩
  · exact hword.longest (.inl rfl)
  · cases b <;> exact hword.longest_before (by decide +kernel)

/-- A literal in brackets is cut into the brackets and the literal. -/
theorem scans_bracketed (offset : Nat) (w : List Bracket)
    (hafter : after = [] ∨ ∃ b rest, after = Bracket.closing b :: rest) :
    Scans after offset (bracketed w) (bracketedTokens offset w) := by
  induction w generalizing offset after with
  | nil =>
    have hone : Longest (['1'] ++ [] ++ after) ['1'] (.token .decimal) := by
      simpa using longest_one hafter
    exact .token hone .done
  | cons b w ih =>
    have hopening : byteLength [b.opening] = 1 := by cases b <;> rfl
    have hclosing : Scans after (offset + 1 + byteLength (bracketed w)) ([b.closing] ++ [])
        [cut b.closeKind (offset + 1 + byteLength (bracketed w)) [b.closing]] :=
      .token (by simpa using longest_closing b) .done
    rw [bracketed_cons, bracketedTokens]
    refine .token (by simpa using longest_opening b) ?_
    rw [hopening]
    exact (ih (offset + 1) (.inr ⟨b, _, rfl⟩)).append hclosing

end Lexicon

namespace Grammar

variable {p : Productions} {s s₁ s₂ s₃ s' : State} {frame : FrameId} {id : ExprId}
  {closing : TokenSet} {fault : Fault} {w : List Bracket} {rest : List Token}

/-! ## Frames around what is read -/

/-- Number of open frames. -/
def State.openFrames (s : State) : Nat := s.tree.stack.items.size

theorem exists_opens (h : s.tree.Nested) (hroom : s.openFrames ≤ Tree.depthLimit) :
    ∃ frame s', Opens s frame s' ∧ s'.tree.Nested ∧ s'.openFrames = s.openFrames + 1 ∧
      s'.tree.frames.size = s.tree.frames.size + 1 := by
  have hdepth := h.current_depth
  rcases h.openFrame_run with ⟨hdeep, -⟩ | ⟨hdeep, hsize, hrun⟩
  · unfold State.openFrames at hroom
    omega
  · refine ⟨_, { s with tree := _ }, ⟨hrun, rfl, rfl⟩, ?_, Array.size_push _, Array.size_push _⟩
    exact (Tree.FrameStep.opens hdeep hsize).nested h

/-- No frame is opened where the innermost one is as deep as frames may be. -/
theorem openFrame_refused (h : s.tree.Nested) (hfull : s.openFrames = Tree.depthLimit + 1)
    (span : Span) :
    openFrame span s = .error ⟨.stack (.tooDeep Tree.depthLimit), some span⟩ s := by
  have hdepth := h.current_depth
  rcases h.openFrame_run with ⟨-, hrun⟩ | ⟨hdeep, -⟩
  · unfold openFrame
    rw [framing_run, hrun]
  · unfold State.openFrames at hfull
    omega

theorem exists_closes (h : s.tree.Nested) (hopened : 1 < s.openFrames) (span : Span) :
    ∃ s', closeFrame span s = .ok () s' ∧ s'.cursor = s.cursor ∧ s'.tree.Nested ∧
      s'.openFrames = s.openFrames - 1 ∧ s'.tree.frames.size = s.tree.frames.size ∧
      s'.tree.exprs = s.tree.exprs := by
  rcases h.closeFrame_run with ⟨hmain, -⟩ | ⟨hsize, hrun⟩
  · unfold State.openFrames at hopened
    rw [hmain] at hopened
    exact absurd hopened (Nat.lt_irrefl 1)
  · have hframing : framing span Tree.closeFrame s =
        .ok s.tree.currentFrame { s with tree := s.tree.offTop } := by
      rw [framing_run, hrun]
    refine ⟨{ s with tree := s.tree.offTop }, bind_eq hframing, rfl, h.offTop hsize, ?_, rfl, rfl⟩
    exact Array.size_pop

/-! ## One bracket -/

/-- The expression is none that makes parentheses the parameters of a signature. -/
def Plain (t : Tree) (id : ExprId) : Prop :=
  ∃ e, t.expr? id = some e ∧
    ∀ name op init entity next, e.node ≠ .definition name op init entity next

theorem isParameters_plain (h : Plain s.tree id) : isParameters (some id) s = .ok false s := by
  obtain ⟨⟨node, span⟩, he, hnode⟩ := h
  unfold isParameters
  dsimp only
  rw [nodeOf_eq he]
  cases node with
  | definition => exact absurd rfl (hnode _ _ _ _ _)
  | _ => rfl

theorem group_eq {token : Token} (hopen : Opens s frame s₁)
    (hcontent : p.expr {.closeParen} s₁ = .ok (some id) s₂)
    (hat : s₂.cursor.isAt {.closeParen} = true) (hplain : Plain s₂.tree id)
    (hclose : closeFrame token.span s₂.next = .ok () s₃) :
    ∃ span, group p token s = .ok s₃.newExpr (s₃.add (.group id) span) := by
  have haccept : accept? {.closeParen} s₂ = .ok (some s₂.cursor.current) s₂.next := by
    rw [accept?_run, if_pos hat]
  refine ⟨token.span.merge s₂.cursor.current.span, ?_⟩
  unfold group
  rw [bind_eq (openFrame_ok.2 hopen), bind_eq hcontent, bind_eq haccept]
  dsimp only
  have hexpression : isParameters (some id) s₂.next = .ok false s₂.next := isParameters_plain hplain
  rw [bind_eq hexpression, if_neg Bool.false_ne_true, bind_eq hclose]
  exact push_run _ _ _

theorem scope_eq {token : Token} {body : List ExprId} (hopen : Opens s frame s₁)
    (hbody : p.sequence #[] {.closeBrace} s₁ = .ok body s₂)
    (hclose : closeFrame token.span
      (s₂.add (.scope body frame) (token.span.merge s₂.cursor.previousSpan)) = .ok () s₃) :
    scope p token s = .ok s₂.newExpr s₃ := by
  have hscope : scopeBody p token frame s₁ =
      .ok s₂.newExpr (s₂.add (.scope body frame) (token.span.merge s₂.cursor.previousSpan)) := by
    unfold scopeBody Productions.body
    rw [bind_eq hbody, previousSpan_bind]
    exact push_run _ _ _
  unfold scope
  rw [bind_eq (openFrame_ok.2 hopen), bind_eq hscope, bind_eq hclose]
  rfl

theorem group_error {token : Token} (hopen : Opens s frame s₁)
    (hcontent : p.expr {.closeParen} s₁ = .error fault s₂) : group p token s = .error fault s₂ := by
  unfold group
  rw [bind_eq (openFrame_ok.2 hopen), bind_error hcontent]

theorem scope_error {token : Token} (hopen : Opens s frame s₁)
    (hbody : p.sequence #[] {.closeBrace} s₁ = .error fault s₂) :
    scope p token s = .error fault s₂ := by
  have hscope : scopeBody p token frame s₁ = .error fault s₂ := by
    unfold scopeBody Productions.body
    rw [bind_error hbody]
  unfold scope
  rw [bind_eq (openFrame_ok.2 hopen), bind_error hscope]

/-- What a bracket begins, in a frame of its own. -/
def bracketOperand (p : Productions) (b : Bracket) (token : Token) : Parse ExprId :=
  match b with
  | .brace => scope p token
  | .paren => group p token

theorem operand_bracket (b : Bracket) {token : Token} (hkind : token.kind = b.openKind) :
    operand p none token closing = bracketOperand p b token := by
  unfold operand
  rw [hkind]
  cases b <;> rfl

theorem bracketOperand_refused {b : Bracket} {token : Token}
    (hopen : openFrame token.span s = .error fault s₁) :
    bracketOperand p b token s = .error fault s₁ := by
  cases b with
  | brace => exact bind_error hopen
  | paren => exact bind_error hopen

/-! ## What is read in a bracket -/

/-- Nothing that a literal in brackets begins with closes what is read. -/
def Inner (closing : TokenSet) : Prop :=
  ∀ k ∈ [TokenKind.openBrace, .openParen, .decimal], closing.contains k = false

theorem inner_inside (b : Bracket) : Inner b.inside := by
  unfold Inner
  cases b <;> decide

theorem stops_inside (b : Bracket) {tokens : TokenList} {x : Token} (hkind : x.kind = b.closeKind) :
    Stops tokens (x :: rest) b.inside := by
  intro c _ hahead
  rw [Cursor.isAt_of_ahead hahead, hkind]
  cases b <;> decide

/-- What reading a literal in brackets leaves: as many frames as there are brackets. -/
structure Enclosed (s : State) (w : List Bracket) (rest : List Token) (id : ExprId) (s' : State) :
    Prop where
  tokens : s'.cursor.tokens = s.cursor.tokens
  ahead : s'.cursor.ahead = rest
  nested : s'.tree.Nested
  stack : s'.openFrames = s.openFrames
  frames : s'.tree.frames.size = s.tree.frames.size + w.length
  plain : Plain s'.tree id

/-- A new frame was opened behind a bracket. -/
structure Entered (s : State) (frame : FrameId) (s₁ : State) : Prop where
  opens : Opens s.next frame s₁
  nested : s₁.tree.Nested
  stack : s₁.openFrames = s.openFrames + 1
  frames : s₁.tree.frames.size = s.tree.frames.size + 1

theorem Entered.tokens (h : Entered s frame s₁) : s₁.cursor.tokens = s.cursor.tokens := by
  rw [h.opens.2.1]
  exact Cursor.forward_advance.tokens

theorem Entered.ahead (h : Entered s frame s₁) {x : Token} (hahead : s.cursor.ahead = x :: rest)
    (hkind : x.kind ≠ .eof) : s₁.cursor.ahead = rest := by
  rw [h.opens.2.1]
  exact Cursor.ahead_advance hahead hkind

/-- What was read in the frame is one bracket less than what is read once it is closed. -/
theorem Entered.encloses {b : Bracket} {x : Token} {outer : ExprId} (henter : Entered s frame s₁)
    (hread : Enclosed s₁ w (x :: rest) id s₂) (hkind : x.kind ≠ .eof)
    (hcursor : s'.cursor = s₂.next.cursor) (hnested : s'.tree.Nested)
    (hstack : s'.openFrames = s₂.openFrames - 1)
    (hframes : s'.tree.frames.size = s₂.tree.frames.size) (hplain : Plain s'.tree outer) :
    Enclosed s (b :: w) rest outer s' := by
  refine ⟨?_, ?_, hnested, ?_, ?_, hplain⟩
  · rw [hcursor, ← henter.tokens, ← hread.tokens]
    exact Cursor.forward_advance.tokens
  · rw [hcursor]
    exact Cursor.ahead_advance hread.ahead hkind
  · rw [hstack, hread.stack, henter.stack, Nat.add_sub_cancel]
  · rw [hframes, hread.frames, henter.frames, List.length_cons]
    omega

theorem group_encloses {token x : Token} (henter : Entered s frame s₁) (hpos : 0 < s.openFrames)
    (hcontent : p.expr {.closeParen} s₁ = .ok (some id) s₂)
    (hread : Enclosed s₁ w (x :: rest) id s₂) (hkind : x.kind = .closeParen) :
    ∃ outer s', group p token s.next = .ok outer s' ∧ Enclosed s (.paren :: w) rest outer s' := by
  have hat : s₂.cursor.isAt {.closeParen} = true := by
    rw [Cursor.isAt_of_ahead hread.ahead, hkind]
    decide
  have hopened : 1 < s₂.next.openFrames := by
    show 1 < s₂.openFrames
    rw [hread.stack, henter.stack]
    omega
  obtain ⟨s₃, hclose, hcursor, hnested, hstack, hframes, -⟩ :=
    exists_closes (s := s₂.next) hread.nested hopened token.span
  obtain ⟨span, hgroup⟩ := group_eq henter.opens hcontent hat hread.plain hclose
  exact ⟨_, _, hgroup, henter.encloses hread (by rw [hkind]; nofun) hcursor
    (Step.nested .add hnested) hstack hframes ⟨_, Tree.expr?_pushExpr_new _ _, nofun⟩⟩

theorem scope_encloses {token x : Token} (henter : Entered s frame s₁) (hpos : 0 < s.openFrames)
    (hbody : p.sequence #[] {.closeBrace} s₁ = .ok [id] s₂.next)
    (hread : Enclosed s₁ w (x :: rest) id s₂) (hkind : x.kind = .closeBrace) :
    ∃ outer s', scope p token s.next = .ok outer s' ∧ Enclosed s (.brace :: w) rest outer s' := by
  have hopened : 1 < s₂.openFrames := by
    rw [hread.stack, henter.stack]
    omega
  obtain ⟨s₃, hclose, hcursor, hnested, hstack, hframes, hexprs⟩ := exists_closes
    (s := s₂.next.add (.scope [id] frame) (token.span.merge s₂.next.cursor.previousSpan))
    (Step.nested .add hread.nested) hopened token.span
  have hplain : Plain s₃.tree s₂.next.newExpr :=
    ⟨_, (Tree.expr?_congr hexprs _).trans (Tree.expr?_pushExpr_new _ _), nofun⟩
  exact ⟨_, _, scope_eq henter.opens hbody hclose,
    henter.encloses hread (by rw [hkind]; nofun) hcursor hnested hstack hframes hplain⟩

/-- A literal in brackets does not begin with what closes it, nor with the end of the tokens. -/
theorem not_isAt_first {offset : Nat} (hahead : s.cursor.ahead = bracketedTokens offset w ++ rest)
    (hinner : Inner closing) : s.cursor.isAt closing = false ∧ s.cursor.atEnd = false := by
  cases w with
  | nil =>
    exact ⟨(Cursor.isAt_of_ahead hahead).trans (hinner .decimal (by decide)),
      Cursor.atEnd_of_ahead hahead nofun⟩
  | cons b w =>
    refine ⟨(Cursor.isAt_of_ahead hahead).trans (hinner b.openKind ?_),
      Cursor.atEnd_of_ahead hahead ?_⟩
    · cases b <;> decide
    · cases b <;> nofun

/-! ## All brackets -/

theorem enclosed_literal {x : Token} (hahead : s.cursor.ahead = x :: rest) (hkind : x.kind ≠ .eof)
    (hnested : s.tree.Nested) (value size : Nat) (span : Span) :
    Enclosed s [] rest s.next.newExpr (s.next.add (.int value size) span) :=
  ⟨Cursor.forward_advance.tokens, Cursor.ahead_advance hahead hkind,
    Step.nested (s := s.next) .add hnested, rfl, rfl,
    ⟨_, Tree.expr?_pushExpr_new _ _, nofun⟩⟩

theorem operandOnly_bracket (b : Bracket) : operandOnly.contains b.openKind = true := by
  cases b <;> decide

/-- Behind the outermost bracket. -/
theorem extend_cons {n offset : Nat} {b : Bracket}
    (hahead : s.cursor.ahead = bracketedTokens offset (b :: w) ++ rest) (hinner : Inner closing) :
    (level (n + 2)).extend none closing s =
      (bracketOperand (level n) b (Lexicon.cut b.openKind offset [b.opening]) >>= fun id =>
        (level (n + 1)).extend (some id) closing) s.next := by
  have hclosing : closing.contains b.openKind = false := hinner _ (by cases b <;> decide)
  rw [extend_operand hahead hclosing (operandOnly_bracket b)]
  rw [operand_bracket b rfl]

/-- A literal in brackets is read if there is room for the frames of all brackets. -/
theorem extend_bracketed {n offset : Nat}
    (hahead : s.cursor.ahead = bracketedTokens offset w ++ rest) (hinner : Inner closing)
    (hstops : Stops s.cursor.tokens rest closing) (hnested : s.tree.Nested)
    (hroom : s.openFrames + w.length ≤ Tree.depthLimit + 1) :
    ∃ id s', (level (n + 3 * w.length + 2)).extend none closing s = .ok (some id) s' ∧
      Enclosed s w rest id s' := by
  induction w generalizing n offset s rest closing with
  | nil =>
    have hread := enclosed_literal hahead (show TokenKind.decimal ≠ .eof by decide) hnested 1
      (intSize 1) ⟨offset, offset + 1⟩
    have hdigits : digitsOf (Lexicon.cut .decimal offset ['1']) = (10, ['1']) := by
      simp [digitsOf, Lexicon.cut]
    have hliteral : operand (level n) none (Lexicon.cut .decimal offset ['1']) closing s.next =
        .ok s.next.newExpr (s.next.add (.int 1 (intSize 1)) ⟨offset, offset + 1⟩) := by
      have hvalue : Number.digitsValue? (digitsOf (Lexicon.cut .decimal offset ['1'])).1
          (digitsOf (Lexicon.cut .decimal offset ['1'])).2 = some 1 := by
        rw [hdigits]
        decide
      exact integer_eq hvalue (by decide)
    refine ⟨_, _, ?_, hread⟩
    rw [List.length_nil, Nat.mul_zero, Nat.add_zero, extend_operand hahead
      (hinner .decimal (by decide)) (show operandOnly.contains .decimal = true by decide),
      bind_eq hliteral]
    exact extendTurn_closing (hstops _ hread.tokens hread.ahead)
  | cons b w ih =>
    rw [List.length_cons] at hroom
    have hpos : 0 < s.openFrames := hnested.size_pos
    obtain ⟨frame, s₁, hopen, hnested₁, hstack₁, hframes₁⟩ :=
      exists_opens (s := s.next) hnested (by show s.openFrames ≤ _; omega)
    have henter : Entered s frame s₁ := ⟨hopen, hnested₁, hstack₁, hframes₁⟩
    have hahead₁ := henter.ahead (hahead.trans (bracketedTokens_cons offset b w rest))
      (show b.openKind ≠ .eof by cases b <;> decide)
    have hread (n : Nat) := ih (n := n) hahead₁ (inner_inside b) (stops_inside b rfl) hnested₁
      (by rw [henter.stack]; omega)
    have hwhole : ∃ outer s', bracketOperand (level (n + 3 * w.length + 3)) b
        (Lexicon.cut b.openKind offset [b.opening]) s.next = .ok outer s' ∧
        Enclosed s (b :: w) rest outer s' := by
      cases b with
      | paren =>
        obtain ⟨id, s₂, hcontent, hread⟩ := hread (n + 1)
        rw [show n + 1 + 3 * w.length + 2 = n + 3 * w.length + 3 by omega] at hcontent
        exact group_encloses henter hpos hcontent hread rfl
      | brace =>
        obtain ⟨id, s₂, hitem, hread⟩ := hread n
        have hfirst := not_isAt_first hahead₁ (inner_inside .brace)
        have hbody := sequence_single hfirst.1 hfirst.2 hitem
          ((Cursor.isAt_of_ahead hread.ahead).trans
            (show separators.contains .closeBrace = false by decide))
          ((Cursor.isAt_of_ahead hread.ahead).trans
            (show TokenSet.contains {.closeBrace} .closeBrace = true by decide))
        exact scope_encloses henter hpos hbody hread rfl
    obtain ⟨outer, s', hoperand, henclosed⟩ := hwhole
    refine ⟨outer, s', ?_, henclosed⟩
    rw [show n + 3 * (b :: w).length + 2 = n + 3 * w.length + 3 + 2 by
      rw [List.length_cons]; omega, extend_cons hahead hinner, bind_eq hoperand]
    exact extendTurn_closing (hstops _ henclosed.tokens henclosed.ahead)

/-- With more brackets than there is room for frames, the first one too many is refused. -/
theorem extend_too_deep {n offset : Nat}
    (hahead : s.cursor.ahead = bracketedTokens offset w ++ rest) (hinner : Inner closing)
    (hnested : s.tree.Nested) (hopen : s.openFrames ≤ Tree.depthLimit + 1)
    (hdeep : Tree.depthLimit + 1 < s.openFrames + w.length) :
    ∃ span s', (level (n + 3 * w.length + 2)).extend none closing s =
        .error ⟨.stack (.tooDeep Tree.depthLimit), some span⟩ s' ∧
      span.start + s.openFrames = offset + (Tree.depthLimit + 1) := by
  induction w generalizing n offset s rest closing with
  | nil =>
    rw [List.length_nil] at hdeep
    omega
  | cons b w ih =>
    rw [List.length_cons] at hdeep
    have hturns : n + 3 * (b :: w).length + 2 = n + 3 * w.length + 3 + 2 := by
      rw [List.length_cons]
      omega
    suffices ∃ span s', bracketOperand (level (n + 3 * w.length + 3)) b
        (Lexicon.cut b.openKind offset [b.opening]) s.next =
          .error ⟨.stack (.tooDeep Tree.depthLimit), some span⟩ s' ∧
        span.start + s.openFrames = offset + (Tree.depthLimit + 1) by
      obtain ⟨span, s', hoperand, hspan⟩ := this
      refine ⟨span, s', ?_, hspan⟩
      rw [hturns, extend_cons hahead hinner, bind_error hoperand]
    rcases Nat.lt_or_eq_of_le hopen with hroom | hfull
    · obtain ⟨frame, s₁, hopen, hnested₁, hstack₁, hframes₁⟩ :=
        exists_opens (s := s.next) hnested (Nat.le_of_lt_succ hroom)
      have henter : Entered s frame s₁ := ⟨hopen, hnested₁, hstack₁, hframes₁⟩
      have hahead₁ := henter.ahead (hahead.trans (bracketedTokens_cons offset b w rest))
        (by cases b <;> nofun)
      have hfault (n : Nat) := ih (n := n) hahead₁ (inner_inside b) hnested₁
        (by rw [henter.stack]; omega) (by rw [henter.stack]; omega)
      cases b with
      | paren =>
        obtain ⟨span, s', hcontent, hspan⟩ := hfault (n + 1)
        rw [henter.stack] at hspan
        rw [show n + 1 + 3 * w.length + 2 = n + 3 * w.length + 3 by omega] at hcontent
        exact ⟨span, s', group_error henter.opens hcontent, by omega⟩
      | brace =>
        obtain ⟨span, s', hitem, hspan⟩ := hfault n
        rw [henter.stack] at hspan
        have hfirst := not_isAt_first hahead₁ (inner_inside .brace)
        have hbody : (level (n + 3 * w.length + 3)).sequence #[] {.closeBrace} s₁ = _ :=
          (sequence_item hfirst.1 hfirst.2).trans (bind_error hitem)
        exact ⟨span, s', scope_error henter.opens hbody, by omega⟩
    · refine ⟨_, _, bracketOperand_refused (openFrame_refused (s := s.next) hnested hfull _), ?_⟩
      show offset + s.openFrames = _
      omega

/-! ## Whole sources -/

/-- The tokens of a literal in brackets, with the end of the source behind them. -/
theorem parse_bracketed {tokens : TokenList}
    (hbody : tokens.body = (bracketedTokens 0 w).toArray) (hlast : tokens.last.kind = .eof) :
    (w.length ≤ Tree.depthLimit → ∃ t, parse tokens = .ok t ∧ t.frames.size = w.length + 1) ∧
    (Tree.depthLimit < w.length → ∃ span, parse tokens =
        .error ⟨.stack (.tooDeep Tree.depthLimit), some span⟩ ∧ span.start = Tree.depthLimit) := by
  have hahead : (State.initial tokens).cursor.ahead = bracketedTokens 0 w ++ [] := by
    show tokens.body.toList.drop 0 = _
    rw [hbody, List.drop_zero, List.append_nil]
  have hnested : (State.initial tokens).tree.Nested := nested_withBuiltins.1
  have hframes : (State.initial tokens).openFrames = 1 ∧
      (State.initial tokens).tree.frames.size = 1 := ⟨rfl, rfl⟩
  have hinner : Inner (separators ∪ {.eof}) := by
    unfold Inner
    decide
  have hstops : Stops tokens [] (separators ∪ {.eof}) := by
    rintro c rfl hahead
    unfold Cursor.isAt
    rw [Cursor.current_of_ahead_nil hahead, hlast]
    decide
  have hfirst := not_isAt_first hahead hinner
  have hfuel : ∃ n, fuel tokens.size = n + 3 * w.length + 2 + 1 := by
    have hsize : tokens.size = 2 * w.length + 1 + 1 := by
      unfold TokenList.size
      rw [hbody, List.size_toArray, length_bracketedTokens]
    refine ⟨3 * w.length + 6, ?_⟩
    unfold fuel
    omega
  obtain ⟨n, hfuel⟩ := hfuel
  constructor
  · intro hroom
    obtain ⟨id, s', hitem, hread⟩ := extend_bracketed (n := n) hahead hinner hstops hnested
      (by rw [hframes.1]; omega)
    have hcurrent : s'.cursor.current.kind = .eof := by
      rw [Cursor.current_of_ahead_nil hread.ahead, hread.tokens]
      exact hlast
    have hat (wanted : TokenSet) : s'.cursor.isAt wanted = wanted.contains .eof := by
      unfold Cursor.isAt
      rw [hcurrent]
    have hsequence := sequence_single hfirst.1 hfirst.2 hitem ((hat _).trans (by decide))
      ((hat _).trans (by decide))
    rw [← hfuel] at hsequence
    obtain ⟨span, hparse⟩ := parse_of_sequence hsequence
    refine ⟨_, hparse, ?_⟩
    show s'.tree.frames.size = _
    rw [hread.frames, hframes.2, Nat.add_comm]
  · intro hdeep
    obtain ⟨span, s', hitem, hspan⟩ := extend_too_deep (n := n) hahead hinner hnested
      (by rw [hframes.1]; omega) (by rw [hframes.1]; omega)
    rw [hframes.1] at hspan
    have hsequence := (sequence_item hfirst.1 hfirst.2).trans (bind_error hitem)
    rw [← hfuel] at hsequence
    exact ⟨span, parse_of_sequence_error hsequence, by omega⟩

/-- Brackets with more bytes than can be counted are refused before they are parsed. -/
theorem parseSource_bracketed_long (hlong : Span.offsetLimit ≤ byteLength (bracketed w)) :
    ∃ e, parseSource (String.ofList (bracketed w)) = .error ⟨.offsetTooLarge e, none⟩ := by
  obtain ⟨e, hrefused⟩ := Lexicon.tokenize_of_long (Lexicon.scans_bracketed 0 w (.inl rfl)) hlong
  unfold parseSource
  rw [String.toList_ofList, hrefused]
  exact ⟨e, rfl⟩

/-- A literal in brackets is accepted if and only if there are at most 256 of them, with as many
frames besides the main one. More brackets are refused as too deep, at the first one too many, which
is the one at byte 256; or else the source has more bytes than can be counted. -/
theorem depth_limit_exact (w : List Bracket) :
    let source := String.ofList (bracketed w)
    ((∃ t, parseSource source = .ok t ∧ t.frames.size = w.length + 1) ↔ w.length ≤ 256) ∧
    (256 < w.length → ∃ fault, parseSource source = .error fault ∧
      (fault.report source.toList).kind = .capacity ∧
      (byteLength source.toList < Span.offsetLimit →
        (fault.report source.toList).category = .frame ∧
        (fault.report source.toList).description = "frame depth limit exceeded (limit: 256)" ∧
        ∃ span, (fault.report source.toList).span = some span ∧ span.start = 256) ∧
      (Span.offsetLimit ≤ byteLength source.toList → ∃ e, fault = ⟨.offsetTooLarge e, none⟩)) := by
  have hscans := Lexicon.scans_bracketed 0 w (.inl rfl)
  have hsource : (String.ofList (bracketed w)).toList = bracketed w := String.toList_ofList
  dsimp only
  rw [hsource]
  rcases Nat.lt_or_ge (byteLength (bracketed w)) Span.offsetLimit with hlimit | hlong
  · unfold parseSource
    rw [hsource, Lexicon.tokenize_of_scans hscans hlimit]
    obtain ⟨hroom, hdeep⟩ := @parse_bracketed w ⟨(bracketedTokens 0 w).toArray,
      ⟨.eof, "", ⟨byteLength (bracketed w), byteLength (bracketed w)⟩⟩⟩ rfl rfl
    refine ⟨⟨?_, hroom⟩, fun hmany => ?_⟩
    · rintro ⟨t, hparse, -⟩
      by_contra hmany
      obtain ⟨span, hfault, -⟩ := hdeep (Nat.lt_of_not_le hmany)
      cases hparse.symm.trans hfault
    · obtain ⟨span, hfault, hspan⟩ := hdeep hmany
      have hwording : (Cause.stack (.tooDeep Tree.depthLimit)).description =
          "frame depth limit exceeded (limit: 256)" := by decide +kernel
      exact ⟨_, hfault, rfl, fun _ => ⟨rfl, hwording, span, rfl, hspan⟩,
        fun hlong => absurd hlimit (Nat.not_lt.2 hlong)⟩
  · obtain ⟨e, hrefused⟩ := parseSource_bracketed_long hlong
    rw [hrefused]
    have hlength := byteLength_bracketed w
    have hlimit : Span.offsetLimit = 4294967296 := rfl
    refine ⟨⟨?_, fun hfew => by omega⟩, fun _ => ⟨_, rfl, rfl, fun hshort => ?_,
      fun _ => ⟨e, rfl⟩⟩⟩
    · rintro ⟨t, hparse, -⟩
      cases hparse
    · exact absurd hshort (Nat.not_lt.2 hlong)

/-- Two brackets of either sort leave two frames, and the last of 257 is refused where it stands. -/
theorem depth_limit_exact_mixed :
    (∃ t, parseSource (String.ofList ['(', '\x7b', '1', '\x7d', ')']) = .ok t ∧ t.frames.size = 3) ∧
    ∃ fault span,
      parseSource (String.ofList (bracketed (List.replicate 257 .paren))) = .error fault ∧
      fault.span = some span ∧ span.start = 256 := by
  have hmany : 256 < (List.replicate 257 Bracket.paren).length := by
    rw [List.length_replicate]
    decide
  have hlimit : byteLength (String.ofList (bracketed (List.replicate 257 .paren))).toList <
      Span.offsetLimit := by
    rw [String.toList_ofList, byteLength_bracketed, List.length_replicate]
    decide
  refine ⟨(depth_limit_exact [.paren, .brace]).1.2 (by decide), ?_⟩
  obtain ⟨fault, hfault, -, hreport, -⟩ := (depth_limit_exact (List.replicate 257 .paren)).2 hmany
  obtain ⟨-, -, span, hspan, hstart⟩ := hreport hlimit
  obtain ⟨cause, place⟩ := fault
  cases place with
  | none => cases hspan
  | some place => exact ⟨_, span, hfault, hspan, hstart⟩

/-- With so many brackets that their bytes cannot be counted it is not their depth they are refused
for, nor anywhere. -/
theorem depth_limit_without_room :
    256 < (List.replicate (2 ^ 31) Bracket.paren).length ∧
    ¬∃ fault,
      parseSource (String.ofList (bracketed (List.replicate (2 ^ 31) .paren))) = .error fault ∧
      (fault.report (bracketed (List.replicate (2 ^ 31) .paren))).kind = .capacity ∧
      (fault.report (bracketed (List.replicate (2 ^ 31) .paren))).category = .frame ∧
      (fault.report (bracketed (List.replicate (2 ^ 31) .paren))).description =
        "frame depth limit exceeded (limit: 256)" ∧
      ∃ span, (fault.report (bracketed (List.replicate (2 ^ 31) .paren))).span = some span ∧
        span.start = 256 := by
  have hlength : (List.replicate (2 ^ 31) Bracket.paren).length = 2 ^ 31 := List.length_replicate
  generalize List.replicate (2 ^ 31) Bracket.paren = w at hlength
  have hlong : Span.offsetLimit ≤ byteLength (bracketed w) := by
    rw [byteLength_bracketed, hlength]
    decide
  obtain ⟨e, hrefused⟩ := parseSource_bracketed_long hlong
  refine ⟨by rw [hlength]; decide, ?_⟩
  rintro ⟨fault, hfault, -, hcategory, -⟩
  rw [hrefused] at hfault
  obtain rfl := Except.error.inj hfault
  cases hcategory

end Grammar

end OnePass

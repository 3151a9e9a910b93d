import OnePass.Proofs.Faults
import OnePass.Proofs.Lookahead
import OnePass.Tree.Dump

/-!
# Layout

Blanks, comments and offsets decide nothing. Sources whose tokens are spelt alike, that is, have
the same kinds and texts in the same order, are read alike: without its spans
(`Tree.withoutSpans`) the tree of the one is the tree of the other, or both are refused for the
same cause (`layout_irrelevant`). Both readings go side by side, as in Proofs/Twins, where now any
span corresponds to any other one (`Places.any`). A dump shows no spans, so that it is the same
text.
-/

namespace OnePass

variable {t t' : Tree} {tokens other : TokenList}

/-! ## What is left without spans -/

/-- The expression at no place. -/
def Expr.withoutSpan (e : Expr) : Expr := { e with span := ⟨0, 0⟩ }

/-- The tree with all its expressions at no place. -/
def Tree.withoutSpans (t : Tree) : Tree := { t with exprs := t.exprs.map Expr.withoutSpan }

/-- What is left of a token without its place. -/
def Token.spelling (token : Token) : TokenKind × String := (token.kind, token.text)

/-- The kinds and texts of all tokens, in order. -/
def TokenList.spelling (tokens : TokenList) : List (TokenKind × String) :=
  tokens.toList.map Token.spelling

/-- Two readings that differ in spans at most. -/
def SameButSpans : Except Fault Tree → Except Fault Tree → Prop
  | .ok t, .ok t' => t'.withoutSpans = t.withoutSpans
  | .error fault, .error fault' => fault'.cause = fault.cause
  | _, _ => False

/-! ## Dumps show no spans -/

namespace Tree

theorem withoutSpans_expr? (t : Tree) (id : ExprId) :
    t.withoutSpans.expr? id = (t.expr? id).map Expr.withoutSpan :=
  Array.getElem?_map

theorem entityLinesWithin_exprs (t : Tree) (exprs : Array Expr) (n : Nat) (id : EntityId)
    (indent : Nat) :
    entityLinesWithin { t with exprs := exprs } n id indent =
      t.entityLinesWithin n id indent := by
  induction n generalizing id indent with
  | zero => rfl
  | succ n ih =>
    unfold entityLinesWithin
    simp only [ih]
    rfl

theorem entityLines_exprs (t : Tree) (exprs : Array Expr) (id : Option EntityId) (indent : Nat) :
    entityLines { t with exprs := exprs } id indent = t.entityLines id indent := by
  cases id with
  | none => rfl
  | some id => exact t.entityLinesWithin_exprs exprs _ id indent

theorem exprLinesWithin_withoutSpans (t : Tree) (n : Nat) (id : Option ExprId) (indent : Nat) :
    t.withoutSpans.exprLinesWithin n id indent = t.exprLinesWithin n id indent := by
  induction n generalizing id indent with
  | zero => rfl
  | succ n ih =>
    cases id with
    | none => rfl
    | some id =>
      have hentity (id : Option EntityId) (indent : Nat) :
          t.withoutSpans.entityLines id indent = t.entityLines id indent :=
        t.entityLines_exprs _ id indent
      have htext (node : Node) : t.withoutSpans.nodeText node = t.nodeText node := rfl
      unfold exprLinesWithin
      rw [withoutSpans_expr?]
      cases t.expr? id with
      | none => rfl
      | some e => simp only [Option.map_some, Expr.withoutSpan, ih, hentity, htext]

theorem render_withoutSpans (t : Tree) : t.withoutSpans.render = t.render := by
  have hlines (id : Option ExprId) : t.withoutSpans.exprLines id 0 = t.exprLines id 0 := by
    unfold exprLines
    rw [exprLinesWithin_withoutSpans]
    simp only [withoutSpans, Array.size_map]
  unfold render lines
  simp only [hlines]
  rfl

end Tree

/-! ## Tokens that are spelt alike -/

/-- Any span corresponds to any other one. -/
def Places.any : Places where
  alike _ _ := True
  total a := ⟨a, trivial⟩
  merge _ _ := trivial

namespace Grammar

/-- Lists that are spelt alike have as many tokens, and every token of the one is spelt like the
one at its place in the other. -/
theorem TokenList.spelling_get (h : other.spelling = tokens.spelling) :
    other.size = tokens.size ∧ ∀ i, (other.get i).spelling = (tokens.get i).spelling := by
  have hparts : ∀ {list : TokenList},
      list.spelling = list.body.toList.map Token.spelling ++ [list.last.spelling] :=
    List.map_append
  rw [hparts, hparts] at h
  obtain ⟨hbody, hlast⟩ := List.append_inj' h rfl
  have hat (i : Nat) := congrArg (·[i]?) hbody
  have hsize : other.body.size = tokens.body.size := by simpa using congrArg List.length hbody
  refine ⟨congrArg (· + 1) hsize, fun i => ?_⟩
  have hlast := List.singleton_inj.1 hlast
  have hat : other.body[i]?.map Token.spelling = tokens.body[i]?.map Token.spelling := by
    simpa using hat i
  calc (other.get i).spelling
      = (other.body[i]?.map Token.spelling).getD other.last.spelling := (Option.getD_map ..).symm
    _ = (tokens.body[i]?.map Token.spelling).getD tokens.last.spelling := by rw [hat, hlast]
    _ = (tokens.get i).spelling := Option.getD_map ..

theorem alike_of_spelling (h : other.spelling = tokens.spelling) (k : Nat) :
    tokens.Alike .any k other := fun i _ =>
  have hspelling := (TokenList.spelling_get h).2 i
  ⟨congrArg Prod.fst hspelling, congrArg Prod.snd hspelling, trivial⟩

/-! ## Readings side by side -/

theorem withoutSpans_eq (h : t.Alike .any t') : t'.withoutSpans = t.withoutSpans := by
  have hexprs : t'.exprs.map Expr.withoutSpan = t.exprs.map Expr.withoutSpan := by
    refine Array.ext_getElem? fun i => ?_
    have hexpr : Option.Rel (Expr.Alike .any) t.exprs[i]? t'.exprs[i]? := h.expr ⟨i⟩
    rw [Array.getElem?_map, Array.getElem?_map]
    generalize t.exprs[i]? = found at hexpr ⊢
    generalize t'.exprs[i]? = found' at hexpr ⊢
    cases hexpr with
    | none => rfl
    | some halike =>
      refine congrArg some ?_
      unfold Expr.withoutSpan
      rw [halike.node]
  unfold Tree.withoutSpans
  rw [hexprs, h.rest]

/-- Tokens that are spelt alike are read alike. -/
theorem parse_spelling (hclosed : tokens.last.kind = .eof) (hother : other.last.kind = .eof)
    (h : other.spelling = tokens.spelling) : SameButSpans (parse tokens) (parse other) := by
  have hsize := (TokenList.spelling_get h).1
  have htwin := program_twin (alike_of_spelling h _) hclosed hother (Nat.le_refl _)
  have hends := program_ends hclosed
  have hrun : program (.initial other) =
      programWith (level (fuel tokens.size)) (.initial other) := by
    rw [← hsize]
    exact program_run _
  rw [← hrun] at htwin
  unfold parse
  cases hfirst : program (.initial tokens) with
  | ok u s =>
    rw [hfirst] at htwin
    obtain ⟨s', hsecond, halike⟩ := htwin
    rw [hsecond]
    exact withoutSpans_eq halike.tree
  | error fault s =>
    rw [hfirst] at htwin hends
    obtain ⟨fault', s', hsecond, hfault, -⟩ := htwin hends
    rw [hsecond]
    exact hfault.cause

/-- Sources whose tokens are spelt alike, so that they differ in blanks, comments and offsets only,
are both read to trees that differ in spans at most and are shown as the same text, or both are
refused with the same words. -/
theorem layout_irrelevant {source source' : String}
    (h : Lexicon.tokenize source.toList = .ok tokens)
    (h' : Lexicon.tokenize source'.toList = .ok other) (hsame : other.spelling = tokens.spelling) :
    (∃ t t', parseSource source = .ok t ∧ parseSource source' = .ok t' ∧
      t'.withoutSpans = t.withoutSpans ∧ t'.render = t.render ∧ t'.renderFrames = t.renderFrames) ∨
    ∃ fault fault', parseSource source = .error fault ∧ parseSource source' = .error fault' ∧
      (fault'.report source'.toList).kind = (fault.report source.toList).kind ∧
      (fault'.report source'.toList).category = (fault.report source.toList).category ∧
      (fault'.report source'.toList).description = (fault.report source.toList).description := by
  have hparse := parse_spelling (Lexicon.tokenize_eof h).2 (Lexicon.tokenize_eof h').2 hsame
  have hrun : parseSource source = parse tokens := by
    unfold parseSource
    rw [h]
  have hrun' : parseSource source' = parse other := by
    unfold parseSource
    rw [h']
  rw [hrun, hrun']
  cases hfirst : parse tokens with
  | ok t =>
    cases hsecond : parse other with
    | error => rw [hfirst, hsecond] at hparse; exact hparse.elim
    | ok t' =>
      rw [hfirst, hsecond] at hparse
      have hsame : t'.withoutSpans = t.withoutSpans := hparse
      have hrender : t'.render = t.render := by
        rw [← t'.render_withoutSpans, hsame, t.render_withoutSpans]
      have hframes : t'.withoutSpans.renderFrames = t.withoutSpans.renderFrames := by rw [hsame]
      exact .inl ⟨t, t', rfl, rfl, hsame, hrender, hframes⟩
  | error fault =>
    cases hsecond : parse other with
    | ok => rw [hfirst, hsecond] at hparse; exact hparse.elim
    | error fault' =>
      rw [hfirst, hsecond] at hparse
      have hcause : fault'.cause = fault.cause := hparse
      refine .inr ⟨fault, fault', rfl, rfl, ?_⟩
      simp only [Fault.report_kind, Fault.report_category, Fault.report_description, hcause,
        and_self]

theorem exists_spelling {source source' : String}
    (h : (match Lexicon.tokenize source.toList, Lexicon.tokenize source'.toList with
      | .ok tokens, .ok other => decide (other.spelling = tokens.spelling)
      | _, _ => false) = true) :
    ∃ tokens other, Lexicon.tokenize source.toList = .ok tokens ∧
      Lexicon.tokenize source'.toList = .ok other ∧ other.spelling = tokens.spelling := by
  cases hfirst : Lexicon.tokenize source.toList with
  | error => rw [hfirst] at h; cases h
  | ok tokens =>
    cases hsecond : Lexicon.tokenize source'.toList with
    | error => rw [hfirst, hsecond] at h; cases h
    | ok other =>
      rw [hfirst, hsecond] at h
      exact ⟨tokens, other, rfl, rfl, of_decide_eq_true h⟩

/-- Blanks and a comment move the expressions, and change nothing else. -/
theorem layout_irrelevant_comment :
    ∃ t t', parseSource "x:=1" = .ok t ∧ parseSource "x := 1 // one" = .ok t' ∧
      t'.withoutSpans = t.withoutSpans ∧ t' ≠ t := by
  obtain ⟨tokens, other, h, h', hsame⟩ :=
    @exists_spelling "x:=1" "x := 1 // one" (by decide +kernel)
  have hdiffer : (parseSource "x := 1 // one").toOption ≠ (parseSource "x:=1").toOption := by
    decide +kernel
  rcases layout_irrelevant h h' hsame with
    ⟨t, t', hparse, hparse', hspans, -⟩ | ⟨fault, fault', hparse, hparse', -⟩
  · rw [hparse, hparse'] at hdiffer
    exact ⟨t, t', hparse, hparse', hspans, fun heq => hdiffer (congrArg some heq)⟩
  · rw [hparse, hparse'] at hdiffer
    exact absurd rfl hdiffer

end Grammar

end OnePass

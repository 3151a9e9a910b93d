import OnePass.Proofs.Offsets
import OnePass.Proofs.Building
import OnePass.Proofs.Progress

/-!
# Places of tokens

An expression spans the tokens that it was read from. A production computes the span of what it
makes in its own way, of tokens, of other spans, or up to the token passed last; in each case
the result is the span from one token of the source to another (`TokenList.between`).

The invariant of a reading is about places of tokens, not about offsets. An expression lies in a
range of places if its span is one between tokens of that range (`Tree.Lies`). A production is
given tokens and expressions that lie before the cursor, in order (`Phrase.Given`), and answers
what lies there too (`Phrase.Answered`). What it makes is one expression or more with their parts
inside them (`Nests`): mostly one that spans all tokens from a given token (`Around.close`) or from
a left part (`Around.follow`) up to where the cursor stands.
-/

namespace OnePass

/-! ## Parts -/

namespace Node

/-- The expressions that the span of a node covers: all that it is made of, but not the argument
behind another one. -/
def covered : Node → List ExprId
  | .argument value _ => [value]
  | node => node.children

/-- The expressions of a node that follow one another in the source. -/
def row : Node → List ExprId
  | .scope body _ | .record _ body _ => body
  | .binary _ _ left right => [left, right]
  | _ => []

theorem row_subset (node : Node) : ∀ c ∈ node.row, c ∈ node.covered := by
  cases node <;> first | exact fun c hc => hc | exact nofun

end Node

/-! ## Places of tokens -/

namespace TokenList

variable {tokens : TokenList} {i j i' j' : Nat}

/-- From the begin of the token at one place to the end of that at another. -/
def between (tokens : TokenList) (i j : Nat) : Span :=
  ⟨(tokens.get i).span.start, (tokens.get j).span.stop⟩

theorem Ordered.merge_between (h : tokens.Ordered) (hi : i ≤ i') (hj : j ≤ j') :
    (tokens.between i j).merge (tokens.between i' j') = tokens.between i j' := by
  unfold Span.merge between
  rw [Nat.min_eq_left (h.start_le hi), Nat.max_eq_right (h.stop_le hj)]

end TokenList

namespace Tree

variable {t t' : Tree} {tokens : TokenList} {lo hi lo' hi' i j : Nat} {id : ExprId}
  {xs : List ExprId}

/-- The expression spans tokens at places from `lo` up to, and not including, `hi`. -/
def Lies (t : Tree) (tokens : TokenList) (lo hi : Nat) (id : ExprId) : Prop :=
  ∃ e i j, t.expr? id = some e ∧ e.span = tokens.between i j ∧ lo ≤ i ∧ i ≤ j ∧ j < hi

/-- The one expression ends before the other begins. -/
def Precedes (t : Tree) (a b : ExprId) : Prop :=
  ∃ e f, t.expr? a = some e ∧ t.expr? b = some f ∧ e.span.stop ≤ f.span.start

/-- The expressions span tokens at places from `lo` up to `hi`, one after the other. -/
structure Row (t : Tree) (tokens : TokenList) (lo hi : Nat) (xs : List ExprId) : Prop where
  lies : ∀ x ∈ xs, t.Lies tokens lo hi x
  precedes : xs.Pairwise t.Precedes

/-- The expression spans tokens, and its parts lie inside it. -/
structure Spanned (t : Tree) (tokens : TokenList) (e : Expr) : Prop where
  span : ∃ i j, i ≤ j ∧ e.span = tokens.between i j
  covers : ∀ c ∈ e.node.covered, ∃ x, t.expr? c = some x ∧
    e.span.start ≤ x.span.start ∧ x.span.stop ≤ e.span.stop
  row : e.node.row.Pairwise t.Precedes

theorem Lies.mono (h : t.Lies tokens lo hi id) (hgrows : t.Extends t') (hlo : lo' ≤ lo)
    (hhi : hi ≤ hi') : t'.Lies tokens lo' hi' id := by
  obtain ⟨e, i, j, he, hspan, hi, hij, hj⟩ := h
  exact ⟨e, i, j, hgrows.expr he, hspan, Nat.le_trans hlo hi, hij, Nat.lt_of_lt_of_le hj hhi⟩

theorem Precedes.mono {a b : ExprId} (h : t.Precedes a b) (hgrows : t.Extends t') :
    t'.Precedes a b := by
  obtain ⟨e, f, he, hf, hle⟩ := h
  exact ⟨e, f, hgrows.expr he, hgrows.expr hf, hle⟩

theorem Lies.precedes (ho : tokens.Ordered) {a b : ExprId} (ha : t.Lies tokens lo hi a)
    (hb : t.Lies tokens lo' hi' b) (hle : hi ≤ lo') : t.Precedes a b := by
  obtain ⟨e, i, j, he, hspan, _, _, hj⟩ := ha
  obtain ⟨f, i', j', hf, hspan', hi', _, _⟩ := hb
  refine ⟨e, f, he, hf, ?_⟩
  rw [hspan, hspan']
  exact ho.before (Nat.lt_of_lt_of_le hj (Nat.le_trans hle hi'))

namespace Row

theorem nil : t.Row tokens lo hi [] := ⟨nofun, .nil⟩

theorem mono (h : t.Row tokens lo hi xs) (hgrows : t.Extends t') (hlo : lo' ≤ lo)
    (hhi : hi ≤ hi') : t'.Row tokens lo' hi' xs :=
  ⟨fun x hx => (h.lies x hx).mono hgrows hlo hhi, h.precedes.imp fun h => h.mono hgrows⟩

/-- One more expression behind the others. -/
theorem snoc (ho : tokens.Ordered) (h : t.Row tokens lo hi xs) (hid : t.Lies tokens hi hi' id)
    (hlo : lo ≤ hi) (hhi : hi ≤ hi') : t.Row tokens lo hi' (xs ++ [id]) := by
  refine ⟨?_, List.pairwise_append.2 ⟨h.precedes, List.pairwise_singleton _ _, ?_⟩⟩
  · intro x hx
    rcases List.mem_append.1 hx with hx | hx
    · exact (h.lies x hx).mono .refl (Nat.le_refl _) hhi
    · rw [List.mem_singleton.1 hx]
      exact hid.mono .refl hlo (Nat.le_refl _)
  · intro x hx y hy
    rw [List.mem_singleton.1 hy]
    exact (h.lies x hx).precedes ho hid (Nat.le_refl _)

end Row

theorem Spanned.mono {e : Expr} (h : t.Spanned tokens e) (hgrows : t.Extends t') :
    t'.Spanned tokens e := by
  refine ⟨h.span, ?_, h.row.imp fun h => h.mono hgrows⟩
  intro c hc
  obtain ⟨x, hx, hinside⟩ := h.covers c hc
  exact ⟨x, hgrows.expr hx, hinside⟩

/-- An expression whose parts lie among the tokens that it spans. -/
theorem Lies.spanned (ho : tokens.Ordered) {node : Node} (hij : i ≤ j)
    (hparts : ∀ c ∈ node.covered, t.Lies tokens i (j + 1) c) (hrow : node.row.Pairwise t.Precedes) :
    t.Spanned tokens ⟨node, tokens.between i j⟩ := by
  refine ⟨⟨i, j, hij, rfl⟩, ?_, hrow⟩
  intro c hc
  obtain ⟨x, i', j', hx, hspan, hi, _, hj⟩ := hparts c hc
  refine ⟨x, hx, ?_⟩
  rw [hspan]
  exact ⟨ho.start_le hi, ho.stop_le (Nat.le_of_lt_succ hj)⟩

end Tree

namespace Grammar

variable {s s₁ s₂ s' : State} {t t₁ t' : Tree} {frame : FrameId} {log : List Binding} {φ : Phrase}
  {tokens : TokenList} {lo hi i j k : Nat} {id : ExprId} {token : Token}
  {before behind : List ExprId}

/-! ## What productions are given -/

/-- The state is in the midst of the tokens, not before the place `lo`. -/
structure Stands (tokens : TokenList) (lo : Nat) (s : State) : Prop where
  tokens : s.cursor.tokens = tokens
  le : lo ≤ s.cursor.position

namespace Stands

theorem trail (h : Stands tokens lo s) (htrail : Trail s log s') : Stands tokens lo s' :=
  ⟨htrail.forward.tokens.trans h.tokens, Nat.le_trans h.le htrail.forward.position⟩

theorem step (h : Stands tokens lo s) (hstep : Step s log s') : Stands tokens lo s' :=
  h.trail (.single hstep)

theorem read (h : Stands tokens lo s) (hread : Reads φ s log s') : Stands tokens lo s' :=
  h.trail hread.trail

/-- From any place that has been passed. -/
theorem since (h : Stands tokens lo s) (hk : k ≤ s.cursor.position) : Stands tokens k s :=
  ⟨h.tokens, hk⟩

theorem current (h : Stands tokens lo s) :
    s.cursor.current.span = tokens.between s.cursor.position s.cursor.position := by
  unfold Cursor.current
  rw [h.tokens]
  rfl

theorem previous (h : Stands tokens lo s) :
    s.cursor.previousSpan = tokens.between (s.cursor.position - 1) (s.cursor.position - 1) := by
  unfold Cursor.previousSpan
  rw [h.tokens]
  rfl

end Stands

/-- The token stands at a place from `lo` up to `hi`, behind some expressions and before others. -/
def Around (tokens : TokenList) (t : Tree) (lo hi : Nat) (token : Token)
    (before behind : List ExprId) : Prop :=
  ∃ k, lo ≤ k ∧ k < hi ∧ token.span = tokens.between k k ∧
    (∀ x ∈ before, t.Lies tokens lo k x) ∧ ∀ x ∈ behind, t.Lies tokens (k + 1) hi x

theorem Around.trail (h : Around tokens s.tree lo s.cursor.position token before behind)
    (htrail : Trail s log s') :
    Around tokens s'.tree lo s'.cursor.position token before behind := by
  obtain ⟨k, hlo, hk, hspan, hbefore, hbehind⟩ := h
  have hle := htrail.forward.position
  refine ⟨k, hlo, Nat.lt_of_lt_of_le hk hle, hspan, ?_, ?_⟩
  · exact fun x hx => (hbefore x hx).mono htrail.extends (Nat.le_refl _) (Nat.le_refl _)
  · exact fun x hx => (hbehind x hx).mono htrail.extends (Nat.le_refl _) hle

/-- What lies before the cursor goes on doing so. -/
theorem Trail.lies (h : Trail s log s') (hid : s.tree.Lies tokens lo s.cursor.position id) :
    s'.tree.Lies tokens lo s'.cursor.position id :=
  hid.mono h.extends (Nat.le_refl _) h.forward.position

/-- The initial value of a definition stands behind the name. -/
theorem Around.value {op : DefOp} {type : Option EntityId} {symbol : Token} {closing : TokenSet}
    {init : Option ExprId} (h : Around tokens s.tree lo s.cursor.position token [] [])
    (htype : DeclaredType op s type s₁)
    (hinit : Reads (.initialValue op symbol closing init) s₁ log s₂)
    (hlies : ∀ k, k ≤ s.cursor.position →
      ∀ x, init = some x → s₂.tree.Lies tokens k s₂.cursor.position x) :
    Around tokens s₂.tree lo s₂.cursor.position token [] init.toList := by
  obtain ⟨k, hlo, hk, hspan, -, -⟩ := h
  have hle := (htype.trail.trans hinit.trail).forward.position
  refine ⟨k, hlo, Nat.lt_of_lt_of_le hk hle, hspan, nofun, ?_⟩
  exact fun x hx => hlies (k + 1) hk x (Option.mem_toList.1 hx)

/-- The token before which the cursor stands, behind what has been read. -/
theorem Stands.take (h : Stands tokens lo s) (hkind : s.cursor.current.kind ≠ .eof)
    (hbefore : ∀ x ∈ before, s.tree.Lies tokens lo s.cursor.position x) :
    Around tokens s.next.tree lo s.next.cursor.position s.cursor.current before [] := by
  have hnext : s.next.cursor.position = s.cursor.position + 1 := Cursor.position_advance hkind
  exact ⟨s.cursor.position, h.le, by omega, h.current, hbefore, nofun⟩

/-- What a production is given lies before the cursor, in order. -/
def Phrase.Given (tokens : TokenList) (lo : Nat) (s : State) : Phrase → Prop
  | step left .. | extend left .. =>
    ∀ x ∈ left.toList, s.tree.Lies tokens lo s.cursor.position x
  | sequence body .. => s.tree.Row tokens lo s.cursor.position body.toList
  | operand left token .. | binaryOperation left token .. =>
    Around tokens s.tree lo s.cursor.position token left.toList []
  | postfixOperation left token _ | call left token _ | structLiteral left token _
  | member left token _ => Around tokens s.tree lo s.cursor.position token [left] []
  | literal token _ | nameUse token _ | prefixOperation token .. | scopeBody token ..
  | scope token _ | branch token _ | loop token _ | returns token .. | group token _
  | definition token .. | nameOrDefinition token .. | record token _ =>
    Around tokens s.tree lo s.cursor.position token [] []
  | function token header _ | typedef token _ header _ =>
    Around tokens s.tree lo s.cursor.position token [] [header]
  | declaration token _ init .. =>
    Around tokens s.tree lo s.cursor.position token [] init.toList
  | _ => True

/-- What a production answers lies before the cursor, in order. -/
def Phrase.Answered (tokens : TokenList) (lo : Nat) (s : State) : Phrase → Prop
  | sequence _ _ answer => s.tree.Row tokens lo s.cursor.position answer
  | φ => ∀ x, φ.answer? = some x → s.tree.Lies tokens lo s.cursor.position x

/-- What a token begins is given the left part, or nothing but the token. -/
theorem Begins.given {closing : TokenSet} {left : Option ExprId}
    (h : Begins token closing id left φ)
    (hgiven : Around tokens s.tree lo s.cursor.position token left.toList []) :
    φ.Given tokens lo s := by
  obtain ⟨k, hlo, hk, hspan, hbefore, hbehind⟩ := hgiven
  have halone : Around tokens s.tree lo s.cursor.position token [] [] :=
    ⟨k, hlo, hk, hspan, nofun, nofun⟩
  cases h with
  | call | structLiteral | member => exact ⟨k, hlo, hk, hspan, hbefore, hbehind⟩
  | _ => exact halone

theorem Begins.answered {closing : TokenSet} {left : Option ExprId}
    (h : Begins token closing id left φ) :
    φ.Answered tokens lo s ↔ (Phrase.operand left token closing id).Answered tokens lo s := by
  cases h <;> exact Iff.rfl

/-! ## What productions make -/

/-- What is new in a tree that has grown has its parts inside it. -/
structure Nests (tokens : TokenList) (t t' : Tree) : Prop where
  grows : t.Extends t'
  spanned : ∀ {id e}, t'.expr? id = some e → t.expr? id = some e ∨ t'.Spanned tokens e

namespace Nests

theorem refl : Nests tokens t t := ⟨.refl, .inl⟩

theorem trans (h : Nests tokens t t₁) (h' : Nests tokens t₁ t') : Nests tokens t t' := by
  refine ⟨h.grows.trans h'.grows, ?_⟩
  intro id e he
  rcases h'.spanned he with he | hnew
  · exact (h.spanned he).imp (fun hold => hold) fun hnew => hnew.mono h'.grows
  · exact .inr hnew

/-- No expression has been made. -/
theorem unchanged (hexprs : t'.exprs = t.exprs) (hgrows : t.Extends t') : Nests tokens t t' :=
  ⟨hgrows, fun {id _} he => .inl ((Tree.expr?_congr hexprs id).symm.trans he)⟩

theorem opens (h : Opens s frame s') : Nests tokens s.tree s'.tree :=
  .unchanged h.quiet.exprs (Step.opens h).extends

theorem closes (h : Closes s s') : Nests tokens s.tree s'.tree :=
  .unchanged h.quiet.exprs (Step.closes h).extends

theorem same (h : t' = t) : Nests tokens t t' := h ▸ refl

theorem bindBody {function : EntityId} {body : ExprId}
    (hbind : t.bindBody t.currentFrame function body = .ok t') : Nests tokens t t' := by
  obtain rfl := Tree.bindBody_ok hbind
  exact .unchanged rfl (Tree.modifyFrame_extends _ _ (fun _ => rfl) (fun _ => rfl))

/-- One more expression, which spans the tokens of its parts. -/
theorem push (ho : tokens.Ordered) (h : Nests tokens t s.tree) {node : Node} {span : Span}
    (hspan : span = tokens.between i j) (hij : i ≤ j)
    (hparts : ∀ c ∈ node.covered, s.tree.Lies tokens i (j + 1) c)
    (hrow : node.row.Pairwise s.tree.Precedes) : Nests tokens t (s.add node span).tree := by
  subst hspan
  have hgrows : s.tree.Extends (s.add node (tokens.between i j)).tree := Step.add.extends
  refine h.trans ⟨hgrows, ?_⟩
  intro id e he
  rcases Tree.of_expr?_pushExpr he with hold | ⟨rfl, rfl⟩
  · exact .inl hold
  · exact .inr ((Tree.Lies.spanned ho hij hparts hrow).mono hgrows)

/-- A production makes an expression that spans tokens which have been passed. -/
theorem add (ho : tokens.Ordered) (h : Nests tokens t s.tree) {node : Node} {span : Span}
    (hspan : span = tokens.between i j) (hlo : lo ≤ i) (hij : i ≤ j)
    (hhi : j < s.cursor.position) (hparts : ∀ c ∈ node.covered, s.tree.Lies tokens i (j + 1) c)
    (hrow : node.row.Pairwise s.tree.Precedes) :
    Nests tokens t (s.add node span).tree ∧ ∀ x, some s.newExpr = some x →
      (s.add node span).tree.Lies tokens lo (s.add node span).cursor.position x := by
  refine ⟨h.push ho hspan hij hparts hrow, ?_⟩
  rintro _ ⟨⟩
  exact ⟨_, i, j, expr?_newExpr s node _, hspan, hlo, hij, hhi⟩

/-- A production makes an expression without parts, of one token. -/
theorem leaf (ho : tokens.Ordered) (h : Nests tokens t s.tree) (node : Node)
    (hleaf : node.covered = []) (hlo : lo ≤ k) (hk : k < s.cursor.position)
    (hspan : token.span = tokens.between k k) :
    Nests tokens t (s.add node token.span).tree ∧ ∀ x, some s.newExpr = some x →
      (s.add node token.span).tree.Lies tokens lo (s.add node token.span).cursor.position x := by
  have hrow : node.row = [] := List.eq_nil_iff_forall_not_mem.2 fun c hc => by
    have hcovered := node.row_subset c hc
    rw [hleaf] at hcovered
    cases hcovered
  refine h.add ho hspan hlo (Nat.le_refl k) hk ?_ ?_
  · rw [hleaf]
    exact nofun
  · rw [hrow]
    exact .nil

/-- A production makes an expression that spans all tokens from its keyword on. -/
theorem close (ho : tokens.Ordered) (h : Nests tokens t s.tree) (hs : Stands tokens i s)
    {node : Node} (hlo : lo ≤ k) (hk : k < s.cursor.position)
    (hspan : token.span = tokens.between k k)
    (hparts : ∀ c ∈ node.covered, s.tree.Lies tokens k s.cursor.position c)
    (hrow : node.row.Pairwise s.tree.Precedes) :
    Nests tokens t (s.add node (token.span.merge s.cursor.previousSpan)).tree ∧
      ∀ x, some s.newExpr = some x →
        (s.add node (token.span.merge s.cursor.previousSpan)).tree.Lies tokens lo
          (s.add node (token.span.merge s.cursor.previousSpan)).cursor.position x := by
  have hlast : k ≤ s.cursor.position - 1 := Nat.le_sub_one_of_lt hk
  refine h.add ho ?_ hlo hlast (Nat.sub_one_lt_of_lt hk) ?_ hrow
  · rw [hspan, hs.previous, ho.merge_between hlast hlast]
  · intro c hc
    exact (hparts c hc).mono .refl (Nat.le_refl _) (by omega)

end Nests

/-- An expression that spans all tokens from a given one on, whatever is read behind it. -/
theorem Around.close (ho : tokens.Ordered)
    (h : Around tokens s.tree lo s.cursor.position token before behind)
    (hs : Stands tokens s.cursor.position s₁) (hmade : Nests tokens s.tree s₁.tree) {node : Node}
    (hparts : ∀ c ∈ node.covered, c ∈ behind ∨
      s₁.tree.Lies tokens s.cursor.position s₁.cursor.position c)
    (hrow : node.row.Pairwise s₁.tree.Precedes) :
    Nests tokens s.tree (s₁.add node (token.span.merge s₁.cursor.previousSpan)).tree ∧
      ∀ x, some s₁.newExpr = some x →
        (s₁.add node (token.span.merge s₁.cursor.previousSpan)).tree.Lies tokens lo
          (s₁.add node (token.span.merge s₁.cursor.previousSpan)).cursor.position x := by
  obtain ⟨k, hlo, hk, hspan, -, hbehind⟩ := h
  refine hmade.close ho hs hlo (Nat.lt_of_lt_of_le hk hs.le) hspan ?_ hrow
  intro c hc
  rcases hparts c hc with hgiven | hlies
  · exact (hbehind c hgiven).mono hmade.grows (Nat.le_succ k) hs.le
  · exact hlies.mono .refl (Nat.le_of_lt hk) (Nat.le_refl _)

/-- An expression that spans all tokens from its left part on. -/
theorem Around.follow (ho : tokens.Ordered) {left : ExprId} {e : Expr}
    (h : Around tokens s.tree lo s.cursor.position token [left] [])
    (hs : Stands tokens s.cursor.position s₁) (hmade : Nests tokens s.tree s₁.tree) {node : Node}
    (he : s₁.tree.expr? left = some e)
    (hparts : ∀ c ∈ node.covered, c = left ∨
      s₁.tree.Lies tokens s.cursor.position s₁.cursor.position c)
    (hrow : node.row.Pairwise s₁.tree.Precedes) :
    Nests tokens s.tree (s₁.add node (e.span.merge s₁.cursor.previousSpan)).tree ∧
      ∀ x, some s₁.newExpr = some x →
        (s₁.add node (e.span.merge s₁.cursor.previousSpan)).tree.Lies tokens lo
          (s₁.add node (e.span.merge s₁.cursor.previousSpan)).cursor.position x := by
  obtain ⟨k, -, hk, -, hbefore, -⟩ := h
  have hle := hs.le
  obtain ⟨e', i, j, he', hspan, hi, hij, hj⟩ := hbefore left (List.mem_singleton_self _)
  obtain rfl := Option.some.inj (he.symm.trans (hmade.grows.expr he'))
  refine hmade.add ho ?_ hi (by omega : i ≤ s₁.cursor.position - 1) (by omega) ?_ hrow
  · rw [hspan, hs.previous, ho.merge_between (by omega) (by omega)]
  · intro c hc
    rcases hparts c hc with rfl | hlies
    · exact ⟨e, i, j, he, hspan, Nat.le_refl i, hij, by omega⟩
    · exact hlies.mono .refl (by omega) (by omega)

end Grammar

end OnePass

import OnePass.Proofs.LeftOperands
import OnePass.Proofs.Numerals

/-!
# Right combs

There is no table of precedences: an operator takes all the rest of the expression as its right
operand. So numbers with operators between them (`Formula`) are read as a right comb
(`Tree.IsComb`): the first number, the first operator and the comb of what remains. The type of a
comb is found from its right end on (`Formula.type`). `extend_formula` follows the reading of a
formula operand by operand. Together with Proofs/LeftOperands, where it is shown of all sources that
no operation becomes a left operand, this is `operators_group_right`.
-/

namespace OnePass

open Text (byteLength)

/-! ## Types of operations on built-in types -/

/-- The type of an operation: a truth value for logic, and for arithmetic the number type that has
the reading that prevails and the larger size. -/
def BinaryOp.typing (op : BinaryOp) (a b : Builtin) : Builtin :=
  match op.family, a.entity.atom?, b.entity.atom? with
  | .logic, some _, some _ => .bool
  | .arithmetic, some x, some y =>
    (Builtin.ofAtom? ⟨(x.reading.join y.reading).dominant, max x.size y.size⟩).getD .void
  | _, _, _ => .void

/-! ## Formulas -/

/-- A whole number of at most eight bytes, as it is written. -/
structure Numeral where
  kind : TokenKind
  text : List Char
  value : Nat
  word : Lexicon.Word text kind
  integer : kind ∈ TokenSet.integers
  digits : Number.digitsValue? (Grammar.digitsOf ⟨kind, String.ofList text, default⟩).1
    (Grammar.digitsOf ⟨kind, String.ofList text, default⟩).2 = some value
  fits : value < UInt64.size

/-- An operator between two operands that is no assignment, as it is written. -/
structure Operator where
  op : BinaryOp
  kind : TokenKind
  text : List Char
  word : Lexicon.Word text kind
  stands : BinaryOp.ofToken? kind = some op
  plain : op ≠ .assign

namespace Numeral

def token (l : Numeral) : Token := ⟨l.kind, String.ofList l.text, default⟩

def node (l : Numeral) : Node := .int l.value (Grammar.intSize l.value)

def type (l : Numeral) : Builtin := if l.value < UInt32.size then .s32 else .s64

/-- The number `1`. -/
def one : Numeral :=
  ⟨.decimal, ['1'], 1, Lexicon.word_of_munch? (by decide +kernel), by decide, by decide, by decide⟩

end Numeral

namespace Operator

def token (o : Operator) : Token := ⟨o.kind, String.ofList o.text, default⟩

/-- The operator `+`. -/
def plus : Operator :=
  ⟨.add, .plus, ['+'], Lexicon.word_of_munch? (by decide +kernel), by decide, by decide⟩

end Operator

/-- Numbers with operators between them. -/
inductive Formula where
  | last (l : Numeral)
  | more (l : Numeral) (o : Operator) (rest : Formula)

namespace Formula

def tokens : Formula → List Token
  | last l => [l.token]
  | more l o rest => l.token :: o.token :: rest.tokens

/-- Number of operators, which is one less than that of numbers. -/
def operators : Formula → Nat
  | last _ => 0
  | more _ _ rest => rest.operators + 1

theorem length_tokens (c : Formula) : c.tokens.length = 2 * c.operators + 1 := by
  induction c with
  | last => rfl
  | more l o rest ih =>
    unfold tokens operators
    rw [List.length_cons, List.length_cons, ih]
    rfl

/-- The type of a formula, from the right. -/
def type : Formula → Builtin
  | last l => l.type
  | more l o rest => o.op.typing l.type rest.type

/-- The definition of a variable by a formula. -/
def source (c : Formula) : List Char := ['y', ' ', ':', '=', ' '] ++ Lexicon.spelt c.tokens

end Formula

namespace Tree

/-- The expression is the first number, the first operator and the comb of what remains. -/
def IsComb (t : Tree) : Formula → ExprId → Prop
  | .last l, id => ∃ span, t.expr? id = some ⟨l.node, span⟩
  | .more l o rest, id => ∃ left right span span',
    t.expr? id = some ⟨.binary o.op (Formula.more l o rest).type.handle left right, span⟩ ∧
      t.expr? left = some ⟨l.node, span'⟩ ∧ t.IsComb rest right

/-- Number of operations on two operands. -/
def operations (t : Tree) : Nat := t.exprs.countP fun e => e.node.leftOperand?.isSome

variable {t t' : Tree} {id : ExprId} {c : Formula}

theorem IsComb.mono (h : t.IsComb c id) (hextends : t.Extends t') : t'.IsComb c id := by
  induction c generalizing id with
  | last =>
    obtain ⟨span, he⟩ := h
    exact ⟨span, hextends.expr he⟩
  | more l o rest ih =>
    obtain ⟨left, right, span, span', he, hl, hrest⟩ := h
    exact ⟨left, right, span, span', hextends.expr he, hextends.expr hl, ih hrest⟩

/-- The expression is there, and what is defined by it is a variable. -/
theorem IsComb.exists_expr? (h : t.IsComb c id) : ∃ e, t.expr? id = some e ∧
    (∀ p r f, e.node ≠ .signature p r f) ∧ ∀ form b f, e.node ≠ .record form b f := by
  cases c with
  | last =>
    obtain ⟨span, he⟩ := h
    exact ⟨_, he, nofun, nofun⟩
  | more =>
    obtain ⟨left, right, span, span', he, -⟩ := h
    exact ⟨_, he, nofun, nofun⟩

theorem operations_pushExpr (t : Tree) (e : Expr) :
    (t.pushExpr e).2.operations =
      t.operations + if e.node.leftOperand?.isSome then 1 else 0 := Array.countP_push

theorem exprType?_numeral (h : t.HasBuiltins) {l : Numeral} {span : Span}
    (he : t.expr? id = some ⟨l.node, span⟩) : t.exprType? id = some l.type.handle :=
  exprType?_int h he

theorem IsComb.exprType? (h : t.IsComb c id) (hb : t.HasBuiltins) :
    t.exprType? id = some c.type.handle := by
  cases c with
  | last =>
    obtain ⟨span, he⟩ := h
    exact exprType?_numeral hb he
  | more l o rest =>
    obtain ⟨left, right, span, span', he, -⟩ := h
    unfold Tree.exprType? exprTypeWithin?
    rw [he]
    rfl

end Tree

/-! ## Types of formulas -/

theorem Numeral.type_mem (l : Numeral) : l.type ∈ [Builtin.s32, .s64] := by
  unfold Numeral.type
  split <;> decide

theorem Operator.family_ne_assign (o : Operator) : o.op.family ≠ .assign := by
  have hassign : ∀ op : BinaryOp, op.family = .assign → op = .assign := by
    intro op
    cases op <;> decide
  exact fun hfamily => o.plain (hassign _ hfamily)

theorem typing_mem : ∀ l ∈ [Builtin.s32, .s64], ∀ r ∈ [Builtin.s32, .s64, .bool],
    ∃ x ∈ l.entity.atom?, ∃ y ∈ r.entity.atom?, ∃ b ∈ [Builtin.s32, .s64],
      Builtin.ofAtom? ⟨(x.reading.join y.reading).dominant, max x.size y.size⟩ = some b := by
  decide

theorem Formula.type_mem (c : Formula) : c.type ∈ [Builtin.s32, .s64, .bool] := by
  induction c with
  | last l => exact List.mem_append_left [Builtin.bool] l.type_mem
  | more l o rest ih =>
    obtain ⟨x, hx, y, hy, b, hb, hcomposed⟩ := typing_mem _ l.type_mem _ ih
    unfold Formula.type BinaryOp.typing
    rw [hx, hy]
    cases hfamily : o.op.family with
    | logic => exact (by decide : Builtin.bool ∈ [Builtin.s32, .s64, .bool])
    | arithmetic =>
      dsimp only
      rw [hcomposed]
      exact List.mem_append_left [Builtin.bool] hb
    | assign => exact absurd hfamily o.family_ne_assign

namespace Grammar

variable {p : Productions} {s s₁ s₂ s' : State} {id left right : ExprId} {closing : TokenSet}
  {c : Formula} {rest found : List Token}

/-! ## One operator -/

/-- The operation has the type that the types of its operands say. -/
theorem operationType_eq {token : Token} {l : Numeral} {o : Operator} (hb : s.tree.HasBuiltins)
    (hleft : s.tree.exprType? left = some l.type.handle)
    (hright : s.tree.exprType? right = some c.type.handle) :
    operationType token o.op left right s = .ok (Formula.more l o c).type.handle s := by
  obtain ⟨x, hx, y, hy, b, -, hcomposed⟩ := typing_mem _ l.type_mem _ c.type_mem
  unfold operationType Formula.type BinaryOp.typing
  rw [typeOf_eq hleft, typeOf_eq hright, hx, hy]
  cases hfamily : o.op.family with
  | assign => exact absurd hfamily o.family_ne_assign
  | logic =>
    dsimp only
    unfold logic
    rw [entityOf_eq (hb _), hx, entityOf_eq (hb _), hy]
    rfl
  | arithmetic =>
    have hcompose : s.tree.compose? (x.reading.join y.reading) (max x.size y.size) =
        some b.handle := by
      rw [hb.compose?_ofAtom?, hcomposed]
      rfl
    dsimp only
    unfold arithmetic
    rw [entityOf_eq (hb _), hx, entityOf_eq (hb _), hy]
    dsimp only
    rw [get_bind, hcompose, hcomposed]
    rfl

theorem digitsOf_spelling {x y : Token} (h : x.spelling = y.spelling) :
    digitsOf x = digitsOf y := by
  obtain ⟨hkind, htext⟩ := Prod.mk.inj h
  unfold digitsOf
  rw [hkind, htext]

theorem operand_numeral {x : Token} {l : Numeral} (hx : x.spelling = l.token.spelling) :
    operand p none x closing s = .ok s.newExpr (s.add l.node x.span) := by
  have hkind : x.kind = l.kind := congrArg Prod.fst hx
  have hinteger : operand p none x closing = integer x := by
    have hcases : ∀ k ∈ TokenSet.integers, k = .decimal ∨ k = .binary ∨ k = .hexadecimal := by
      intro k
      cases k <;> decide
    unfold operand
    rcases hcases _ l.integer with h | h | h <;> rw [hkind, h]
  rw [hinteger]
  exact integer_eq (by rw [digitsOf_spelling hx]; exact l.digits) l.fits

/-- An operation on two operands, the right one of which has been read. -/
theorem binaryOperation_eq {token : Token} {l : Numeral} {o : Operator} {span : Span} {e : Expr}
    (hkind : token.kind = o.kind) (hb : s₂.tree.HasBuiltins)
    (hright : p.expr closing s₁ = .ok (some right) s₂)
    (hl : s₂.tree.expr? left = some ⟨l.node, span⟩) (hcomb : s₂.tree.IsComb c right)
    (hr : s₂.tree.expr? right = some e) :
    binaryOperation p (some left) token closing s₁ = .ok s₂.newExpr
      (s₂.add (.binary o.op (Formula.more l o c).type.handle left right) (span.merge e.span)) := by
  unfold binaryOperation
  rw [hkind, o.stands]
  dsimp only
  rw [bind_eq hright]
  dsimp only
  rw [bind_eq (operationType_eq hb (Tree.exprType?_numeral hb hl) (hcomb.exprType? hb)),
    spanOf_eq hl, spanOf_eq hr]
  exact push_run _ _ _

/-! ## Reading a formula -/

/-- What reading a formula leaves. -/
structure Combs (s : State) (c : Formula) (rest : List Token) (id : ExprId) (s' : State) :
    Prop where
  tokens : s'.cursor.tokens = s.cursor.tokens
  ahead : s'.cursor.ahead = rest
  tree : s'.tree = { s.tree with exprs := s'.tree.exprs }
  grows : s.tree.Extends s'.tree
  comb : s'.tree.IsComb c id
  operations : s'.tree.operations = s.tree.operations + c.operators

/-- Nothing in a formula closes what is read. -/
def Open (closing : TokenSet) : Prop :=
  ∀ k ∈ TokenSet.integers ∪ TokenSet.operators, closing.contains k = false

theorem ahead_of_spelling {x : Token} {words : List Token}
    (hahead : s.cursor.ahead = found ++ rest)
    (hfound : found.map Token.spelling = (x :: words).map Token.spelling) :
    ∃ y found', y.spelling = x.spelling ∧ found'.map Token.spelling = words.map Token.spelling ∧
      s.cursor.ahead = y :: (found' ++ rest) := by
  cases found with
  | nil => cases hfound
  | cons y found' =>
    obtain ⟨hy, hrest⟩ := List.cons.inj hfound
    exact ⟨y, found', hy, hrest, hahead⟩

theorem kind_of_numeral {x : Token} {l : Numeral} (hx : x.spelling = l.token.spelling) :
    x.kind ≠ .eof ∧ operandOnly.contains x.kind = true ∧
      x.kind ∈ TokenSet.integers ∪ TokenSet.operators := by
  have hall : ∀ k ∈ TokenSet.integers, k ≠ .eof ∧ operandOnly.contains k = true ∧
      k ∈ TokenSet.integers ∪ TokenSet.operators := by
    intro k
    cases k <;> decide
  rw [show x.kind = l.kind from congrArg Prod.fst hx]
  exact hall _ l.integer

theorem kind_of_operator {y : Token} {o : Operator} (hy : y.spelling = o.token.spelling) :
    y.kind = o.kind ∧ y.kind ≠ .eof ∧ y.kind ∈ TokenSet.operators := by
  have hall : ∀ k : TokenKind, ∀ op, BinaryOp.ofToken? k = some op →
      k ≠ .eof ∧ k ∈ TokenSet.operators := by
    intro k op h
    cases k <;> first | exact (by decide) | cases h
  have hkind : y.kind = o.kind := congrArg Prod.fst hy
  refine ⟨hkind, ?_⟩
  rw [hkind]
  exact hall _ _ o.stands

theorem combs_numeral {x : Token} (hahead : s.cursor.ahead = x :: rest) (hkind : x.kind ≠ .eof)
    (l : Numeral) (span : Span) :
    Combs s (.last l) rest s.next.newExpr (s.next.add l.node span) := by
  refine ⟨Cursor.forward_advance.tokens, Cursor.ahead_advance hahead hkind, rfl,
    (s.tree.pushExpr_evolves _).toExtends, ⟨span, expr?_newExpr _ _ _⟩, ?_⟩
  exact s.tree.operations_pushExpr _

/-- A number, an operator and a comb make a comb. -/
theorem Combs.operation {l : Numeral} {span' : Span} (o : Operator) (span : Span)
    (hleft : Combs s (.last l) found left s₁) (hright : Combs s₁.next c rest right s₂)
    (hl : s₂.tree.expr? left = some ⟨l.node, span'⟩) :
    Combs s (.more l o c) rest s₂.newExpr
      (s₂.add (.binary o.op (Formula.more l o c).type.handle left right) span) := by
  have hgrows := (s₂.tree.pushExpr_evolves
    ⟨.binary o.op (Formula.more l o c).type.handle left right, span⟩).toExtends
  refine ⟨?_, hright.ahead, ?_, hleft.grows.trans (hright.grows.trans hgrows), ?_, ?_⟩
  · exact hright.tokens.trans (Cursor.forward_advance.tokens.trans hleft.tokens)
  · show (s₂.tree.pushExpr _).2 = _
    have hthere : s₁.next.tree = { s.tree with exprs := s₁.tree.exprs } := hleft.tree
    rw [hright.tree, hthere]
    rfl
  · exact ⟨_, _, _, _, expr?_newExpr _ _ _, hgrows.expr hl, hright.comb.mono hgrows⟩
  · have hthere : s₁.next.tree.operations = s.tree.operations := hleft.operations
    refine (s₂.tree.operations_pushExpr _).trans ?_
    rw [hright.operations, hthere, Nat.add_assoc]
    rfl

/-- An expression goes on behind a number with an operation, the last thing that is in it. -/
theorem extend_operation {n : Nat} {y : Token} (hahead : s.cursor.ahead = y :: rest)
    (hclosing : closing.contains y.kind = false) (hoperator : y.kind ∈ TokenSet.operators)
    (hoperation : binaryOperation (level n) (some left) y closing s.next = .ok id s')
    (hstop : s'.cursor.isAt closing = true) :
    (level (n + 2)).extend (some left) closing s = .ok (some id) s' := by
  have hapart : y.kind ≠ .eof ∧ y.kind ≠ .openBrace := by
    revert hoperator
    cases y.kind <;> decide
  have hat : s.cursor.isAt closing = false := (Cursor.isAt_of_ahead hahead).trans hclosing
  have hbrace : s.cursor.isAt {.openBrace} = false := by
    rw [Cursor.isAt_of_ahead hahead]
    exact Bool.eq_false_iff.2 fun h => hapart.2 (TokenSet.mem_singleton.1 h)
  have hstep : (level (n + 1)).step (some left) closing s = .ok (some id) s' := by
    show stepTurn (level n) (some left) closing s = _
    rw [stepTurn_operator hat, Cursor.current_of_ahead hahead]
    · exact map_run hoperation
    · rwa [Cursor.current_of_ahead hahead]
  show extendTurn (level (n + 1)) (some left) closing s = _
  rw [extendTurn_step hat (Cursor.atEnd_of_ahead hahead hapart.1) (.inr hbrace), bind_eq hstep]
  exact extendTurn_closing hstop

/-- A formula is read as its comb. -/
theorem extend_formula {n : Nat} (hahead : s.cursor.ahead = found ++ rest)
    (hfound : found.map Token.spelling = c.tokens.map Token.spelling) (hopen : Open closing)
    (hstops : Stops s.cursor.tokens rest closing) (hb : s.tree.HasBuiltins) :
    ∃ id s', (level (n + 3 * c.operators + 2)).extend none closing s = .ok (some id) s' ∧
      Combs s c rest id s' := by
  induction c generalizing n s found with
  | last l =>
    obtain ⟨x, found', hx, hnil, hahead⟩ := ahead_of_spelling hahead hfound
    obtain rfl : found' = [] := List.map_eq_nil_iff.1 hnil
    obtain ⟨heof, hstart, hmem⟩ := kind_of_numeral hx
    have hread := combs_numeral hahead heof l x.span
    refine ⟨_, _, ?_, hread⟩
    rw [Formula.operators, Nat.mul_zero, Nat.add_zero, extend_operand hahead (hopen _ hmem) hstart,
      bind_eq (operand_numeral hx)]
    exact extendTurn_closing (hstops _ hread.tokens hread.ahead)
  | more l o c ih =>
    obtain ⟨x, found₁, hx, hfound₁, hahead⟩ := ahead_of_spelling hahead hfound
    obtain ⟨heof, hstart, hmem⟩ := kind_of_numeral hx
    have hleft := combs_numeral hahead heof l x.span
    obtain ⟨y, found₂, hy, hfound₂, hahead₁⟩ := ahead_of_spelling hleft.ahead hfound₁
    obtain ⟨hkind, heof₁, hoperator⟩ := kind_of_operator hy
    have hb₁ := hleft.grows.hasBuiltins hb
    generalize hs₁ : s.next.add l.node x.span = s₁ at *
    -- the right operand is all that remains
    have htokens : s₁.next.cursor.tokens = s.cursor.tokens :=
      Cursor.forward_advance.tokens.trans hleft.tokens
    obtain ⟨right, s₂, hright, hread⟩ := ih (s := s₁.next) (n := n)
      (Cursor.ahead_advance hahead₁ heof₁) hfound₂ (htokens ▸ hstops) hb₁
    obtain ⟨span, hl⟩ := hleft.comb
    obtain ⟨e, hr, -⟩ := hread.comb.exists_expr?
    have hl₂ := hread.grows.expr hl
    have hoperation :=
      binaryOperation_eq hkind (hread.grows.hasBuiltins hb₁) hright hl₂ hread.comb hr
    have hcombs := Combs.operation o (span.merge e.span) hleft hread hl₂
    refine ⟨_, _, ?_, hcombs⟩
    rw [show n + 3 * (Formula.more l o c).operators + 2 = n + 3 * c.operators + 3 + 2 by
      rw [Formula.operators]; omega, extend_operand hahead (hopen _ hmem) hstart,
      bind_eq (operand_numeral hx), hs₁]
    exact extend_operation hahead₁ (hopen _ (TokenSet.mem_union.2 (.inr hoperator))) hoperator
      hoperation (hstops _ hcombs.tokens hcombs.ahead)

end Grammar

/-! ## Whole sources -/

namespace Lexicon

/-- A formula is made of words, and begins with one. -/
theorem word_of_mem_tokens (c : Formula) : ∀ x ∈ c.tokens, Word x.text.toList x.kind := by
  have hnumeral (l : Numeral) : Word l.token.text.toList l.token.kind := by
    simpa [Numeral.token] using l.word
  have hoperator (o : Operator) : Word o.token.text.toList o.token.kind := by
    simpa [Operator.token] using o.word
  induction c with
  | last l =>
    intro x hx
    rw [List.mem_singleton.1 hx]
    exact hnumeral l
  | more l o rest ih =>
    intro x hx
    rcases List.mem_cons.1 hx with rfl | hx
    · exact hnumeral l
    · rcases List.mem_cons.1 hx with rfl | hx
      · exact hoperator o
      · exact ih x hx

theorem spelt_tokens (c : Formula) :
    ∃ (l : Numeral) (after : List Char), spelt c.tokens = l.text ++ after := by
  cases c with
  | last l => exact ⟨l, [], by simp [Formula.tokens, spelt, Numeral.token]⟩
  | more l o rest =>
    refine ⟨l, [' '] ++ spelt (o.token :: rest.tokens), ?_⟩
    exact (spelt_cons_cons l.token o.token rest.tokens).trans
      (congrArg (· ++ _) String.toList_ofList)

/-- Each number and each operator has a byte, and so has each blank. -/
theorem le_byteLength_source (c : Formula) : 4 * c.operators + 6 ≤ byteLength c.source := by
  have hle := le_byteLength_spelt fun x hx => (word_of_mem_tokens c x hx).ne_nil
  have hstart : byteLength ['y', ' ', ':', '=', ' '] = 5 := rfl
  rw [Formula.length_tokens] at hle
  unfold Formula.source
  rw [Text.byteLength_append, hstart]
  omega

/-- The definition of a variable by a formula is cut into these tokens. -/
theorem scans_source (c : Formula) : ∃ found,
    Scans [] 0 c.source
      (cut .name 0 ['y'] :: cut .define 2 [':'] :: cut .assign 3 ['='] :: found) ∧
      found.map Token.spelling = c.tokens.map Token.spelling := by
  obtain ⟨found, hscans, hfound, -⟩ := scans_spelt 5 (word_of_mem_tokens c)
  obtain ⟨l, after, hspelt⟩ := spelt_tokens c
  have hname : Word ['y'] .name := word_of_munch? (by decide +kernel)
  exact ⟨found, scans_definition hname (by decide) hscans hspelt l.word, hfound⟩

end Lexicon

namespace Grammar

variable {c : Formula} {found : List Token}

/-- The tokens of the definition of a variable by a formula, with the end of the source behind
them. -/
theorem parse_formula {tokens : TokenList} {name d a : Token}
    (hbody : tokens.body = (name :: d :: a :: found).toArray) (hlast : tokens.last.kind = .eof)
    (hname : name.spelling = (.name, "y")) (hd : d.kind = .define) (ha : a.kind = .assign)
    (hfound : found.map Token.spelling = c.tokens.map Token.spelling) :
    ∃ t id init entity span, parse tokens = .ok t ∧ t.topLevel = [id] ∧
      t.expr? id = some ⟨.definition "y" .variable (some init) entity none, span⟩ ∧
      t.IsComb c init ∧ t.operations = c.operators ∧
      t.entity? entity = some (.var "y" c.type.handle) := by
  obtain ⟨hkind, htext⟩ := Prod.mk.inj hname
  obtain ⟨s, hbefore, hahead, htokens, hbuiltins⟩ := exists_before_value hbody hkind hd ha
  have hlength : found.length = 2 * c.operators + 1 := by
    rw [← Formula.length_tokens, ← List.length_map (f := Token.spelling), hfound, List.length_map]
  have hfuel : fuel tokens.size = 3 * c.operators + 13 + 3 * c.operators + 2 + 3 := by
    unfold fuel TokenList.size
    rw [hbody, List.size_toArray]
    simp only [List.length_cons, hlength]
    omega
  have hclosed : Open valueEnd := by
    unfold Open
    intro k
    cases k <;> decide
  have hstops : Stops tokens [] valueEnd := by
    intro cursor hcursor hnil
    rw [isAt_of_ahead_nil hnil (by rw [hcursor, hlast])]
    decide
  have hb : s.tree.HasBuiltins := by
    rw [hbuiltins]
    exact Builtin.entity?_withBuiltins
  obtain ⟨init, s₁, hvalue, hread⟩ := extend_formula (n := 3 * c.operators + 13)
    (hahead.trans (List.append_nil found).symm) hfound hclosed (htokens ▸ hstops) hb
  have hcomb := hread.comb
  have htype := hcomb.exprType? (hread.grows.hasBuiltins hb)
  have hoperations : s₁.tree.operations = c.operators := by
    have hnone : s.tree.operations = 0 := by
      rw [hbuiltins]
      rfl
    rw [hread.operations, hnone, Nat.zero_add]
  have hnew : Tree.withBuiltins.findLocal? name.text = none := by
    rw [htext]
    decide +kernel
  obtain ⟨t, id, entity, span, place, hparse, htop, hid, hentity, hgrows, hexprs⟩ :=
    parse_definition hbody hlast hkind hd ha hnew hfuel hbefore hvalue
      ⟨hread.tokens, hread.ahead, htype, hcomb.exists_expr?⟩
  rw [htext] at hid hentity
  refine ⟨t, id, init, entity, span, hparse, htop, hid, hcomb.mono hgrows, ?_, hentity⟩
  unfold Tree.operations at hoperations ⊢
  rw [hexprs, Array.countP_push, Array.countP_push, hoperations]
  rfl

/-- A formula with more bytes than can be counted is refused before it is parsed. -/
theorem parseSource_formula_long (hlong : Span.offsetLimit ≤ byteLength c.source) :
    ∃ e, parseSource (String.ofList c.source) = .error ⟨.offsetTooLarge e, none⟩ := by
  obtain ⟨found, hscans, -⟩ := Lexicon.scans_source c
  obtain ⟨e, hrefused⟩ := Lexicon.tokenize_of_long hscans hlong
  unfold parseSource
  rw [String.toList_ofList, hrefused]
  exact ⟨e, rfl⟩

/-- Operators group to the right. In no source that is accepted is an operation on two operands the
left operand of another one. And any whole numbers with any operators between them but assignments
define a variable as their right comb, with one operation for each operator, and of the type that
is found from the right; or else the source has more bytes than can be counted. -/
theorem operators_group_right :
    (∀ (source : String) (t : Tree), parseSource source = .ok t →
      ∀ id op type left right span, t.expr? id = some ⟨.binary op type left right, span⟩ →
        ∃ e, t.expr? left = some e ∧ ∀ op' type' l r, e.node ≠ .binary op' type' l r) ∧
    ∀ c : Formula,
      (byteLength c.source < Span.offsetLimit → ∃ t id init entity span,
        parseSource (String.ofList c.source) = .ok t ∧ t.topLevel = [id] ∧
        t.expr? id = some ⟨.definition "y" .variable (some init) entity none, span⟩ ∧
        t.IsComb c init ∧ t.operations = c.operators ∧
        t.entity? entity = some (.var "y" c.type.handle)) ∧
      (Span.offsetLimit ≤ byteLength c.source →
        ∃ e, parseSource (String.ofList c.source) = .error ⟨.offsetTooLarge e, none⟩) := by
  constructor
  · intro source t h id op type left right span he
    obtain ⟨tokens, -, hparse⟩ := parseSource_ok h
    obtain ⟨e, hl, hsingle⟩ := combed_of_parse hparse id _ left he rfl
    refine ⟨e, hl, ?_⟩
    rintro op' type' l r hbinary
    rw [hbinary] at hsingle
    cases hsingle
  · refine fun c => ⟨fun hlimit => ?_, parseSource_formula_long⟩
    obtain ⟨found, hscans, hfound⟩ := Lexicon.scans_source c
    unfold parseSource
    rw [String.toList_ofList, Lexicon.tokenize_of_scans hscans hlimit]
    exact parse_formula rfl rfl rfl rfl rfl hfound

/-- The product is the outer operation, of a number and a truth value. -/
theorem operators_group_right_mixed :
    ∃ t init product comparison left middle right entity,
      parseSource "y := 7 * 4294967296 < 0b1" = .ok t ∧ t.operations = 2 ∧
      (t.expr? init).map Expr.node = some (.binary .mul product left comparison) ∧
      (t.expr? comparison).map Expr.node =
        some (.binary .less Builtin.bool.handle middle right) ∧
      t.entity? entity = some (.var "y" Builtin.s32.handle) ∧
      ∃ e, t.expr? left = some e ∧ ∀ op type l r, e.node ≠ .binary op type l r := by
  let c : Formula :=
    .more ⟨.decimal, ['7'], 7, Lexicon.word_of_munch? (by decide +kernel), by decide, by decide,
        by decide⟩
      ⟨.mul, .star, ['*'], Lexicon.word_of_munch? (by decide +kernel), by decide, by decide⟩
      (.more ⟨.decimal, "4294967296".toList, 4294967296,
          Lexicon.word_of_munch? (by decide +kernel), by decide, by decide +kernel, by decide⟩
        ⟨.less, .less, ['<'], Lexicon.word_of_munch? (by decide +kernel), by decide, by decide⟩
        (.last ⟨.binary, "0b1".toList, 1, Lexicon.word_of_munch? (by decide +kernel), by decide,
          by decide +kernel, by decide⟩))
  have hsource : String.ofList c.source = "y := 7 * 4294967296 < 0b1" := by decide +kernel
  obtain ⟨t, id, init, entity, span, hparse, -, -, hcomb, hoperations, hentity⟩ :=
    (operators_group_right.2 c).1 (by decide +kernel)
  rw [hsource] at hparse
  obtain ⟨left, comparison, _, _, hproduct, -, middle, right, _, _, hcomparison, -⟩ := hcomb
  exact ⟨t, init, _, comparison, left, middle, right, entity, hparse, hoperations,
    congrArg (Option.map Expr.node) hproduct, congrArg (Option.map Expr.node) hcomparison, hentity,
    operators_group_right.1 _ t hparse _ _ _ _ _ _ hproduct⟩

/-- The sum of one more one than there are operators in it. -/
def sumOfOnes : Nat → Formula
  | 0 => .last .one
  | n + 1 => .more .one .plus (sumOfOnes n)

theorem operators_sumOfOnes (n : Nat) : (sumOfOnes n).operators = n := by
  induction n with
  | zero => rfl
  | succ n ih => rw [sumOfOnes, Formula.operators, ih]

/-- A sum of so many ones that its bytes cannot be counted is not accepted. -/
theorem operators_without_room :
    ¬∃ t, parseSource (String.ofList (sumOfOnes (2 ^ 30)).source) = .ok t := by
  have hoperators := operators_sumOfOnes (2 ^ 30)
  generalize sumOfOnes (2 ^ 30) = c at hoperators
  have hlong : Span.offsetLimit ≤ byteLength c.source := by
    have hle := Lexicon.le_byteLength_source c
    rw [hoperators] at hle
    exact Nat.le_trans (by decide) hle
  obtain ⟨e, hrefused⟩ := parseSource_formula_long hlong
  rintro ⟨t, h⟩
  rw [hrefused] at h
  cases h

end Grammar

end OnePass

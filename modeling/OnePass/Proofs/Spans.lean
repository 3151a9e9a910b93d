import OnePass.Proofs.Places

/-!
# Spans

Every production nests what it makes: its parts lie inside it, if what the production is given lies
before the cursor in order (`Nesting`). There is one lemma for each production that makes
something of parts, over what is `Known` of the phrases that it reads, and `Reads.nests` is the
induction that puts them together. That tokens are in order then turns places into offsets
(`spans_nest`).
-/

namespace OnePass.Grammar

variable {s s₁ s₂ s' : State} {t : Tree} {frame : FrameId} {log : List Binding} {φ : Phrase}
  {tokens : TokenList} {lo k : Nat} {id : ExprId} {token : Token}

/-! ## One production after the other -/

/-- Whatever the phrase makes has its parts inside it, and its answer lies before the cursor, if
that is true of what it is given. -/
def Nesting (tokens : TokenList) (φ : Phrase) (s s' : State) : Prop :=
  ∀ lo, Stands tokens lo s → φ.Given tokens lo s →
    Nests tokens s.tree s'.tree ∧ φ.Answered tokens lo s'

section Productions

variable {s₃ s₄ s₅ : State} {log' log'' log₁ log₂ log₃ log₄ : List Binding} {closing : TokenSet}
  {keyword paren : Token} {cond scope inner : ExprId}

/-- The items of a sequence lie one behind the other. -/
theorem nesting_sequenceItem (ho : tokens.Ordered) {body : Array ExprId} {item : Option ExprId}
    {answer : List ExprId}
    (hitem : Known (Nesting tokens) (.extend none (separators ∪ closing) item)
      (s.past separators) log s₁)
    (hrest : Nesting tokens (.sequence (item.elim body body.push) closing answer) s₁ s') :
    Nesting tokens (.sequence body closing answer) s s' := by
  intro lo hs hgiven
  have hskip : Step s [] (s.past separators) := .past
  have hpast := hs.step hskip
  obtain ⟨hnests, hanswer⟩ := hitem.holds _ (hpast.since (Nat.le_refl _)) nofun
  have hle := hitem.read.forward.position
  have hbody : Tree.Row s₁.tree tokens lo (s.past separators).cursor.position body.toList :=
    Tree.Row.mono hgiven hnests.grows (Nat.le_refl _) hskip.forward.position
  obtain ⟨hnests', hrow⟩ := hrest lo (hpast.read hitem.read) (by
    cases item with
    | none => exact hbody.mono .refl (Nat.le_refl _) hle
    | some item =>
      show Tree.Row _ _ _ _ (body.push item).toList
      rw [Array.toList_push]
      exact hbody.snoc ho (hanswer item rfl) hpast.le hle)
  exact ⟨hnests.trans hnests', hrow⟩

theorem nesting_extendStep {left next answer : Option ExprId}
    (hstep : Known (Nesting tokens) (.step left closing next) s log s₁)
    (hrest : Nesting tokens (.extend (next.or left) closing answer) s₁ s') :
    Nesting tokens (.extend left closing answer) s s' := by
  intro lo hs hgiven
  obtain ⟨hnests, hnext⟩ := hstep.holds lo hs hgiven
  have hgiven' : (Phrase.extend (next.or left) closing answer).Given tokens lo s₁ := by
    intro x hx
    cases next with
    | none => exact (hgiven x hx).mono hnests.grows (Nat.le_refl _) hstep.read.forward.position
    | some next => exact hnext x (Option.mem_toList.1 hx)
  obtain ⟨hnests', hanswer⟩ := hrest lo (hs.read hstep.read) hgiven'
  exact ⟨hnests.trans hnests', hanswer⟩

/-- An operator before its operand spans from the operator to the end of the operand. -/
theorem nesting_prefixOperation (ho : tokens.Ordered) {op : UnaryOp} {operand : ExprId}
    {type : EntityId} {e : Expr}
    (hstep : Known (Nesting tokens) (.step none closing (some operand)) s log s')
    (hexpr : s'.tree.expr? operand = some e) :
    Nesting tokens (.prefixOperation token closing s'.newExpr) s
      (s'.add (.unary op .before type operand) (token.span.merge e.span)) := by
  rintro lo hs ⟨k, hlo, hk, hspan, -, -⟩
  obtain ⟨hnests, hanswer⟩ := hstep.holds _ (hs.since (Nat.succ_le_of_lt hk)) nofun
  obtain ⟨e, i, j, he, hspan', hi, hij, hj⟩ := hanswer _ rfl
  obtain rfl := Option.some.inj (hexpr.symm.trans he)
  refine hnests.add ho ?_ hlo (by omega) hj ?_ .nil
  · rw [hspan, hspan', ho.merge_between (by omega) (by omega)]
  · intro c hc
    obtain rfl := List.mem_singleton.1 hc
    exact ⟨_, i, j, hexpr, hspan', by omega, hij, Nat.lt_succ_self j⟩

theorem nesting_postfixOperation (ho : tokens.Ordered) {op : UnaryOp} {left : ExprId}
    {type : EntityId} {e : Expr} (hexpr : s.tree.expr? left = some e) :
    Nesting tokens (.postfixOperation left token s.newExpr) s
      (s.add (.unary op .after type left) (e.span.merge token.span)) := by
  rintro lo hs ⟨k, hlo, hk, hspan, hbefore, -⟩
  obtain ⟨e, i, j, he, hspan', hi, hij, hj⟩ := hbefore _ (List.mem_singleton_self _)
  obtain rfl := Option.some.inj (hexpr.symm.trans he)
  refine Nests.refl.add ho ?_ hi (by omega) hk ?_ .nil
  · rw [hspan, hspan', ho.merge_between (by omega) (by omega)]
  · intro c hc
    obtain rfl := List.mem_singleton.1 hc
    exact ⟨_, i, j, hexpr, hspan', Nat.le_refl i, hij, by omega⟩

/-- The left operand lies before the operator and the right one behind it, so that an operation
spans from the one to the other. -/
theorem nesting_binaryOperation (ho : tokens.Ordered) {op : BinaryOp} {left right : ExprId}
    {type : EntityId} {l r : Expr}
    (hright : Known (Nesting tokens) (.extend none closing (some right)) s log s')
    (hl : s'.tree.expr? left = some l) (hr : s'.tree.expr? right = some r) :
    Nesting tokens (.binaryOperation (some left) token closing s'.newExpr) s
      (s'.add (.binary op type left right) (l.span.merge r.span)) := by
  rintro lo hs ⟨k, hlo, hk, -, hbefore, -⟩
  obtain ⟨hnests, hanswer⟩ := hright.holds _ (hs.since (Nat.succ_le_of_lt hk)) nofun
  have hleft := (hbefore _ (List.mem_singleton_self _)).mono hnests.grows (Nat.le_refl _)
    (Nat.le_refl _)
  have hright := hanswer _ rfl
  have hprecedes := hleft.precedes ho hright (Nat.le_succ k)
  obtain ⟨e, i, j, he, hspan, hi, hij, hj⟩ := hleft
  obtain ⟨f, i', j', hf, hspan', hi', hij', hj'⟩ := hright
  obtain rfl := Option.some.inj (hl.symm.trans he)
  obtain rfl := Option.some.inj (hr.symm.trans hf)
  refine hnests.add ho ?_ hi (by omega : i ≤ j') hj' ?_ ?_
  · rw [hspan, hspan', ho.merge_between (by omega) (by omega)]
  · intro c hc
    rcases List.mem_pair.1 hc with rfl | rfl
    · exact ⟨_, i, j, he, hspan, Nat.le_refl i, hij, by omega⟩
    · exact ⟨_, i', j', hf, hspan', by omega, hij', Nat.lt_succ_self j'⟩
  · exact List.pairwise_pair.2 hprecedes

/-- An argument spans its value alone, and not the argument behind it. -/
theorem nesting_argumentsCons (ho : tokens.Ordered) {param : EntityId} {rest : List EntityId}
    {value : ExprId} {next : Option ExprId} {e : Expr}
    (hvalue : Known (Nesting tokens) (.extend none ({.comma} ∪ closing) (some value))
      (s.past {.newline}) log s₁)
    (hseparates : Separates rest closing s₁ s₂)
    (hrest : Known (Nesting tokens) (.arguments closing rest next) s₂ log' s')
    (hexpr : s'.tree.expr? value = some e) :
    Nesting tokens (.arguments closing (param :: rest) (some s'.newExpr)) s
      (s'.add (.argument value next) e.span) := by
  intro lo hs hgiven
  have hs₁ := (hs.step .past).read hvalue.read
  obtain ⟨hnests, hanswer⟩ := hvalue.holds lo (hs.step .past) nofun
  obtain ⟨hnests', -⟩ := hrest.holds lo (hs₁.trail hseparates.trail) trivial
  rw [hseparates.tree] at hnests'
  obtain ⟨e, i, j, he, hspan, hi, hij, hj⟩ := (hanswer _ rfl).mono hnests'.grows (Nat.le_refl _)
    (hseparates.trail.forward.trans hrest.read.forward).position
  obtain rfl := Option.some.inj (hexpr.symm.trans he)
  refine (hnests.trans hnests').add ho hspan hi hij hj ?_ .nil
  intro c hc
  obtain rfl := List.mem_singleton.1 hc
  exact ⟨_, i, j, he, hspan, Nat.le_refl i, hij, Nat.lt_succ_self j⟩

theorem nesting_call (ho : tokens.Ordered) {callee : ExprId} {function : EntityId}
    {params : List EntityId} {args : Option ExprId} {e : Expr}
    (hargs : Known (Nesting tokens) (.arguments {.closeParen} params args) s log s')
    (hexpr : s'.tree.expr? callee = some e) :
    Nesting tokens (.call callee paren s'.newExpr) s
      (s'.add (.call callee function args) (e.span.merge s'.cursor.previousSpan)) := by
  intro lo hs hgiven
  have hhere := hs.since (Nat.le_refl _)
  obtain ⟨hnests, hanswer⟩ := hargs.holds _ hhere trivial
  refine Around.follow ho hgiven (hhere.read hargs.read) hnests hexpr ?_ .nil
  intro c hc
  rcases List.mem_cons.1 hc with rfl | hc
  · exact .inl rfl
  · exact .inr (hanswer c (Option.mem_toList.1 hc))

theorem nesting_structLiteral (ho : tokens.Ordered) {name : ExprId} {brace : Token}
    {type : EntityId} {members : List EntityId} {args : Option ExprId} {e : Expr}
    (hargs : Known (Nesting tokens) (.arguments {.closeBrace} members args) s log s')
    (hexpr : s'.tree.expr? name = some e) :
    Nesting tokens (.structLiteral name brace s'.newExpr) s
      (s'.add (.structLiteral type args) (e.span.merge s'.cursor.previousSpan)) := by
  intro lo hs hgiven
  have hhere := hs.since (Nat.le_refl _)
  obtain ⟨hnests, hanswer⟩ := hargs.holds _ hhere trivial
  refine Around.follow ho hgiven (hhere.read hargs.read) hnests hexpr ?_ .nil
  exact fun c hc => .inr (hanswer c (Option.mem_toList.1 hc))

theorem nesting_scopeBody (ho : tokens.Ordered) {brace : Token} {body : List ExprId}
    (hbody : Known (Nesting tokens) (.sequence #[] {.closeBrace} body) s log s') :
    Nesting tokens (.scopeBody brace frame s'.newExpr) s
      (s'.add (.scope body frame) (brace.span.merge s'.cursor.previousSpan)) := by
  intro lo hs hgiven
  have hhere := hs.since (Nat.le_refl _)
  obtain ⟨hnests, hrow⟩ := hbody.holds _ hhere .nil
  exact Around.close ho hgiven (hhere.read hbody.read) hnests (fun c hc => .inr (hrow.lies c hc))
    hrow.precedes

/-- The condition and the scopes of a branch lie behind its keyword, up to where its frame is
closed. -/
theorem nesting_branch (ho : tokens.Ordered) {thenScope : ExprId} {elseScope : Option ExprId}
    (hopen : Opens s frame s₁)
    (hcond : Known (Nesting tokens) (.extend none {.openBrace} (some cond)) s₁ log s₂)
    (hthen : Known (Nesting tokens) (.scopeAfter "if" keyword thenScope) s₂ log' s₃)
    (helse : Known (Nesting tokens) (.elseScope elseScope) s₃ log'' s₄) (hclose : Closes s₄ s') :
    Nesting tokens (.branch keyword s'.newExpr) s
      (s'.add (.branch cond thenScope elseScope frame)
        (keyword.span.merge s'.cursor.previousSpan)) := by
  intro lo hs hgiven
  have hs₁ := (hs.since (Nat.le_refl _)).step (.opens hopen)
  have hs₂ := hs₁.read hcond.read
  have hs₃ := hs₂.read hthen.read
  have hs' := (hs₃.read helse.read).step (.closes hclose)
  obtain ⟨hcond', hcondAt⟩ := hcond.holds _ hs₁ nofun
  obtain ⟨hthen', hthenAt⟩ := hthen.holds _ hs₂ trivial
  obtain ⟨helse', helseAt⟩ := helse.holds _ hs₃ trivial
  have hnests := (((Nests.opens hopen).trans hcond').trans (hthen'.trans helse')).trans
    (.closes hclose)
  have hclosed := Trail.single (.closes hclose)
  have hended := helse.read.trail.trans hclosed
  refine Around.close ho hgiven hs' hnests ?_ .nil
  intro c hc
  right
  rcases List.mem_cons.1 hc with rfl | hc
  · exact (hthen.read.trail.trans hended).lies (hcondAt _ rfl)
  rcases List.mem_cons.1 hc with rfl | hc
  · exact hended.lies (hthenAt _ rfl)
  · exact hclosed.lies (helseAt c (Option.mem_toList.1 hc))

/-- A loop over a condition, once the condition is there. It may span the keyword, which stands at
the place `k`. -/
theorem nests_whileLoop (ho : tokens.Ordered) (hlo : lo ≤ k) (hk : k < s₁.cursor.position)
    (hspan : keyword.span = tokens.between k k) (hs : Stands tokens k s₁)
    (hmade : Nests tokens t s₁.tree) (hcond : s₁.tree.Lies tokens k s₁.cursor.position cond)
    (hscope : Known (Nesting tokens) (.scopeAfter "for" keyword scope) s₁ log s₂)
    (hclose : Closes s₂ s') :
    Nests tokens t
        (s'.add (.whileLoop cond scope frame) (keyword.span.merge s'.cursor.previousSpan)).tree ∧
      (Phrase.loop keyword s'.newExpr).Answered tokens lo
        (s'.add (.whileLoop cond scope frame) (keyword.span.merge s'.cursor.previousSpan)) := by
  obtain ⟨hscope', hscopeAt⟩ := hscope.holds _ hs trivial
  have hclosed := Trail.single (.closes hclose)
  have hended := hscope.read.trail.trans hclosed
  refine ((hmade.trans hscope').trans (.closes hclose)).close ho (hs.trail hended) hlo
    (Nat.lt_of_lt_of_le hk hended.forward.position) hspan ?_ .nil
  intro c hc
  rcases List.mem_pair.1 hc with rfl | rfl
  · exact hended.lies hcond
  · exact hclosed.lies (hscopeAt _ rfl)

/-- The condition of an endless loop is made up, with the span of the keyword. -/
theorem nesting_loopEndless (ho : tokens.Ordered) (hopen : Opens s frame s₁)
    (hfirst : Known (Nesting tokens) (.extend none {.semicolon, .openBrace} none) s₁ log s₂)
    (hscope : Known (Nesting tokens) (.scopeAfter "for" keyword scope)
      (s₂.add (.bool true) keyword.span) log' s₃)
    (hclose : Closes s₃ s') :
    Nesting tokens (.loop keyword s'.newExpr) s
      (s'.add (.whileLoop s₂.newExpr scope frame)
        (keyword.span.merge s'.cursor.previousSpan)) := by
  rintro lo hs ⟨k, hlo, hk, hspan, -, -⟩
  have hs₁ := (hs.since (Nat.le_of_lt hk)).step (.opens hopen)
  have hbegun := (Trail.single (.opens hopen)).trans hfirst.read.trail
  have hk₂ : k < (s₂.add (.bool true) keyword.span).cursor.position :=
    Nat.lt_of_lt_of_le hk hbegun.forward.position
  obtain ⟨hnests, -⟩ := hfirst.holds _ hs₁ nofun
  obtain ⟨hmade, hcond⟩ :=
    ((Nests.opens hopen).trans hnests).leaf ho (.bool true) rfl (Nat.le_refl k) hk₂ hspan
  exact nests_whileLoop ho hlo hk₂ hspan ((hs₁.read hfirst.read).step .add) hmade (hcond _ rfl)
    hscope hclose

theorem nesting_loopWhile (ho : tokens.Ordered) (hopen : Opens s frame s₁)
    (hfirst : Known (Nesting tokens) (.extend none {.semicolon, .openBrace} (some cond)) s₁ log s₂)
    (hscope : Known (Nesting tokens) (.scopeAfter "for" keyword scope) s₂ log' s₃)
    (hclose : Closes s₃ s') :
    Nesting tokens (.loop keyword s'.newExpr) s
      (s'.add (.whileLoop cond scope frame) (keyword.span.merge s'.cursor.previousSpan)) := by
  rintro lo hs ⟨k, hlo, hk, hspan, -, -⟩
  have hs₁ := (hs.since (Nat.le_of_lt hk)).step (.opens hopen)
  have hbegun := (Trail.single (.opens hopen)).trans hfirst.read.trail
  obtain ⟨hnests, hanswer⟩ := hfirst.holds _ hs₁ nofun
  exact nests_whileLoop ho hlo (Nat.lt_of_lt_of_le hk hbegun.forward.position) hspan
    (hs₁.read hfirst.read) ((Nests.opens hopen).trans hnests) (hanswer _ rfl) hscope hclose

/-- The parts of the head of a counted loop lie one behind the other, each before a semicolon or
the scope. -/
theorem nesting_loopCounted (ho : tokens.Ordered) {init step : ExprId} (hopen : Opens s frame s₁)
    (hinit : Known (Nesting tokens) (.extend none {.semicolon, .openBrace} (some init)) s₁ log₁ s₂)
    (hcond : Known (Nesting tokens) (.extend none {.semicolon} (some cond)) s₂.next log₂ s₃)
    (hstep : Known (Nesting tokens) (.extend none {.openBrace} (some step)) s₃.next log₃ s₄)
    (hscope : Known (Nesting tokens) (.scopeAfter "for" keyword scope) s₄ log₄ s₅)
    (hclose : Closes s₅ s') :
    Nesting tokens (.loop keyword s'.newExpr) s
      (s'.add (.loop init cond step scope frame)
        (keyword.span.merge s'.cursor.previousSpan)) := by
  intro lo hs hgiven
  have hs₁ := (hs.since (Nat.le_refl _)).step (.opens hopen)
  have hs₂ := (hs₁.read hinit.read).step .next
  have hs₃ := (hs₂.read hcond.read).step .next
  have hs₄ := hs₃.read hstep.read
  obtain ⟨hinit', hinitAt⟩ := hinit.holds _ hs₁ nofun
  obtain ⟨hcond', hcondAt⟩ := hcond.holds _ hs₂ nofun
  obtain ⟨hstep', hstepAt⟩ := hstep.holds _ hs₃ nofun
  obtain ⟨hscope', hscopeAt⟩ := hscope.holds _ hs₄ trivial
  -- what is left to read behind each of the parts
  have hclosed := Trail.single (.closes hclose)
  have hended := hscope.read.trail.trans hclosed
  have hstepped := (Trail.single .next).trans (hstep.read.trail.trans hended)
  have hpassed := (Trail.single .next).trans (hcond.read.trail.trans hstepped)
  have hnests := ((Nests.opens hopen).trans hinit').trans
    ((hcond'.trans hstep').trans (hscope'.trans (.closes hclose)))
  refine Around.close ho hgiven ((hs₄.read hscope.read).step (.closes hclose)) hnests ?_ .nil
  intro c hc
  right
  rcases List.mem_cons.1 hc with rfl | hc
  · exact hpassed.lies (hinitAt _ rfl)
  rcases List.mem_cons.1 hc with rfl | hc
  · exact hstepped.lies (hcondAt _ rfl)
  rcases List.mem_pair.1 hc with rfl | rfl
  · exact hended.lies (hstepAt _ rfl)
  · exact hclosed.lies (hscopeAt _ rfl)

theorem nesting_returns (ho : tokens.Ordered) {value : Option ExprId} {function : EntityId}
    (hvalue : Known (Nesting tokens) (.extend none closing value) s log s') :
    Nesting tokens (.returns keyword closing s'.newExpr) s
      (s'.add (.result value function) (keyword.span.merge s'.cursor.previousSpan)) := by
  intro lo hs hgiven
  have hhere := hs.since (Nat.le_refl _)
  obtain ⟨hnests, hanswer⟩ := hvalue.holds _ hhere nofun
  refine Around.close ho hgiven (hhere.read hvalue.read) hnests ?_ .nil
  exact fun c hc => .inr (hanswer c (Option.mem_toList.1 hc))

/-- The parameters lie in the parentheses of a signature; its result is no expression. -/
theorem nesting_groupParameters (ho : tokens.Ordered) {content : Option ExprId} {result : EntityId}
    (hopen : Opens s frame s₁)
    (hcontent : Known (Nesting tokens) (.extend none {.closeParen} content) s₁ log s₂)
    (hresult : ResultType s₂.next result s₃) (hclose : Closes s₃ s') :
    Nesting tokens (.group paren s'.newExpr) s
      (s'.add (.signature content result frame)
        (paren.span.merge s'.cursor.previousSpan)) := by
  intro lo hs hgiven
  have hs₁ := (hs.since (Nat.le_refl _)).step (.opens hopen)
  have hrest := ((Trail.single .next).trans hresult.trail).trans (.single (.closes hclose))
  obtain ⟨hnests, hanswer⟩ := hcontent.holds _ hs₁ nofun
  have hmade := (Nests.opens hopen).trans (hnests.trans (.same hresult.tree))
  refine Around.close ho hgiven ((hs₁.read hcontent.read).trail hrest)
    (hmade.trans (.closes hclose)) ?_ .nil
  exact fun c hc => .inr (hrest.lies (hanswer c (Option.mem_toList.1 hc)))

/-- A group ends at its closing parenthesis, which is the token before which its content ends. -/
theorem nesting_groupExpression (ho : tokens.Ordered) (hopen : Opens s frame s₁)
    (hcontent : Known (Nesting tokens) (.extend none {.closeParen} (some inner)) s₁ log s₂)
    (hat : s₂.cursor.isAt {.closeParen} = true) (hclose : Closes s₂.next s') :
    Nesting tokens (.group paren s'.newExpr) s
      (s'.add (.group inner) (paren.span.merge s₂.cursor.current.span)) := by
  rintro lo hs ⟨k, hlo, hk, hspan, -, -⟩
  have hs₁ := (hs.since (Nat.le_of_lt hk)).step (.opens hopen)
  have hs₂ := hs₁.read hcontent.read
  obtain ⟨hnests, hanswer⟩ := hcontent.holds _ hs₁ nofun
  have hnext := Cursor.position_advance (Cursor.ne_eof_of_isAt hat (by decide))
  have hend := (Step.closes hclose).forward.position
  have hnests' : Nests tokens _ _ := ((Nests.opens hopen).trans hnests).trans
    (Nests.closes (s := State.next _) hclose)
  have hlt := Nat.lt_of_lt_of_le (Nat.lt_of_lt_of_eq (Nat.lt_succ_self _) hnext.symm) hend
  refine hnests'.add ho ?_ hlo hs₂.le hlt ?_ .nil
  · rw [hspan, hs₂.current, ho.merge_between hs₂.le hs₂.le]
  · intro c hc
    obtain rfl := List.mem_singleton.1 hc
    have hclosed := (Trail.after .next (.single (.closes hclose))).extends
    exact (hanswer _ rfl).mono hclosed (Nat.le_refl _) (Nat.le_succ _)

/-- What a function does before its body is read. -/
theorem Enters.trail {entity : Entity} {name canonical : String}
    (hnamed : s₁ = (s.addEntity entity).bind name s.newEntity)
    (henter : Enters (s₁.bindNew canonical s.newEntity) frame s₂) : ∃ log, Trail s log s₂ := by
  subst hnamed
  have hbind : Step (s.addEntity entity) [⟨s.tree.currentFrame, name, s.newEntity, 0⟩]
      ((s.addEntity entity).bind name s.newEntity) := .bind
  exact ⟨_, .after .addEntity (.cons hbind (Trail.bindNew.trans (.single (.enters henter))))⟩

/-- The signature of a function was read before, behind its name, and the body lies behind it. -/
theorem nesting_function (ho : tokens.Ordered) {name : Token} {header body : ExprId}
    {entity : Entity} {canonical : String} {tree : Tree}
    (hnamed : s₁ = (s.addEntity entity).bind name.text s.newEntity)
    (henter : Enters (s₁.bindNew canonical s.newEntity) frame s₂)
    (hat : ((s₂.inside (.function s.newEntity)).past {.newline}).cursor.isAt {.openBrace} = true)
    (hbody : Known (Nesting tokens)
      (.scopeBody ((s₂.inside (.function s.newEntity)).past {.newline}).cursor.current frame body)
      ((s₂.inside (.function s.newEntity)).past {.newline}).next log s₃)
    (hclose : Closes s₃.outside s₄)
    (hbind : s₄.tree.bindBody s₄.tree.currentFrame s.newEntity body = .ok tree) :
    Nesting tokens (.function name header ⟨tree.exprs.size⟩) s
      (State.add { s₄ with tree } (.function name.text s.newEntity header body)
        (name.span.merge s₄.cursor.previousSpan)) := by
  intro lo hs hgiven
  have hquiet := (Quiet.named hnamed).trans (Quiet.bindNew.trans henter.quiet)
  obtain ⟨_, hhead⟩ := Enters.trail hnamed henter
  have hs₂ : Stands tokens s.cursor.position
      ((s₂.inside (.function s.newEntity)).past {.newline}) :=
    (((hs.since (Nat.le_refl _)).trail hhead).step .inside).step .past
  obtain ⟨hnests, hanswer⟩ := hbody.holds _ (hs₂.step .next)
    (hs₂.take (Cursor.ne_eof_of_isAt hat (by decide)) nofun)
  have hend : Trail s₃ [] { s₄ with tree } :=
    .after .outside (.after (.closes hclose) (.single (.bindBody hbind)))
  have hbound : Nests tokens s₄.tree tree := .bindBody hbind
  have hmade := ((Nests.unchanged hquiet.exprs hhead.extends).trans hnests).trans
    ((Nests.closes (s := s₃.outside) hclose).trans hbound)
  have hs' : Stands tokens s.cursor.position { s₄ with tree } :=
    ((hs₂.step .next).read hbody.read).trail hend
  refine Around.close ho hgiven hs' hmade ?_ .nil
  intro c hc
  rcases List.mem_pair.1 hc with rfl | rfl
  · exact .inl (List.mem_singleton_self _)
  · exact .inr (hend.lies (hanswer _ rfl))

/-- The value of a definition lies behind its name, and the definition after it behind that. -/
theorem nesting_declaration (ho : tokens.Ordered) {name : Token} {op : DefOp}
    {init next : Option ExprId} {type : EntityId}
    (hnext : Known (Nesting tokens) (.nextDefinition closing next)
      (s.install (.var name.text type)) log s') :
    Nesting tokens (.declaration name op init type closing s'.newExpr) s
      (s'.add (.definition name.text op init s.newEntity next)
        (name.span.merge s'.cursor.previousSpan)) := by
  intro lo hs hgiven
  have hnew : Trail s [⟨_, name.text, s.newEntity, 0⟩] (s.install (.var name.text type)) :=
    .install rfl
  have hs₁ := (hs.since (Nat.le_refl _)).trail hnew
  obtain ⟨hnests, hanswer⟩ := hnext.holds _ hs₁ trivial
  have hmade := (Nests.unchanged (Quiet.named rfl).exprs hnew.extends).trans hnests
  refine Around.close ho hgiven (hs₁.read hnext.read) hmade ?_ .nil
  intro c hc
  exact (List.mem_append.1 hc).imp id fun hc => hanswer c (Option.mem_toList.1 hc)

/-- A definition is what its value and then the production of its sort make. -/
theorem nesting_definition {name symbol : Token} {op : DefOp} {type : Option EntityId}
    {init : Option ExprId} {id : ExprId} {φ : Phrase} (htype : DeclaredType op s type s₁)
    (hinit : Known (Nesting tokens) (.initialValue op symbol (closing ∪ {.comma}) init) s₁ log s₂)
    (hmade : Nesting tokens φ s₂ s')
    (hgiven' : ∀ lo, Around tokens s₂.tree lo s₂.cursor.position name [] init.toList →
      φ.Given tokens lo s₂)
    (hanswer' : ∀ lo, φ.Answered tokens lo s' →
      (Phrase.definition name symbol closing id).Answered tokens lo s') :
    Nesting tokens (.definition name symbol closing id) s s' := by
  intro lo hs hgiven
  have hs₁ := hs.trail htype.trail
  obtain ⟨hnests, -⟩ := hinit.holds lo hs₁ trivial
  have hvalue := Around.value hgiven htype hinit.read fun k hk =>
    (hinit.holds k (hs₁.since (Nat.le_trans hk htype.trail.forward.position)) trivial).2
  obtain ⟨hnests', hanswer⟩ := hmade lo (hs₁.read hinit.read) (hgiven' lo hvalue)
  exact ⟨(Nests.same htype.tree).trans (hnests.trans hnests'), hanswer' lo hanswer⟩

theorem nesting_record (ho : tokens.Ordered) {body : List ExprId} {form : RecordForm}
    (hopen : Opens (s.past {.newline}).next frame s₁)
    (hbody : Known (Nesting tokens) (.sequence #[] {.closeBrace} body) (s₁.inside .record) log s₂)
    (hclose : Closes s₂.outside s') :
    Nesting tokens (.record keyword s'.newExpr) s
      (s'.add (.record form body frame) (keyword.span.merge s'.cursor.previousSpan)) := by
  intro lo hs hgiven
  have hs₀ : Stands tokens s.cursor.position (s.past {.newline}) :=
    (hs.since (Nat.le_refl _)).step .past
  have hs₁ := ((hs₀.step .next).step (.opens hopen)).step (.inside (c := .record))
  obtain ⟨hnests, hrow⟩ := hbody.holds _ hs₁ .nil
  have hend : Trail s₂ [] s' := .after .outside (.single (.closes hclose))
  have hmade := (Nests.opens hopen).trans
    (hnests.trans (Nests.closes (s := s₂.outside) hclose))
  have hrow' := Tree.Row.mono hrow hend.extends (Nat.le_refl _) hend.forward.position
  exact Around.close ho hgiven ((hs₁.read hbody.read).trail hend) hmade
    (fun c hc => .inr (hrow'.lies c hc)) hrow'.precedes

/-- The definition of a record spans from its name to the end of the record. -/
theorem nesting_typedef (ho : tokens.Ordered) {name : Token} {op : DefOp} {body : ExprId}
    {form : RecordForm} {members : List ExprId} {span : Span}
    (hexpr : s.tree.expr? body = some ⟨.record form members frame, span⟩) :
    Nesting tokens (.typedef name op body s.newExpr) s
      ((s.install (recordEntity name.text form frame)).add
        (.typedef name.text op body s.newEntity) (name.span.merge span)) := by
  rintro lo hs ⟨k, hlo, hk, hspan, -, hbehind⟩
  obtain ⟨e, i, j, he, hspan', hi, hij, hj⟩ := hbehind _ (List.mem_singleton_self _)
  obtain rfl := Option.some.inj (hexpr.symm.trans he)
  have hnew : Trail s [⟨_, name.text, s.newEntity, 0⟩]
      (s.install (recordEntity name.text form frame)) := .install (recordEntity_name _ _ _)
  have hmade : Nests tokens s.tree _ := .unchanged (Quiet.named rfl).exprs hnew.extends
  refine hmade.add ho ?_ hlo (by omega : k ≤ j) hj ?_ .nil
  · rw [hspan, show span = _ from hspan', ho.merge_between (by omega) (by omega)]
  · intro c hc
    obtain rfl := List.mem_singleton.1 hc
    exact ⟨_, i, j, hmade.grows.expr hexpr, hspan', by omega, hij, Nat.lt_succ_self j⟩

theorem nesting_member (ho : tokens.Ordered) {base : ExprId} {dot : Token} {entity : EntityId}
    {e : Expr} (hat : s.cursor.isAt {.name} = true) (hexpr : s.tree.expr? base = some e) :
    Nesting tokens (.member base dot s.newExpr) s
      (s.next.add (.member base s.cursor.current.text entity)
        (e.span.merge s.cursor.current.span)) := by
  rintro lo hs ⟨k, hlo, hk, hspan, hbefore, -⟩
  obtain ⟨e', i, j, he, hspan', hi, hij, hj⟩ := hbefore _ (List.mem_singleton_self _)
  obtain rfl := Option.some.inj (hexpr.symm.trans he)
  have hnext : s.next.cursor.position = s.cursor.position + 1 :=
    Cursor.position_advance (Cursor.ne_eof_of_isAt hat (by decide))
  have hlast : i ≤ s.cursor.position := by omega
  refine Nests.add (s := s.next) ho .refl ?_ hi hlast (by omega) ?_ .nil
  · rw [hspan', hs.current, ho.merge_between (by omega) (by omega)]
  · intro c hc
    obtain rfl := List.mem_singleton.1 hc
    exact ⟨_, i, j, hexpr, hspan', Nat.le_refl i, hij, by omega⟩

end Productions

/-- Whatever a production makes has its parts inside it, and its answer lies before the cursor. -/
theorem Reads.nests (ho : tokens.Ordered) (h : Reads φ s log s') : Nesting tokens φ s s' := by
  induction h with
  | stepClosing | elseNone | nextNone | initialNone | typeName | argumentsNil =>
    exact fun _ _ _ => ⟨.refl, nofun⟩
  | stepPrefix _ hat _ ih =>
    intro lo hs hgiven
    exact ih lo (hs.step .next) (hs.take (Cursor.ne_eof_of_isAt hat (by decide)) nofun)
  | stepPostfix _ hat _ ih =>
    intro lo hs hgiven
    have hkind := Cursor.ne_eof_of_isAt hat (by decide)
    exact ih lo (hs.step .next) (hs.take hkind hgiven)
  | stepNewline =>
    intro lo hs hgiven
    refine ⟨.refl, fun x hx => ?_⟩
    exact (hgiven x (Option.mem_toList.2 hx)).mono .refl (Nat.le_refl _)
      Cursor.forward_advance.position
  | stepOperator _ _ hkind _ ih =>
    intro lo hs hgiven
    refine ih lo (hs.step .next) (hs.take ?_ hgiven)
    intro heof
    rw [heof] at hkind
    exact absurd hkind (by decide)
  | stepOperand _ _ hat _ _ _ _ ih =>
    intro lo hs hgiven
    have hkind := Cursor.ne_eof_of_isAt hat (by decide)
    exact ih lo (hs.step .next) (hs.take hkind hgiven)
  | operand hbegins _ ih =>
    intro lo hs hgiven
    obtain ⟨hnests, hanswer⟩ := ih lo hs (hbegins.given hgiven)
    exact ⟨hnests, hbegins.answered.1 hanswer⟩
  | extendClosing | extendBrace =>
    exact fun _ _ hgiven => ⟨.refl, fun x hx => hgiven x (Option.mem_toList.2 hx)⟩
  | extendStep _ _ _ hstep _ ih ih' => exact nesting_extendStep ⟨hstep, ih⟩ ih'
  | @sequenceClosing _ _ s =>
    intro lo hs hgiven
    have hend : Trail s [] (s.past separators).next := .after .past (.single .next)
    exact ⟨.refl, Tree.Row.mono hgiven .refl (Nat.le_refl _) hend.forward.position⟩
  | sequenceItem _ _ hitem _ ih ih' => exact nesting_sequenceItem ho ⟨hitem, ih⟩ ih'
  | literal hnode =>
    rintro lo hs ⟨k, hlo, hk, hspan, -, -⟩
    cases hnode <;> exact Nests.refl.leaf ho _ rfl hlo hk hspan
  | nameUse =>
    rintro lo hs ⟨k, hlo, hk, hspan, -, -⟩
    exact Nests.refl.leaf ho _ rfl hlo hk hspan
  | prefixOperation _ hstep _ hexpr ih => exact nesting_prefixOperation ho ⟨hstep, ih⟩ hexpr
  | postfixOperation _ _ hexpr => exact nesting_postfixOperation ho hexpr
  | binaryOperation _ hright _ hl hr ih => exact nesting_binaryOperation ho ⟨hright, ih⟩ hl hr
  | argumentsCons hvalue _ _ _ hseparates hrest hexpr ih ih' =>
    exact nesting_argumentsCons ho ⟨hvalue, ih⟩ hseparates ⟨hrest, ih'⟩ hexpr
  | call _ _ _ hargs hexpr ih => exact nesting_call ho ⟨hargs, ih⟩ hexpr
  | structLiteral _ _ hargs hexpr ih => exact nesting_structLiteral ho ⟨hargs, ih⟩ hexpr
  | scopeBody hbody ih => exact nesting_scopeBody ho ⟨hbody, ih⟩
  | scope hopen hbody hclose ih =>
    intro lo hs hgiven
    obtain ⟨hnests, hanswer⟩ :=
      ih lo (hs.step (.opens hopen)) (Around.trail hgiven (.single (.opens hopen)))
    refine ⟨((Nests.opens hopen).trans hnests).trans (.closes hclose), ?_⟩
    exact fun x hx => Trail.lies (.single (.closes hclose)) (hanswer x hx)
  | @scopeAfter _ _ _ _ s _ hat hscope ih =>
    intro lo hs hgiven
    have hpast : Stands tokens lo (s.past {.newline}) := hs.step .past
    exact ih lo (hpast.step .next) (hpast.take (Cursor.ne_eof_of_isAt hat (by decide)) nofun)
  | elseSome hat hscope ih => exact fun lo hs _ => ih lo (hs.step .next) trivial
  | branch hopen hcond _ hthen helse hclose ih ih' ih'' =>
    exact nesting_branch ho hopen ⟨hcond, ih⟩ ⟨hthen, ih'⟩ ⟨helse, ih''⟩ hclose
  | loopEndless hopen hfirst _ _ hscope hclose ih ih' =>
    exact nesting_loopEndless ho hopen ⟨hfirst, ih⟩ ⟨hscope, ih'⟩ hclose
  | loopWhile hopen hfirst _ _ hscope hclose ih ih' =>
    exact nesting_loopWhile ho hopen ⟨hfirst, ih⟩ ⟨hscope, ih'⟩ hclose
  | loopCounted hopen hinit _ _ hcond _ _ hstep hscope hclose ih₁ ih₂ ih₃ ih₄ =>
    exact nesting_loopCounted ho hopen ⟨hinit, ih₁⟩ ⟨hcond, ih₂⟩ ⟨hstep, ih₃⟩ ⟨hscope, ih₄⟩ hclose
  | returns _ _ hvalue _ _ ih => exact nesting_returns ho ⟨hvalue, ih⟩
  | groupParameters hopen hcontent _ _ hresult hclose ih =>
    exact nesting_groupParameters ho hopen ⟨hcontent, ih⟩ hresult hclose
  | groupExpression hopen hcontent hat _ _ hclose ih =>
    exact nesting_groupExpression ho hopen ⟨hcontent, ih⟩ hat hclose
  | function _ _ _ hnamed henter hat hbody hclose hbind ih =>
    exact nesting_function ho hnamed henter hat ⟨hbody, ih⟩ hclose hbind
  | nextSome _ _ _ _ ih => exact fun lo hs _ => ih lo ((hs.step .next).step .past) nofun
  | declaration hnext ih => exact nesting_declaration ho ⟨hnext, ih⟩
  | initialConstant _ ih => exact fun lo hs _ => ih lo hs nofun
  | initialSome _ _ ih => exact fun lo hs _ => ih lo (hs.step .next) nofun
  | definitionFunction _ _ htype hinit _ _ _ _ ih ih'
  | definitionRecord _ _ htype hinit _ _ _ _ ih ih'
  | definitionVariable _ _ htype hinit _ _ _ _ ih ih' =>
    exact nesting_definition htype ⟨hinit, ih⟩ ih' (fun _ h => h) fun _ h => h
  | nameDefinition _ _ ih =>
    exact fun lo hs hgiven => ih lo (hs.step .next) (Around.trail hgiven (.single .next))
  | nameAlone _ _ ih => exact ih
  | record _ hopen hbody _ hclose ih => exact nesting_record ho hopen ⟨hbody, ih⟩ hclose
  | typedef hexpr => exact nesting_typedef ho hexpr
  | member hat _ _ _ _ _ hexpr => exact nesting_member ho hat hexpr

/-! ## Whole sources -/

/-- In the tree of tokens that are in order, every expression spans tokens and has its parts
inside it. -/
theorem spanned_of_parse (ho : tokens.Ordered) {tree : Tree} (h : parse tokens = .ok tree)
    {e : Expr} (he : tree.expr? id = some e) : tree.Spanned tokens e := by
  obtain ⟨body, log, s, hread, rfl⟩ := parse_reads h
  have hs : Stands tokens 0 (.initial tokens) := ⟨rfl, Nat.le_refl 0⟩
  obtain ⟨hnests, hrow⟩ := hread.nests ho 0 hs .nil
  -- the main scope spans all tokens from the first on, which may be the mark of the end
  have hspan : (Cursor.start tokens).current.span.merge s.cursor.previousSpan =
      tokens.between 0 (s.cursor.position - 1) := by
    rw [(hs.read hread).previous]
    exact ho.merge_between (Nat.zero_le _) (Nat.zero_le _)
  have hmain : Nests tokens Tree.withBuiltins (s.add (.scope body Tree.mainFrame)
      ((Cursor.start tokens).current.span.merge s.cursor.previousSpan)).tree :=
    hnests.push ho hspan (Nat.zero_le _)
      (fun c hc => (hrow.lies c hc).mono .refl (Nat.le_refl 0) (by omega)) hrow.precedes
  have hfinished : Nests tokens _ (s.finished (Cursor.start tokens).current.span body).tree :=
    hmain.trans (.unchanged rfl (setMainScope_evolves (some s.newExpr)).toExtends)
  rcases hfinished.spanned he with hold | hnew
  · cases hold
  · exact hnew

/-- The span of every expression of an accepted source goes from the begin of a token to the end
of one, and it covers the spans of all parts of the expression but the argument behind an
argument. The expressions of a scope and of a record follow one another, as do the operands of
an operator. -/
theorem spans_nest {source : String} {tree : Tree} (h : parseSource source = .ok tree) :
    ∃ tokens, Lexicon.tokenize source.toList = .ok tokens ∧
      ∀ id e, tree.expr? id = some e →
        e.span.Cuts source.toList ∧ e.span.stop ≤ Text.byteLength source.toList ∧
        (∃ a ∈ tokens.toList, ∃ b ∈ tokens.toList,
          e.span.start = a.span.start ∧ e.span.stop = b.span.stop) ∧
        (∀ c ∈ e.node.covered, ∃ x, tree.expr? c = some x ∧
          e.span.start ≤ x.span.start ∧ x.span.stop ≤ e.span.stop) ∧
        (∀ body frame, e.node = .scope body frame → body.Pairwise tree.Precedes) ∧
        (∀ form body frame, e.node = .record form body frame → body.Pairwise tree.Precedes) ∧
        ∀ op type left right, e.node = .binary op type left right → tree.Precedes left right := by
  obtain ⟨tokens, htokens, hparse⟩ := parseSource_ok h
  obtain ⟨hlaid, hlast⟩ := Lexicon.tokenize_laid htokens
  have ho := hlaid.tokens_ordered (by rw [hlast])
  refine ⟨tokens, htokens, ?_⟩
  intro id e he
  obtain ⟨⟨i, j, hij, hspan⟩, hcovers, hrow⟩ := spanned_of_parse ho hparse he
  have hcuts : e.span.Cuts source.toList := by
    rw [hspan]
    exact ⟨(hlaid.cuts _ (tokens.get_mem i)).start,
      Nat.le_trans (ho.le i) (ho.stop_le hij), (hlaid.cuts _ (tokens.get_mem j)).stop⟩
  refine ⟨hcuts, hcuts.stop.le, ?_, hcovers, ?_, ?_, ?_⟩
  · exact ⟨_, tokens.get_mem i, _, tokens.get_mem j, by rw [hspan]; exact ⟨rfl, rfl⟩⟩
  · intro body frame hnode
    rwa [hnode] at hrow
  · intro form body frame hnode
    rwa [hnode] at hrow
  · intro op type left right hnode
    rw [hnode] at hrow
    exact List.pairwise_pair.1 hrow

/-- The parentheses of a product cover the sum in them, which ends before the factor begins. -/
theorem spans_nest_sum : ∃ tree group factor x y,
    parseSource "(1 + 2) * 3\n" = .ok tree ∧ tree.Precedes ⟨3⟩ ⟨4⟩ ∧
      tree.expr? ⟨3⟩ = some ⟨.group ⟨2⟩, group⟩ ∧ tree.expr? ⟨4⟩ = some ⟨.int 3 4, factor⟩ ∧
      tree.expr? ⟨2⟩ = some ⟨x, y⟩ ∧ group.start ≤ y.start ∧ y.stop ≤ group.stop := by
  have hrun : (parseSource "(1 + 2) * 3\n").toOption.any (fun tree =>
      decide ((tree.expr? ⟨3⟩).map Expr.node = some (.group ⟨2⟩) ∧
        (tree.expr? ⟨4⟩).map Expr.node = some (.int 3 4) ∧
        (tree.expr? ⟨5⟩).map Expr.node =
          some (.binary .mul Builtin.s32.handle ⟨3⟩ ⟨4⟩))) = true := by decide +kernel
  obtain ⟨tree, hparse, hcheck⟩ := exists_parse hrun
  obtain ⟨hgroup, hfactor, hproduct⟩ := of_decide_eq_true hcheck
  obtain ⟨group, hgroup⟩ := exists_span hgroup
  obtain ⟨factor, hfactor⟩ := exists_span hfactor
  obtain ⟨_, hproduct⟩ := exists_span hproduct
  obtain ⟨_, _, hnested⟩ := spans_nest hparse
  obtain ⟨_, _, _, hcovers, _⟩ := hnested _ _ hgroup
  obtain ⟨⟨x, y⟩, hsum, hinside⟩ := hcovers ⟨2⟩ (List.mem_singleton_self _)
  have hprecedes := (hnested _ _ hproduct).2.2.2.2.2.2 _ _ _ _ rfl
  exact ⟨tree, group, factor, x, y, hparse, hprecedes, hgroup, hfactor, hsum, hinside⟩

end OnePass.Grammar

import OnePass.Proofs.Origin

/-!
# What readings build

Which parts a reading is put together from is said once (`Builds`), so that a relation between
trees holds of all readings if it holds of these parts. Each production that reads something has a
lemma over what is `Known` of the phrases that it reads, and `Reads.building` is the induction that
puts them together. Origins and forests are such a relation (`Grows.builds`), and they are there in
every source that is accepted (`origin_of_parse`, `forest_of_parse`).
-/

namespace OnePass.Grammar

variable {s s₁ s₂ s' : State} {t t₁ t' : Tree} {frame : FrameId} {log : List Binding}
  {φ : Phrase} {id : ExprId} {e : Expr} {roots roots' : List ExprId}

/-! ## Relations that readings build -/

/-- A relation between what is loose in one tree and in a later one, which takes account of the
constructs that are being read, holds of a whole reading once it holds of each of its parts. -/
structure Builds (R : List Construct → Tree → List ExprId → Tree → List ExprId → Prop) :
    Prop where
  refl : ∀ {c t roots}, R c t roots t roots
  trans : ∀ {c t t₁ t' roots roots₁ roots'}, R c t roots t₁ roots₁ → R c t₁ roots₁ t' roots' →
    R c t roots t' roots'
  more : ∀ {c t t₁ t' roots roots₁ roots'}, R c t roots t₁ roots₁ → R c t₁ [] t' roots' →
    R c t roots t' (roots₁ ++ roots')
  quiet : ∀ {c t t' roots}, Quiet t t' → t.Evolves t' → R c t roots t' roots
  bindBody : ∀ {c t t' roots function body}, t.Sound →
    t.bindBody t.currentFrame function body = .ok t' → t.HasEntity function → t.HasExpr body →
    R c t roots t' roots
  push : ∀ {c t e}, Origin (t.pushExpr e).2 ⟨t.exprs.size⟩ e → e.node.Plain c →
    R c t e.node.children (t.pushExpr e).2 [⟨t.exprs.size⟩]
  literal : ∀ {c t base name type args span} {e : Expr}, e.node = .structLiteral type args →
    Origin (t.pushExpr e).2 ⟨t.exprs.size⟩ e → t.expr? base = some ⟨.name name (some type), span⟩ →
    R c t (base :: args.toList) (t.pushExpr e).2 [⟨t.exprs.size⟩]
  function : ∀ {c t t' name function header body} {e : Expr},
    e.node = .function name function header body →
    Origin (t'.pushExpr e).2 ⟨t'.exprs.size⟩ e → R (.function function :: c) t [] t' [body] →
    R c t [header] (t'.pushExpr e).2 [⟨t'.exprs.size⟩]
  record : ∀ {c t t' form body frame} {e : Expr}, e.node = .record form body frame →
    Origin (t'.pushExpr e).2 ⟨t'.exprs.size⟩ e → R (.record :: c) t [] t' body →
    R c t [] (t'.pushExpr e).2 [⟨t'.exprs.size⟩]

namespace Builds

variable {R : List Construct → Tree → List ExprId → Tree → List ExprId → Prop}
  {c : List Construct}

theorem opens (hR : Builds R) (h : Opens s frame s') (hs : s.tree.Sound) :
    R c s.tree roots s'.tree roots := hR.quiet h.quiet (h.evolves hs)

theorem closes (hR : Builds R) (h : Closes s s') : R c s.tree roots s'.tree roots :=
  hR.quiet h.quiet h.evolves

/-- A tree with the same contents. -/
theorem same (hR : Builds R) (h : t' = t) : R c t roots t' roots := h ▸ hR.refl

/-- A production makes a node of what has been read. -/
theorem add (hR : Builds R) {node : Node} {span : Span} (h : R c t roots s'.tree node.children)
    (horigin : Origin (s'.add node span).tree s'.newExpr ⟨node, span⟩) (hplain : node.Plain c) :
    R c t roots (s'.add node span).tree [s'.newExpr] :=
  hR.trans h (hR.push horigin hplain)

end Builds

/-! ## One production after the other -/

/-- The tree is sound, and the constructs `c` are being read. -/
structure Amid (c : List Construct) (s : State) : Prop where
  sound : s.tree.Sound
  constructs : s.constructs = c

namespace Amid

variable {c : List Construct}

theorem next (h : Amid c s) : Amid c s.next := ⟨h.sound, h.constructs⟩

theorem opens (h : Amid c s) (hopen : Opens s frame s') : Amid c s' :=
  ⟨hopen.sound h.sound, hopen.constructs.trans h.constructs⟩

theorem read (h : Amid c s) (hread : Reads φ s log s') (hfits : φ.Fits s.tree) : Amid c s' :=
  ⟨hread.sound h.sound hfits, hread.constructs.trans h.constructs⟩

theorem declared (h : Amid c s) {op : DefOp} {type : Option EntityId}
    (htype : DeclaredType op s type s') : Amid c s' :=
  ⟨htype.tree.symm ▸ h.sound, htype.constructs.trans h.constructs⟩

theorem separated (h : Amid c s) {rest : List EntityId} {closing : TokenSet}
    (hseparates : Separates rest closing s s') : Amid c s' :=
  ⟨hseparates.tree.symm ▸ h.sound, hseparates.constructs.trans h.constructs⟩

end Amid

/-- Whatever constructs it is read in, the phrase builds a relation of what it is given. -/
def Building (R : List Construct → Tree → List ExprId → Tree → List ExprId → Prop) (φ : Phrase)
    (s s' : State) : Prop :=
  ∀ c, Amid c s → φ.Fits s.tree → φ.Placed s → R c s.tree φ.loose s'.tree φ.answers

section Productions

variable {R : List Construct → Tree → List ExprId → Tree → List ExprId → Prop}
  {s₃ s₄ s₅ : State} {log' log'' log₁ log₂ log₃ log₄ : List Binding} {closing : TokenSet}
  {keyword paren : Token} {cond scope inner : ExprId}

theorem building_extendStep (hR : Builds R) {left next answer : Option ExprId}
    (hstep : Known (Building R) (.step left closing next) s log s₁)
    (hrest : Building R (.extend (next.or left) closing answer) s₁ s') :
    Building R (.extend left closing answer) s s' := by
  intro c hs hfits _
  refine hR.trans (hstep.holds c hs hfits trivial) (hrest c (hs.read hstep.read hfits) ?_ trivial)
  intro l hl
  cases next with
  | none => exact hstep.read.extends.hasExpr (hfits l hl)
  | some next => exact hstep.read.hasExpr hfits hl

/-- An item is loose behind those before it. -/
theorem building_sequenceItem (hR : Builds R) {body : Array ExprId} {item : Option ExprId}
    {answer : List ExprId}
    (hitem : Known (Building R) (.extend none (separators ∪ closing) item)
      (s.past separators) log s₁)
    (hrest : Building R (.sequence (item.elim body body.push) closing answer) s₁ s') :
    Building R (.sequence body closing answer) s s' := by
  intro c hs hfits _
  have hpast : Amid c (s.past separators) := ⟨hs.sound, hs.constructs⟩
  have hitems : ∀ b ∈ item.elim body body.push, _ := hasExpr_item
    (fun b hb => hitem.read.extends.hasExpr (hfits b hb)) fun i hi => hitem.read.made rfl hi
  have hbegun : R c s.tree body.toList s₁.tree (body.toList ++ item.toList) :=
    hR.more hR.refl (hitem.holds c hpast nofun trivial)
  rw [← toList_item] at hbegun
  exact hR.trans hbegun (hrest c (hpast.read hitem.read nofun) hitems trivial)

theorem building_argumentsCons (hR : Builds R) {param : EntityId} {rest : List EntityId}
    {value : ExprId} {next : Option ExprId} {span : Span}
    (hvalue : Known (Building R) (.extend none ({.comma} ∪ closing) (some value))
      (s.past {.newline}) log s₁)
    (hseparates : Separates rest closing s₁ s₂)
    (hrest : Known (Building R) (.arguments closing rest next) s₂ log' s')
    (hread : Reads (.arguments closing (param :: rest) (some s'.newExpr)) s (log ++ log')
      (s'.add (.argument value next) span)) :
    Building R (.arguments closing (param :: rest) (some s'.newExpr)) s
      (s'.add (.argument value next) span) := by
  intro c hs hfits hplaced
  have hpast : Amid c (s.past {.newline}) := ⟨hs.sound, hs.constructs⟩
  have hs₁ := hpast.read hvalue.read nofun
  have hgrows := hvalue.read.extends.trans hseparates.trail.extends
  have hrest' := hrest.holds c (hs₁.separated hseparates)
    (fun p hp => hgrows.hasEntity (hfits p (List.mem_cons_of_mem _ hp))) trivial
  rw [hseparates.tree] at hrest'
  exact hR.add (hR.more (hvalue.holds c hpast nofun trivial) hrest')
    (hread.origin hs.sound hfits hplaced rfl) trivial

/-- The parts of a branch are built one after the other in its frame. -/
theorem building_branch (hR : Builds R) {thenScope : ExprId} {elseScope : Option ExprId}
    {span : Span} (hopen : Opens s frame s₁)
    (hcond : Known (Building R) (.extend none {.openBrace} (some cond)) s₁ log s₂)
    (hthen : Known (Building R) (.scopeAfter "if" keyword thenScope) s₂ log' s₃)
    (helse : Known (Building R) (.elseScope elseScope) s₃ log'' s₄) (hclose : Closes s₄ s')
    (hread : Reads (.branch keyword s'.newExpr) s (log ++ log' ++ log'')
      (s'.add (.branch cond thenScope elseScope frame) span)) :
    Building R (.branch keyword s'.newExpr) s
      (s'.add (.branch cond thenScope elseScope frame) span) := by
  intro c hs hfits hplaced
  have hs₁ := hs.opens hopen
  have hs₂ := hs₁.read hcond.read nofun
  have hs₃ := hs₂.read hthen.read trivial
  have hcond' := hR.trans (hR.opens hopen hs.sound) (hcond.holds c hs₁ nofun trivial)
  have hthen' := hR.more hcond' (hthen.holds c hs₂ trivial trivial)
  have helse' := hR.more hthen' (helse.holds c hs₃ trivial trivial)
  exact hR.add (hR.trans helse' (hR.closes hclose)) (hread.origin hs.sound hfits hplaced rfl)
    trivial

/-- The condition of an endless loop is made up: nothing was read for it. -/
theorem building_loopEndless (hR : Builds R) {span : Span} (hopen : Opens s frame s₁)
    (hfirst : Known (Building R) (.extend none {.semicolon, .openBrace} none) s₁ log s₂)
    (hscope : Known (Building R) (.scopeAfter "for" keyword scope)
      (s₂.add (.bool true) keyword.span) log' s₃)
    (hclose : Closes s₃ s')
    (hread : Reads (.loop keyword s'.newExpr) s (log ++ log')
      (s'.add (.whileLoop s₂.newExpr scope frame) span)) :
    Building R (.loop keyword s'.newExpr) s
      (s'.add (.whileLoop s₂.newExpr scope frame) span) := by
  intro c hs hfits hplaced
  have hs₁ := hs.opens hopen
  have hs₂ := hs₁.read hfirst.read nofun
  have hmade : Amid c (s₂.add (.bool true) keyword.span) :=
    ⟨hs₂.sound.pushExpr ⟨nofun, nofun, nofun, trivial⟩, hs₂.constructs⟩
  have hfirst' := hR.trans (hR.opens hopen hs.sound) (hfirst.holds c hs₁ nofun trivial)
  have hcond' : R c s.tree [] (s₂.add (.bool true) keyword.span).tree [s₂.newExpr] :=
    hR.add hfirst' .endless trivial
  have hscope' := hR.more hcond' (hscope.holds c hmade trivial trivial)
  exact hR.add (hR.trans hscope' (hR.closes hclose)) (hread.origin hs.sound hfits hplaced rfl)
    trivial

theorem building_loopWhile (hR : Builds R) {span : Span} (hopen : Opens s frame s₁)
    (hfirst : Known (Building R) (.extend none {.semicolon, .openBrace} (some cond)) s₁ log s₂)
    (hscope : Known (Building R) (.scopeAfter "for" keyword scope) s₂ log' s₃)
    (hclose : Closes s₃ s')
    (hread : Reads (.loop keyword s'.newExpr) s (log ++ log')
      (s'.add (.whileLoop cond scope frame) span)) :
    Building R (.loop keyword s'.newExpr) s (s'.add (.whileLoop cond scope frame) span) := by
  intro c hs hfits hplaced
  have hs₁ := hs.opens hopen
  have hs₂ := hs₁.read hfirst.read nofun
  have hcond' := hR.trans (hR.opens hopen hs.sound) (hfirst.holds c hs₁ nofun trivial)
  have hscope' := hR.more hcond' (hscope.holds c hs₂ trivial trivial)
  exact hR.add (hR.trans hscope' (hR.closes hclose)) (hread.origin hs.sound hfits hplaced rfl)
    trivial

theorem building_loopCounted (hR : Builds R) {init step : ExprId} {span : Span}
    (hopen : Opens s frame s₁)
    (hinit : Known (Building R) (.extend none {.semicolon, .openBrace} (some init)) s₁ log₁ s₂)
    (hcond : Known (Building R) (.extend none {.semicolon} (some cond)) s₂.next log₂ s₃)
    (hstep : Known (Building R) (.extend none {.openBrace} (some step)) s₃.next log₃ s₄)
    (hscope : Known (Building R) (.scopeAfter "for" keyword scope) s₄ log₄ s₅)
    (hclose : Closes s₅ s')
    (hread : Reads (.loop keyword s'.newExpr) s (log₁ ++ log₂ ++ log₃ ++ log₄)
      (s'.add (.loop init cond step scope frame) span)) :
    Building R (.loop keyword s'.newExpr) s (s'.add (.loop init cond step scope frame) span) := by
  intro c hs hfits hplaced
  have hs₁ := hs.opens hopen
  have hs₂ := (hs₁.read hinit.read nofun).next
  have hs₃ := (hs₂.read hcond.read nofun).next
  have hs₄ := hs₃.read hstep.read nofun
  have hinit' := hR.trans (hR.opens hopen hs.sound) (hinit.holds c hs₁ nofun trivial)
  have hcond' := hR.more hinit' (hcond.holds c hs₂ nofun trivial)
  have hstep' := hR.more hcond' (hstep.holds c hs₃ nofun trivial)
  have hscope' := hR.more hstep' (hscope.holds c hs₄ trivial trivial)
  exact hR.add (hR.trans hscope' (hR.closes hclose)) (hread.origin hs.sound hfits hplaced rfl)
    trivial

theorem building_groupParameters (hR : Builds R) {content : Option ExprId} {result : EntityId}
    {span : Span} (hopen : Opens s frame s₁)
    (hcontent : Known (Building R) (.extend none {.closeParen} content) s₁ log s₂)
    (hresult : ResultType s₂.next result s₃) (hclose : Closes s₃ s')
    (hread : Reads (.group paren s'.newExpr) s log
      (s'.add (.signature content result frame) span)) :
    Building R (.group paren s'.newExpr) s (s'.add (.signature content result frame) span) := by
  intro c hs hfits hplaced
  have hcontent' := hcontent.holds c (hs.opens hopen) nofun trivial
  have hopened :=
    hR.trans (hR.trans (hR.opens hopen hs.sound) hcontent') (hR.same hresult.tree)
  exact hR.add (hR.trans hopened (hR.closes hclose)) (hread.origin hs.sound hfits hplaced rfl)
    trivial

theorem building_groupExpression (hR : Builds R) {span : Span} (hopen : Opens s frame s₁)
    (hcontent : Known (Building R) (.extend none {.closeParen} (some inner)) s₁ log s₂)
    (hclose : Closes s₂.next s')
    (hread : Reads (.group paren s'.newExpr) s log (s'.add (.group inner) span)) :
    Building R (.group paren s'.newExpr) s (s'.add (.group inner) span) := by
  intro c hs hfits hplaced
  have hcontent' := hcontent.holds c (hs.opens hopen) nofun trivial
  have hclosed := hR.trans (hR.trans (hR.opens hopen hs.sound) hcontent')
    (hR.closes (s := State.next _) hclose)
  exact hR.add hclosed (hread.origin hs.sound hfits hplaced rfl) trivial

/-- Nothing is loose in the body of a function: the header stays outside. -/
theorem building_function (hR : Builds R) {name : Token} {header body : ExprId}
    {params? : Option ExprId} {params : List EntityId} {result : EntityId} {canonical : String}
    {span span' : Span} {tree : Tree}
    (hexpr : s.tree.expr? header = some ⟨.signature params? result frame, span⟩)
    (hparams : s.tree.variables? frame = some params)
    (hnamed : s₁ = (s.addEntity ⟨canonical, .function params result⟩).bind name.text s.newEntity)
    (henter : Enters (s₁.bindNew canonical s.newEntity) frame s₂)
    (hbody : Known (Building R)
      (.scopeBody ((s₂.inside (.function s.newEntity)).past {.newline}).cursor.current frame body)
      ((s₂.inside (.function s.newEntity)).past {.newline}).next log s₃)
    (hclose : Closes s₃.outside s₄)
    (hbind : s₄.tree.bindBody s₄.tree.currentFrame s.newEntity body = .ok tree)
    (hread : Reads (.function name header ⟨tree.exprs.size⟩) s log'
      (State.add { s₄ with tree } (.function name.text s.newEntity header body) span')) :
    Building R (.function name header ⟨tree.exprs.size⟩) s
      (State.add { s₄ with tree } (.function name.text s.newEntity header body) span') := by
  intro c hs hfits hplaced
  obtain ⟨hs₂, hevolves, hentity⟩ := sound_enters hs.sound hexpr hparams hnamed henter
  have hs₄ := hclose.sound (hbody.read.sound hs₂ trivial)
  have hquiet := (Quiet.named hnamed).trans (Quiet.bindNew.trans henter.quiet)
  have hc₂ : s₂.constructs = c := by
    rw [henter.constructs, State.bindNew_constructs, hnamed]
    exact hs.constructs
  have hinside : Amid (.function s.newEntity :: c)
      ((s₂.inside (.function s.newEntity)).past {.newline}).next :=
    ⟨hs₂, congrArg (Construct.function s.newEntity :: ·) hc₂⟩
  have hbody' := hR.trans (hbody.holds _ hinside trivial henter.current)
    (hR.closes (s := State.outside _) hclose)
  have hthere := hbody.read.extends.trans hclose.evolves.toExtends
  have hfound := hR.trans hbody' (hR.bindBody hs₄ hbind (hthere.hasEntity hentity)
    (hclose.evolves.toExtends.hasExpr (hbody.read.made rfl rfl)))
  exact hR.trans (hR.quiet hquiet hevolves)
    (hR.function rfl (hread.origin hs.sound hfits hplaced rfl) hfound)

theorem building_declaration (hR : Builds R) {name : Token} {op : DefOp}
    {init next : Option ExprId} {type : EntityId} {span : Span}
    (hnext : Known (Building R) (.nextDefinition closing next)
      (s.install (.var name.text type)) log s')
    (hread : Reads (.declaration name op init type closing s'.newExpr) s log'
      (s'.add (.definition name.text op init s.newEntity next) span)) :
    Building R (.declaration name op init type closing s'.newExpr) s
      (s'.add (.definition name.text op init s.newEntity next) span) := by
  intro c hs hfits hplaced
  obtain ⟨hs₁, hevolves, -⟩ := sound_named (e := .var name.text type) hs.sound
    (And.intro hfits.1.hasEntity hfits.1) rfl
  have hinstalled : Amid c (s.install (.var name.text type)) := ⟨hs₁, hs.constructs⟩
  have hnext' : R c s.tree init.toList s'.tree (init.toList ++ next.toList) :=
    hR.more (hR.quiet (Quiet.named rfl) hevolves) (hnext.holds c hinstalled trivial trivial)
  exact hR.add hnext' (hread.origin hs.sound hfits hplaced rfl) trivial

/-- A definition is built of its value and of what is made with that. -/
theorem building_definition (hR : Builds R) {name symbol : Token} {op : DefOp}
    {type : Option EntityId} {init : Option ExprId} (htype : DeclaredType op s type s₁)
    (hinit : Known (Building R) (.initialValue op symbol (closing ∪ {.comma}) init) s₁ log s₂)
    (hmade : Building R φ s₂ s') (hloose : φ.loose = init.toList) (hanswers : φ.answers = [id])
    (hfits' : s₂.tree.Sound → φ.Fits s₂.tree) (hplaced' : φ.Placed s₂) :
    Building R (.definition name symbol closing id) s s' := by
  intro c hs hfits _
  have hs₁ := hs.declared htype
  have hs₂ := hs₁.read hinit.read trivial
  have hinit' := hinit.holds c hs₁ trivial trivial
  have hmade' := hmade c hs₂ (hfits' hs₂.sound) hplaced'
  rw [htype.tree] at hinit'
  rw [hloose, hanswers] at hmade'
  exact hR.trans hinit' hmade'

theorem building_record (hR : Builds R) {body : List ExprId} {form : RecordForm} {span : Span}
    (hopen : Opens (s.past {.newline}).next frame s₁)
    (hbody : Known (Building R) (.sequence #[] {.closeBrace} body) (s₁.inside .record) log s₂)
    (hclose : Closes s₂.outside s')
    (hread : Reads (.record keyword s'.newExpr) s log (s'.add (.record form body frame) span)) :
    Building R (.record keyword s'.newExpr) s (s'.add (.record form body frame) span) := by
  intro c hs hfits hplaced
  have hinside : Amid (.record :: c) (s₁.inside .record) :=
    ⟨hopen.sound hs.sound, congrArg (Construct.record :: ·) (hopen.constructs.trans hs.constructs)⟩
  have hclosed := hR.trans (hbody.holds _ hinside hasExpr_empty trivial)
    (hR.closes (s := State.outside _) hclose)
  exact hR.trans (hR.opens (s := State.next (State.past _ _)) hopen hs.sound)
    (hR.record rfl (hread.origin hs.sound hfits hplaced rfl) hclosed)

end Productions

/-- What all parts of readings build, a reading builds of what its production is given. -/
theorem Reads.building {R : List Construct → Tree → List ExprId → Tree → List ExprId → Prop}
    (hR : Builds R) (h : Reads φ s log s') : Building R φ s s' := by
  induction h with
  | stepClosing | extendClosing | extendBrace | sequenceClosing | typeName
  | argumentsNil | elseNone | nextNone | initialNone => exact fun _ _ _ _ => hR.refl
  | @stepNewline left =>
    intro c _ _ _
    cases left <;> exact hR.refl
  | stepPrefix _ _ _ ih | scopeAfter _ _ ih | elseSome _ _ ih | nameDefinition _ _ ih
  | nameAlone _ _ ih => exact fun c hs _ _ => ih c ⟨hs.sound, hs.constructs⟩ trivial trivial
  | nextSome _ _ _ _ ih | initialSome _ _ ih | initialConstant _ ih =>
    exact fun c hs _ _ => ih c ⟨hs.sound, hs.constructs⟩ nofun trivial
  | stepPostfix _ _ _ ih => exact fun c hs hfits _ => ih c hs.next (hfits _ rfl) trivial
  | stepOperator _ _ _ _ ih => exact fun c hs hfits _ => ih c hs.next hfits trivial
  | stepOperand _ _ _ _ _ hleft _ ih => exact fun c hs hfits _ => ih c hs.next hfits hleft
  | @operand _ _ _ _ _ _ s _ hbegins _ ih =>
    intro c hs hfits hplaced
    obtain ⟨hloose, hanswers, hplaced'⟩ := hbegins.placed (s := s) hplaced
    have hbuilds := ih c hs (hbegins.fits hfits) hplaced'
    rw [hloose, hanswers] at hbuilds
    exact hbuilds
  | extendStep _ _ _ hstep _ ih ih' => exact building_extendStep hR ⟨hstep, ih⟩ ih'
  | sequenceItem _ _ hitem _ ih ih' => exact building_sequenceItem hR ⟨hitem, ih⟩ ih'
  | literal hnode =>
    intro c hs hfits hplaced
    have horigin := (Reads.literal hnode).origin hs.sound hfits hplaced rfl
    cases hnode <;> exact hR.push horigin trivial
  | nameUse hfind =>
    intro c hs hfits hplaced
    exact hR.push ((Reads.nameUse hfind).origin hs.sound hfits hplaced rfl) trivial
  | prefixOperation hop hstep htype hexpr ih =>
    intro c hs hfits hplaced
    have hread := Reads.prefixOperation hop hstep htype hexpr
    exact hR.add (ih c hs nofun trivial) (hread.origin hs.sound hfits hplaced rfl) trivial
  | postfixOperation hop htype hexpr =>
    intro c hs hfits hplaced
    have hread := Reads.postfixOperation hop htype hexpr
    exact hR.push (hread.origin hs.sound hfits hplaced rfl) trivial
  | binaryOperation hop hright htype hl hr ih =>
    intro c hs hfits hplaced
    have hread := Reads.binaryOperation hop hright htype hl hr
    exact hR.add (hR.more hR.refl (ih c hs nofun trivial))
      (hread.origin hs.sound hfits hplaced rfl) trivial
  | argumentsCons hvalue hsource htarget hconverts hseparates hrest hexpr ih ih' =>
    exact building_argumentsCons hR ⟨hvalue, ih⟩ hseparates ⟨hrest, ih'⟩
      (.argumentsCons hvalue hsource htarget hconverts hseparates hrest hexpr)
  | call htype hentity hfunction hargs hexpr ih =>
    intro c hs hfits hplaced
    have horigin :=
      (Reads.call htype hentity hfunction hargs hexpr).origin hs.sound hfits hplaced rfl
    have hparams := params_hasEntity hs.sound hentity hfunction
    exact hR.add (hR.more hR.refl (ih c hs hparams trivial)) horigin trivial
  | structLiteral hstruct hmembers hargs hexpr ih =>
    intro c hs hfits hplaced
    have horigin :=
      (Reads.structLiteral hstruct hmembers hargs hexpr).origin hs.sound hfits hplaced rfl
    obtain ⟨⟨name, span, hname⟩, -⟩ := namedStruct?_ok hstruct
    have hvalues := ih c hs (variables?_hasEntity hs.sound hmembers) trivial
    exact hR.trans (hR.more hR.refl hvalues)
      (hR.literal rfl horigin (hargs.extends.expr hname))
  | scopeBody hbody ih =>
    intro c hs hfits hplaced
    have horigin := (Reads.scopeBody hbody).origin hs.sound hfits hplaced rfl
    exact hR.add (ih c hs hasExpr_empty trivial) horigin trivial
  | scope hopen _ hclose ih =>
    intro c hs _ _
    have hinner := ih c (hs.opens hopen) trivial hopen.current
    exact hR.trans (hR.trans (hR.opens hopen hs.sound) hinner) (hR.closes hclose)
  | branch hopen hcond htype hthen helse hclose ih ih' ih'' =>
    exact building_branch hR hopen ⟨hcond, ih⟩ ⟨hthen, ih'⟩ ⟨helse, ih''⟩ hclose
      (.branch hopen hcond htype hthen helse hclose)
  | loopEndless hopen hfirst hat htype hscope hclose ih ih' =>
    exact building_loopEndless hR hopen ⟨hfirst, ih⟩ ⟨hscope, ih'⟩ hclose
      (.loopEndless hopen hfirst hat htype hscope hclose)
  | loopWhile hopen hfirst hat htype hscope hclose ih ih' =>
    exact building_loopWhile hR hopen ⟨hfirst, ih⟩ ⟨hscope, ih'⟩ hclose
      (.loopWhile hopen hfirst hat htype hscope hclose)
  | loopCounted hopen hinit hbrace hfirst hcond htype hsecond hstep hscope hclose
      ih₁ ih₂ ih₃ ih₄ =>
    exact building_loopCounted hR hopen ⟨hinit, ih₁⟩ ⟨hcond, ih₂⟩ ⟨hstep, ih₃⟩ ⟨hscope, ih₄⟩ hclose
      (.loopCounted hopen hinit hbrace hfirst hcond htype hsecond hstep hscope hclose)
  | returns hconstruct hentity hvalue hsource hconverts ih =>
    intro c hs hfits hplaced
    have horigin := (Reads.returns hconstruct hentity hvalue hsource hconverts).origin hs.sound
      hfits hplaced rfl
    refine hR.add (ih c hs nofun trivial) horigin ?_
    show c.head? = _
    rw [← hs.constructs, hconstruct]
    rfl
  | groupParameters hopen hcontent hat hdefinition hresult hclose ih =>
    exact building_groupParameters hR hopen ⟨hcontent, ih⟩ hresult hclose
      (.groupParameters hopen hcontent hat hdefinition hresult hclose)
  | groupExpression hopen hcontent hat hexpr hdefinition hclose ih =>
    exact building_groupExpression hR hopen ⟨hcontent, ih⟩ hclose
      (.groupExpression hopen hcontent hat hexpr hdefinition hclose)
  | function hexpr hparams hcanonical hnamed henter hat hbody hclose hbind ih =>
    have hread : Reads _ _ (⟨_, _, _, 0⟩ :: _) _ :=
      .function hexpr hparams hcanonical hnamed henter hat hbody hclose hbind
    exact building_function hR hexpr hparams hnamed henter ⟨hbody, ih⟩ hclose hbind hread
  | @declaration name op init type closing _ _ _ _ _ hnext ih =>
    have hread : Reads (.declaration name op init type closing _) _ (⟨_, _, _, 0⟩ :: _) _ :=
      .declaration hnext
    exact building_declaration hR ⟨hnext, ih⟩ hread
  | definitionFunction _ _ htype hinit _ _ _ _ ih ih'
  | definitionRecord _ _ htype hinit _ _ _ _ ih ih' =>
    exact building_definition hR htype ⟨hinit, ih⟩ ih' rfl rfl (fun _ => hinit.made rfl rfl) trivial
  | definitionVariable _ _ htype hinit _ hdefined _ _ ih ih' =>
    refine building_definition hR htype ⟨hinit, ih⟩ ih' rfl rfl (fun hs₂ => ?_) trivial
    refine hdefined.fits hs₂ ?_ fun i hi => hinit.made rfl hi
    rintro d rfl
    exact htype.isType.mono hinit.extends
  | record hat hopen hbody hmembers hclose ih =>
    exact building_record hR hopen ⟨hbody, ih⟩ hclose (.record hat hopen hbody hmembers hclose)
  | @typedef name op body form members frame span within s hexpr =>
    intro c hs hfits hplaced
    have hread : Reads (.typedef name op body s.newExpr) s [⟨_, _, _, 0⟩] _ := .typedef hexpr
    obtain ⟨_, hevolves, _⟩ :=
      sound_named hs.sound (recordEntity_kindSound hs.sound name.text hexpr) rfl
    exact hR.add (hR.quiet (Quiet.named rfl) hevolves) (hread.origin hs.sound hfits hplaced rfl)
      trivial
  | member hat htype hentity hrecord hframe hfind hexpr =>
    intro c hs hfits hplaced
    have horigin := (Reads.member hat htype hentity hrecord hframe hfind hexpr).origin hs.sound
      hfits hplaced rfl
    exact hR.push horigin trivial

/-- Growth is built: each production makes a forest of what is loose. -/
theorem Grows.builds : Builds fun _ => Grows where
  refl := .refl
  trans h h' := h.trans h'
  more h h' := h.more h'
  quiet := .quiet
  bindBody hs hbind hfunction hbody := .bindBody hs hbind hfunction hbody
  push horigin hplain :=
    Grows.refl.push (fun hforest => hforest.pushExpr (hplain.heads _ _)) horigin
  literal {_ _ _ _ _ _ _ e} hnode horigin hbase := by
    obtain ⟨node, span⟩ := e
    obtain rfl : node = _ := hnode
    exact Grows.refl.push (fun hforest => hforest.pushLiteral hbase) horigin
  function {_ _ _ _ _ _ _ e} hnode horigin hbody := by
    obtain ⟨node, span⟩ := e
    obtain rfl : node = _ := hnode
    exact (Grows.refl.more hbody).push (fun hforest => hforest.pushExpr rfl) horigin
  record {_ _ _ _ _ _ e} hnode horigin hbody := by
    obtain ⟨node, span⟩ := e
    obtain rfl : node = _ := hnode
    exact hbody.push (fun hforest => hforest.pushExpr rfl) horigin

/-- Whatever a production is given and reads, it makes a forest of. -/
theorem Reads.grows (h : Reads φ s log s') (hs : s.tree.Sound) (hfits : φ.Fits s.tree)
    (hplaced : φ.Placed s) : Grows s.tree φ.loose s'.tree φ.answers :=
  h.building Grows.builds _ ⟨hs, rfl⟩ hfits hplaced

/-! ## Whole sources -/

/-- Nothing is loose when all has been read but the main scope. -/
theorem parse_grows {tokens : TokenList} {tree : Tree} (h : parse tokens = .ok tree) :
    ∃ (s : State) (main : Expr), Grows Tree.withBuiltins [] s.tree main.node.children ∧
      (∃ body, main.node = .scope body Tree.mainFrame) ∧
      tree = { (s.tree.pushExpr main).2 with mainScope := some s.newExpr } := by
  obtain ⟨body, log, s, hread, rfl⟩ := parse_reads h
  have hgrows := hread.grows Tree.sound_withBuiltins hasExpr_empty True.intro
  exact ⟨s, ⟨.scope body Tree.mainFrame, _⟩, hgrows, ⟨body, rfl⟩, rfl⟩

theorem setMainScope_evolves (scope : Option ExprId) :
    t.Evolves { t with mainScope := scope } :=
  ⟨⟨id, id, fun {_ f} hf => ⟨f, hf, rfl, rfl⟩⟩, fun _ _ => rfl⟩

/-- Every expression of a source that is accepted has an origin, but the main scope. -/
theorem origin_of_parse {tokens : TokenList} {tree : Tree} (h : parse tokens = .ok tree)
    (he : tree.expr? id = some e) : Origin tree id e ∨
      tree.mainScope = some id ∧ ∃ body, e.node = .scope body Tree.mainFrame := by
  obtain ⟨s, main, hgrows, hmain, rfl⟩ := parse_grows h
  have hevolves := (s.tree.pushExpr_evolves main).trans
    (setMainScope_evolves (some s.newExpr))
  rcases Tree.of_expr?_pushExpr (t := s.tree) he with he | ⟨rfl, rfl⟩
  · rcases hgrows.origin he with hold | horigin
    · cases hold
    · exact .inl (horigin.mono hevolves)
  · exact .inr ⟨rfl, hmain⟩

/-- The expressions of a source that is accepted are one tree, below its main scope. -/
theorem forest_of_parse {tokens : TokenList} {tree : Tree} (h : parse tokens = .ok tree) :
    ∃ main, tree.mainScope = some main ∧ main.index + 1 = tree.exprs.size ∧
      tree.Forest 0 [main] tree.exprs.size := by
  obtain ⟨s, main, hgrows, ⟨body, hbody⟩, rfl⟩ := parse_grows h
  have hsize : (s.tree.pushExpr main).2.exprs.size = s.tree.exprs.size + 1 := Array.size_push main
  have hhead : s.tree.Heads 0 main.node 0 := by
    rw [hbody]
    rfl
  refine ⟨s.newExpr, rfl, hsize.symm, ?_⟩
  have hforest := (hgrows.forest .nil).pushExpr hhead
  rw [← hsize] at hforest
  exact hforest.mono (setMainScope_evolves _).toExtends

end OnePass.Grammar

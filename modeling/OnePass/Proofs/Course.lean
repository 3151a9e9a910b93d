import OnePass.Proofs.Handles
import OnePass.Proofs.Offsets
import OnePass.Proofs.Twins

/-!
# Courses

What a reading does to the tree, with its brackets: a frame is opened, something is read in it,
and the frame is closed again. A `Course` is a trail in which the frames that are opened and closed
are matched, the node that is made of what was read in a frame is told from other nodes, and a
function is one rule: its header, which is new, the body in the frame of the header, and the entry
for the body in the frame around it. There are eight rules where the grammar has dozens, so that
what is true of frames and functions is proved by induction on the course.

Every phrase takes a course (`Reads.course`). The phrases that make a node with a frame are
`Housed`: all that they read was read in that frame.
-/

namespace OnePass

/-- The expression is a function. -/
def Node.isFunction : Node → Bool
  | .function .. => true
  | _ => false

/-- One of the tokens is the name. -/
def TokenList.Names (tokens : TokenList) (name : String) : Prop :=
  ∃ token ∈ tokens.toList, token.kind = .name ∧ token.text = name

namespace Grammar

variable {s s₁ s₂ s₃ s' : State} {log : List Binding} {frame : FrameId} {id : ExprId}
  {node : Node} {span : Span} {φ : Phrase}

/-! ## Rules -/

/-- A reading that closes the frames that it opens leads from one state to the other. -/
inductive Course : State → State → Prop where
  | refl {s : State} : Course s s
  | trans {s s₁ s' : State} (h : Course s s₁) (h' : Course s₁ s') : Course s s'
  -- Tokens and constructs
  | still {s s' : State} (hstep : Step s [] s') (htree : s'.tree = s.tree) : Course s s'
  | add {s : State} {node : Node} {span : Span} (hframes : node.frames = [])
      (hfunction : node.isFunction = false) : Course s (s.add node span)
  | install {s : State} {entity : Entity} (hname : s.cursor.tokens.Names entity.name) :
      Course s (s.install entity)
  -- A frame that no node keeps, and one that a node keeps
  | within {s s₁ s₂ s' : State} {frame : FrameId} (hopen : Opens s frame s₁)
      (hinner : Course s₁ s₂) (hclose : Closes s₂ s') : Course s s'
  | house {s s₁ s₂ s' : State} {frame : FrameId} {node : Node} {span : Span}
      (hopen : Opens s frame s₁) (hinner : Course s₁ s₂) (hclose : Closes s₂ s')
      (hframes : node.frames = [frame]) : Course s (s'.add node span)
  | function {s s₀ s₁ s₂ s₃ s₄ : State} {name canonical : String} {header : ExprId}
      {params? : Option ExprId} {result : EntityId} {frame : FrameId} {headerSpan bodySpan : Span}
      {params : List EntityId} {members : List ExprId} {tree : Tree} {span : Span}
      (hheader : Course s s₀)
      (hexpr : s₀.tree.expr? header = some ⟨.signature params? result frame, headerSpan⟩)
      (hparams : s₀.tree.variables? frame = some params) (hnew : ¬s.tree.HasExpr header)
      (hname : s₀.cursor.tokens.Names name)
      (hcanonical : s₀.tree.signatureName? params result = some canonical)
      (hnamed : s₁ = (s₀.addEntity ⟨canonical, .function params result⟩).bind name s₀.newEntity)
      (henter : Enters (s₁.bindNew canonical s₀.newEntity) frame s₂) (hbody : Course s₂ s₃)
      (hclose : Closes (s₃.add (.scope members frame) bodySpan).outside s₄)
      (hbind : s₄.tree.bindBody s₄.tree.currentFrame s₀.newEntity s₃.newExpr = .ok tree) :
      Course s (State.add { s₄ with tree := tree } (.function name s₀.newEntity header s₃.newExpr)
        span)

/-- The names of a function are bound before its body is read. -/
theorem Trail.named {entity : Entity} {name canonical : String}
    (h : s₁ = (s.addEntity entity).bind name s.newEntity) :
    ∃ log, Trail s log (s₁.bindNew canonical s.newEntity) := by
  subst h
  exact ⟨_, .after .addEntity (.cons (@Step.bind _ _ _ 0) .bindNew)⟩

theorem stack_named {entity : Entity} {name canonical : String}
    (h : s₁ = (s.addEntity entity).bind name s.newEntity) :
    (s₁.bindNew canonical s.newEntity).tree.stack = s.tree.stack := by
  subst h
  unfold State.bindNew
  split <;> rfl

theorem current_named {entity : Entity} {name canonical : String}
    (h : s₁ = (s.addEntity entity).bind name s.newEntity) :
    (s₁.bindNew canonical s.newEntity).tree.currentFrame = s.tree.currentFrame :=
  Tree.currentFrame_congr (stack_named h)

namespace Course

theorem next : Course s s.next := .still .next rfl

theorem past {wanted : TokenSet} : Course s (s.past wanted) := .still .past rfl

/-- Without its brackets a course is a trail. -/
theorem trail (h : Course s s') : ∃ log, Trail s log s' := by
  induction h with
  | refl => exact ⟨_, .refl⟩
  | trans _ _ ih ih' =>
    obtain ⟨_, ih⟩ := ih
    obtain ⟨_, ih'⟩ := ih'
    exact ⟨_, ih.trans ih'⟩
  | still hstep => exact ⟨_, .single hstep⟩
  | add => exact ⟨_, .single .add⟩
  | install => exact ⟨_, @Trail.install _ _ _ 0 rfl⟩
  | within hopen _ hclose ih =>
    obtain ⟨_, ih⟩ := ih
    exact ⟨_, .after (.opens hopen) (ih.snoc (.closes hclose))⟩
  | house hopen _ hclose _ ih =>
    obtain ⟨_, ih⟩ := ih
    exact ⟨_, .after (.opens hopen) ((ih.snoc (.closes hclose)).snoc .add)⟩
  | function _ _ _ _ _ _ hnamed henter _ hclose hbind ih ih' =>
    obtain ⟨_, ih⟩ := ih
    obtain ⟨_, ih'⟩ := ih'
    obtain ⟨_, hnames⟩ := Trail.named hnamed
    have hscope := (((ih'.snoc .add).snoc .outside).snoc (.closes hclose)).snoc (.bindBody hbind)
    exact ⟨_, (ih.trans (hnames.trans (.after (.enters henter) hscope))).snoc .add⟩

end Course

theorem Course.extends (h : Course s s') : s.tree.Extends s'.tree := by
  obtain ⟨_, htrail⟩ := h.trail
  exact htrail.extends

theorem Course.framed (h : Course s s') (hs : s.tree.Framed) : s'.tree.Framed := by
  obtain ⟨_, htrail⟩ := h.trail
  exact htrail.framed hs

theorem Course.tokens (h : Course s s') : s'.cursor.tokens = s.cursor.tokens := by
  obtain ⟨_, htrail⟩ := h.trail
  exact htrail.forward.tokens

theorem Course.mem {token : Token} (h : Course s s') (htoken : token ∈ s.cursor.tokens.toList) :
    token ∈ s'.cursor.tokens.toList := by
  rwa [h.tokens]

/-- A frame that was entered is left behind when a function has been read in it. -/
theorem Enters.stack_closed (henter : Enters s frame s₁)
    (hstack : s₂.tree.stack = s₁.tree.stack) (hclose : Closes (s₂.add node span).outside s') :
    s'.tree.stack = s.tree.stack := by
  obtain ⟨_, hsize, rfl⟩ := henter.eq
  obtain ⟨_, rfl⟩ := hclose.eq
  exact pop_push_stack hsize hstack

/-- The frames that are open stay so. -/
theorem Course.stack (h : Course s s') : s'.tree.stack = s.tree.stack := by
  induction h with
  | refl | add | install => rfl
  | trans _ _ ih ih' => exact ih'.trans ih
  | still _ htree => rw [htree]
  | within hopen _ hclose ih | house hopen _ hclose _ ih =>
    obtain ⟨rfl, hsize, rfl⟩ := hopen.eq
    obtain ⟨_, rfl⟩ := hclose.eq
    exact pop_push_stack hsize ih
  | function _ _ _ _ _ _ hnamed henter _ hclose hbind ih ih' =>
    obtain rfl := Tree.bindBody_ok hbind
    exact ((henter.stack_closed ih' hclose).trans (stack_named hnamed)).trans ih

theorem Course.current (h : Course s s') : s'.tree.currentFrame = s.tree.currentFrame :=
  Tree.currentFrame_congr h.stack

/-! ## Phrases -/

/-- Between the trees was made, last, a node that keeps a frame, of what was read in that frame. -/
inductive Housed (t : Tree) (id : ExprId) (t' : Tree) : Prop where
  | house {s s' : State} {frame : FrameId} {node : Node} {span : Span}
      (hexprs : s.tree.exprs = t.exprs) (hcurrent : s.tree.currentFrame = frame)
      (hinner : Course s s') (hframes : node.frames = [frame]) (hid : id = s'.newExpr)
      (hmade : t'.exprs = s'.tree.exprs.push ⟨node, span⟩) (hgrows : s'.tree.Extends t')

/-- The token that begins an operand is one of the list, and so is the one that names what is
defined. -/
def Phrase.Spelt (tokens : TokenList) : Phrase → Prop
  | operand _ token .. => token ∈ tokens.toList
  | nameOrDefinition name .. | definition name .. | function name .. | declaration name ..
  | typedef name .. => name ∈ tokens.toList ∧ name.kind = .name
  | _ => True

/-- The course that a phrase takes. The scope of a function is made in the frame in which it is
read, and the function of a header that was read before. -/
def Phrase.Courses : Phrase → State → State → Prop
  | scopeBody _ frame id, s, s' => ∃ s₁ members span,
    s' = s₁.add (.scope members frame) span ∧ id = s₁.newExpr ∧ Course s s₁
  | function _ header _, s, s' => ∀ s₀, Course s₀ s → ¬s₀.tree.HasExpr header → Course s₀ s'
  | branch _ id, s, s' | loop _ id, s, s' | record _ id, s, s' =>
    Course s s' ∧ Housed s.tree id s'.tree
  | group _ id, s, s' => Course s s' ∧
    (Housed s.tree id s'.tree ∨ ∃ e, s'.tree.expr? id = some e ∧ e.node.frames = [])
  | _, s, s' => Course s s'

/-- A frame that was opened and closed around a course is kept by a node. -/
theorem Course.housed (hopen : Opens s frame s₁) (hinner : Course s₁ s₂) (hclose : Closes s₂ s')
    (hframes : node.frames = [frame]) :
    Course s (s'.add node span) ∧ Housed s.tree s'.newExpr (s'.add node span).tree := by
  refine ⟨.house hopen hinner hclose hframes, ?_⟩
  have hexprs : s'.tree.exprs = s₂.tree.exprs := by
    obtain ⟨_, rfl⟩ := hclose.eq
    rfl
  have hgrows := (Step.closes hclose).extends.trans (@Step.add _ node span).extends
  refine .house ?_ hopen.current hinner hframes ?_ (congrArg (Array.push · _) hexprs) hgrows
  · obtain ⟨rfl, hsize, rfl⟩ := hopen.eq
    rfl
  · unfold State.newExpr
    rw [hexprs]

/-- A frame is closed around the last expression as around those before it. -/
theorem Closes.of_add (h : Closes (s.add node span) s') :
    ∃ s₁, Closes s s₁ ∧ s' = s₁.add node span := by
  have hstate := h.eq.2
  obtain ⟨frame, hwork, -⟩ := h
  have hblind := Tree.closeFrame_blind s.tree (s.add node span).tree.exprs
  have hwork' : Tree.closeFrame s.tree = .ok frame s.tree.offTop := by
    cases hrun : Tree.closeFrame s.tree with
    | error e t =>
      rw [hrun] at hblind
      cases hblind.symm.trans hwork
    | ok other t =>
      rw [hrun] at hblind
      obtain ⟨rfl, -⟩ := EStateM.Result.ok.inj (hblind.symm.trans hwork)
      rw [(Tree.closeFrame_ok hrun).2]
  exact ⟨{ s with tree := s.tree.offTop }, ⟨frame, hwork', rfl, rfl⟩, hstate⟩

theorem DeclaredType.course {op : DefOp} {type : Option EntityId}
    (h : DeclaredType op s type s') : Course s s' := by
  cases h with
  | constant | inferred => exact .refl
  | named => exact .next

theorem ResultType.course {type : EntityId} (h : ResultType s type s') : Course s s' := by
  cases h with
  | nothing => exact .refl
  | named => exact Course.next.trans .next

theorem Separates.course {rest : List EntityId} {closing : TokenSet}
    (h : Separates rest closing s s') : Course s s' := by
  cases h with
  | last => exact .past
  | comma => exact Course.past.trans .next
  | surplus => exact (Course.past.trans .next).trans .past

/-- What was read as the value of a definition is new. -/
theorem Reads.initial_new {op : DefOp} {type : Option EntityId} {symbol : Token}
    {closing : TokenSet} (h : Reads (.initialValue op symbol closing (some id)) s₁ log s')
    (htype : DeclaredType op s type s₁) : ¬s.tree.HasExpr id := by
  have hmade : Made s₁ id s' := (h.answer rfl).resolve_left nofun
  exact fun hid => hmade.1 (htype.trail.extends.hasExpr hid)

/-- What a token begins takes a course. -/
theorem Begins.course {token : Token} {closing : TokenSet} {left : Option ExprId}
    (h : Begins token closing id left φ) (htoken : token ∈ s.cursor.tokens.toList)
    (hcourse : φ.Spelt s.cursor.tokens → φ.Courses s s') : Course s s' := by
  cases h with
  | name hkind => exact hcourse ⟨htoken, hkind⟩
  | branch | loop | record | group => exact (hcourse trivial).1
  | _ => exact hcourse trivial

/-- Every phrase takes a course. -/
theorem Reads.course (h : Reads φ s log s') (hspelt : φ.Spelt s.cursor.tokens) :
    φ.Courses s s' := by
  induction h with
  | stepClosing | extendClosing | extendBrace | elseNone | nextNone | initialNone => exact .refl
  | stepNewline | typeName => exact .next
  | stepPrefix _ _ _ ih | stepPostfix _ _ _ ih | stepOperator _ _ _ _ ih | initialSome _ _ ih
  | elseSome _ _ ih => exact Course.next.trans (ih trivial)
  | stepOperand _ _ _ _ _ _ _ ih =>
    exact Course.next.trans (ih (Course.next.mem (TokenList.get_mem _ _)))
  | nameDefinition _ _ ih =>
    exact Course.next.trans (ih ⟨Course.next.mem hspelt.1, hspelt.2⟩)
  | operand hbegins _ ih => exact hbegins.course hspelt ih
  | initialConstant _ ih | nameAlone _ _ ih => exact ih trivial
  | extendStep _ _ _ _ _ ih ih' => exact (ih trivial).trans (ih' trivial)
  | sequenceClosing | argumentsNil => exact Course.past.trans .next
  | sequenceItem _ _ _ _ ih ih' => exact Course.past.trans ((ih trivial).trans (ih' trivial))
  | literal hnode => cases hnode <;> exact .add rfl rfl
  | nameUse | postfixOperation => exact .add rfl rfl
  | prefixOperation _ _ _ _ ih | binaryOperation _ _ _ _ _ ih | returns _ _ _ _ _ ih
  | call _ _ _ _ _ ih | structLiteral _ _ _ _ ih => exact (ih trivial).trans (.add rfl rfl)
  | argumentsCons _ _ _ _ hseparates _ _ ih ih' =>
    have hvalue := Course.past.trans (ih trivial)
    exact (hvalue.trans (hseparates.course.trans (ih' trivial))).trans (.add rfl rfl)
  | scopeBody _ ih => exact ⟨_, _, _, rfl, rfl, ih trivial⟩
  | scope hopen _ hclose ih =>
    obtain ⟨s₁, members, span, rfl, -, hinner⟩ := ih trivial
    obtain ⟨s₂, hclosed, rfl⟩ := hclose.of_add
    exact .house hopen hinner hclosed rfl
  | scopeAfter _ _ ih => exact Course.past.trans (Course.next.trans (ih trivial))
  | branch hopen _ _ _ _ hclose ih ih' ih'' =>
    have hinner := (ih trivial).trans ((ih' trivial).trans (ih'' trivial))
    exact Course.housed hopen hinner hclose rfl
  | loopEndless hopen _ _ _ _ hclose ih ih' =>
    have hinner := ((ih trivial).trans (.add rfl rfl)).trans (ih' trivial)
    exact Course.housed hopen hinner hclose rfl
  | loopWhile hopen _ _ _ _ hclose ih ih' =>
    exact Course.housed hopen ((ih trivial).trans (ih' trivial)) hclose rfl
  | loopCounted hopen _ _ _ _ _ _ _ _ hclose ih₁ ih₂ ih₃ ih₄ =>
    have hcond := ((ih₁ trivial).trans .next).trans (ih₂ trivial)
    have hinner := ((hcond.trans .next).trans (ih₃ trivial)).trans (ih₄ trivial)
    exact Course.housed hopen hinner hclose rfl
  | groupParameters hopen _ _ _ hresult hclose ih =>
    have hinner := ((ih trivial).trans .next).trans hresult.course
    exact And.imp_right Or.inl (Course.housed hopen hinner hclose rfl)
  | groupExpression hopen _ _ _ _ hclose ih =>
    have hinner := Course.within hopen ((ih trivial).trans .next) hclose
    exact ⟨hinner.trans (.add rfl rfl), .inr ⟨_, expr?_newExpr _ _ _, rfl⟩⟩
  | function hexpr hparams hcanonical hnamed henter _ _ hclose hbind ih =>
    intro s₀ hheader hnew
    obtain ⟨s₁, members, span, rfl, rfl, hbody⟩ := ih trivial
    have hinner := (Course.still .inside rfl).trans (Course.past.trans (Course.next.trans hbody))
    exact .function hheader hexpr hparams hnew ⟨_, hspelt.1, hspelt.2, rfl⟩ hcanonical
      hnamed henter hinner hclose hbind
  | nextSome _ _ _ _ ih => exact Course.next.trans (Course.past.trans (ih trivial))
  | @declaration name _ _ type _ _ _ _ s _ _ ih =>
    have hname : s.cursor.tokens.Names (Entity.var name.text type).name :=
      ⟨name, hspelt.1, hspelt.2, rfl⟩
    exact ((Course.install hname).trans (ih trivial)).trans (.add rfl rfl)
  | definitionFunction _ _ htype hinit _ _ _ _ ih ih' =>
    have hinitial := htype.course.trans (ih trivial)
    exact ih' ⟨hinitial.mem hspelt.1, hspelt.2⟩ _ hinitial (hinit.initial_new htype)
  | definitionRecord _ _ htype _ _ _ _ _ ih ih' | definitionVariable _ _ htype _ _ _ _ _ ih ih' =>
    have hinitial := htype.course.trans (ih trivial)
    exact hinitial.trans (ih' ⟨hinitial.mem hspelt.1, hspelt.2⟩)
  | record _ hopen _ _ hclose ih =>
    have hinner := (Course.still .inside rfl).trans ((ih trivial).trans (.still .outside rfl))
    refine And.imp_left (fun h => (@Course.past _ {.newline}).trans (Course.next.trans h)) ?_
    exact Course.housed hopen hinner hclose rfl
  | @typedef name _ _ form _ frame _ _ s =>
    have hname : s.cursor.tokens.Names (recordEntity name.text form frame).name :=
      ⟨name, hspelt.1, hspelt.2, (recordEntity_name _ _ _).symm⟩
    exact (Course.install hname).trans (.add rfl rfl)
  | member => exact Course.next.trans (.add rfl rfl)

/-- The whole source is a course, after which nothing is made but the main scope. -/
theorem course_of_parse {tokens : TokenList} {tree : Tree} (h : parse tokens = .ok tree) :
    ∃ s members span, Course (.initial tokens) s ∧ s.tree.Extends tree ∧
      tree = { (s.tree.pushExpr ⟨.scope members Tree.mainFrame, span⟩).2 with
        mainScope := some s.newExpr } := by
  obtain ⟨members, log, s, hread, rfl⟩ := parse_reads h
  exact ⟨s, members, _, hread.course trivial,
    (s.tree.pushExpr_extends _).trans (setMainScope_evolves _).toExtends, rfl⟩

end Grammar

end OnePass

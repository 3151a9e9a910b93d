import OnePass.Proofs.Handles
import OnePass.Proofs.OpenFrames
import OnePass.Proofs.Primary
import OnePass.Proofs.Termination

/-!
# States that keep steady

What the productions rely on without checking it. In a steady state the tree is sound, the open
frames lie inside one another, the only atomic types are the built-in ones, and only functions
that are there have bodies. Whatever is read leads from a steady state to a steady one
(`State.Steady.reads`). So two atomic types compose (`Tree.BuiltinAtoms.compose?`), a frame that was
opened is still open after what is read in it (`Reads.opened`), the frame of a signature that has
just been read can be entered (`Reads.extend_parent`), and a new function has no body
(`State.Steady.no_body`).
-/

namespace OnePass

/-! ## Atomic types -/

/-- Every atomic type of the tree is one of the built-in ones. -/
def Tree.BuiltinAtoms (t : Tree) : Prop :=
  ∀ id e a, t.entity? id = some e → e.atom? = some a → ∃ b : Builtin, b.entity.atom? = some a

namespace Tree.BuiltinAtoms

variable {t t' : Tree}

theorem congr (h : t.BuiltinAtoms) (hentities : t'.entities = t.entities) : t'.BuiltinAtoms := by
  intro id e a he ha
  refine h id e a ?_ ha
  unfold Tree.entity? at he ⊢
  rwa [← hentities]

theorem pushEntity (h : t.BuiltinAtoms) {entity : Entity}
    (hatom : ∀ a, entity.atom? = some a → ∃ b : Builtin, b.entity.atom? = some a) :
    (t.pushEntity entity).2.BuiltinAtoms := by
  intro id e a he ha
  rw [Tree.entity?_pushEntity] at he
  split at he
  · cases he
    exact hatom a ha
  · exact h id e a he ha

theorem composes : ∀ b ∈ Builtin.all, ∀ c ∈ Builtin.all,
    ∀ x ∈ b.entity.atom?, ∀ y ∈ c.entity.atom?, ∃ d ∈ Builtin.composable,
      d.entity.atom? = some ⟨(x.reading.join y.reading).dominant, max x.size y.size⟩ := by
  decide

/-- Any two atomic types compose. -/
theorem compose? (h : t.BuiltinAtoms) (hb : t.HasBuiltins) {e f : Entity} {id other : EntityId}
    {x y : Atom} (he : t.entity? id = some e) (hx : e.atom? = some x)
    (hf : t.entity? other = some f) (hy : f.atom? = some y) :
    ∃ type, t.compose? (x.reading.join y.reading) (max x.size y.size) = some type := by
  obtain ⟨b, hb'⟩ := h id e x he hx
  obtain ⟨c, hc⟩ := h other f y hf hy
  obtain ⟨d, hd, hatom⟩ := composes b b.mem_all c c.mem_all x hb' y hc
  unfold Tree.compose?
  rw [← Option.isSome_iff_exists, List.find?_isSome]
  refine ⟨d.handle, List.mem_map.2 ⟨d, hd, rfl⟩, ?_⟩
  unfold isAtom
  rw [hb d, Option.bind_some, hatom]
  exact decide_eq_true rfl

end Tree.BuiltinAtoms

namespace Grammar

variable {s s₁ s₂ s' : State} {φ : Phrase} {frame : FrameId} {log : List Binding}

theorem Opens.builtinAtoms (h : Opens s frame s') (hs : s.tree.BuiltinAtoms) :
    s'.tree.BuiltinAtoms := hs.congr h.entities

theorem builtinAtoms_enters (h : s.tree.BuiltinAtoms) {name : String} {entity : EntityId}
    (henter : Enters (s.bindNew name entity) frame s') : s'.tree.BuiltinAtoms :=
  h.congr (henter.entities.trans (State.bindNew_entities _ _ _))

theorem Closes.builtinAtoms (h : Closes s s') (hs : s.tree.BuiltinAtoms) :
    s'.tree.BuiltinAtoms := hs.congr h.entities

theorem recordEntity_atom? (name : String) (form : RecordForm) (frame : FrameId) :
    (recordEntity name form frame).atom? = none := by
  cases form <;> rfl

theorem builtinAtoms_pushEntity (h : s.tree.BuiltinAtoms) {entity : Entity}
    (hatom : entity.atom? = none) : (s.addEntity entity).tree.BuiltinAtoms :=
  h.pushEntity fun a ha => absurd (ha.symm.trans hatom) (Option.some_ne_none a)

theorem builtinAtoms_named (h : s.tree.BuiltinAtoms) {entity : Entity} {name : String}
    (hatom : entity.atom? = none) (hnamed : s₁ = (s.addEntity entity).bind name s.newEntity) :
    s₁.tree.BuiltinAtoms := by
  subst hnamed
  exact (builtinAtoms_pushEntity h hatom).congr rfl

/-- No production makes an atomic type. -/
theorem Reads.builtinAtoms (h : Reads φ s log s') (hs : s.tree.BuiltinAtoms) :
    s'.tree.BuiltinAtoms := by
  induction h with
  | stepClosing | extendClosing | extendBrace | elseNone | nextNone | initialNone | stepNewline
  | typeName | sequenceClosing | literal | nameUse | postfixOperation | argumentsNil | member =>
    exact hs
  | stepPrefix _ _ _ ih | stepPostfix _ _ _ ih | elseSome _ _ ih | stepOperator _ _ _ _ ih
  | stepOperand _ _ _ _ _ _ _ ih | initialSome _ _ ih | nameDefinition _ _ ih | operand _ _ ih
  | initialConstant _ ih | nameAlone _ _ ih | prefixOperation _ _ _ _ ih
  | binaryOperation _ _ _ _ _ ih | call _ _ _ _ _ ih | structLiteral _ _ _ _ ih | scopeBody _ ih
  | scopeAfter _ _ ih | returns _ _ _ _ _ ih | nextSome _ _ _ _ ih => exact ih hs
  | extendStep _ _ _ _ _ ih ih' | sequenceItem _ _ _ _ ih ih' => exact ih' (ih hs)
  | argumentsCons _ _ _ _ hseparates _ _ ih ih' =>
    exact ih' ((ih hs).congr (congrArg Tree.entities hseparates.tree))
  | scope hopen _ hclose ih => exact hclose.builtinAtoms (ih (hopen.builtinAtoms hs))
  | branch hopen _ _ _ _ hclose ih ih' ih'' =>
    exact hclose.builtinAtoms (ih'' (ih' (ih (hopen.builtinAtoms hs))))
  | loopEndless hopen _ _ _ _ hclose ih ih' | loopWhile hopen _ _ _ _ hclose ih ih' =>
    exact hclose.builtinAtoms (ih' (ih (hopen.builtinAtoms hs)))
  | loopCounted hopen _ _ _ _ _ _ _ _ hclose ih₁ ih₂ ih₃ ih₄ =>
    exact hclose.builtinAtoms (ih₄ (ih₃ (ih₂ (ih₁ (hopen.builtinAtoms hs)))))
  | groupParameters hopen _ _ _ hresult hclose ih =>
    refine hclose.builtinAtoms ((ih (hopen.builtinAtoms hs)).congr ?_)
    exact congrArg Tree.entities hresult.tree
  | groupExpression hopen _ _ _ _ hclose ih =>
    exact hclose.builtinAtoms (ih (hopen.builtinAtoms hs))
  | function _ _ _ hnamed henter _ _ hclose hbind ih =>
    have hentered := builtinAtoms_enters (builtinAtoms_named hs rfl hnamed) henter
    have hclosed := hclose.builtinAtoms (ih hentered)
    obtain rfl := Tree.bindBody_ok hbind
    exact hclosed
  | declaration _ ih => exact ih (builtinAtoms_pushEntity hs rfl)
  | definitionFunction _ _ htype _ _ _ _ _ ih ih' | definitionRecord _ _ htype _ _ _ _ _ ih ih'
  | definitionVariable _ _ htype _ _ _ _ _ ih ih' =>
    exact ih' (ih (hs.congr (congrArg Tree.entities htype.tree)))
  | record _ hopen _ _ hclose ih => exact hclose.builtinAtoms (ih (hopen.builtinAtoms hs))
  | typedef => exact builtinAtoms_pushEntity hs (recordEntity_atom? _ _ _)

/-! ## Open frames -/

theorem Step.nested (h : Step s log s') (hs : s.tree.Nested) : s'.tree.Nested := by
  cases h with
  | next | past | inside | outside => exact hs
  | add | addEntity => exact ⟨hs.main, hs.place, hs.parent, hs.orphan, hs.depth⟩
  | bind => exact hs.modifyFrame _ (fun _ => rfl) fun _ => rfl
  | bindBody hbind =>
    obtain rfl := Tree.bindBody_ok hbind
    exact hs.modifyFrame _ (fun _ => rfl) fun _ => rfl
  | opens hopen =>
    rcases hs.openFrame_run with ⟨_, hrun⟩ | ⟨hdeep, hsize, hrun⟩
    · obtain ⟨hwork, _⟩ := hopen
      rw [hrun] at hwork
      cases hwork
    · obtain ⟨hwork, _⟩ := hopen
      rw [hrun] at hwork
      obtain ⟨rfl, htree⟩ := EStateM.Result.ok.inj hwork
      rw [← htree]
      exact (Tree.FrameStep.opens hdeep hsize).nested hs
  | enters henter =>
    obtain ⟨hparent, hsize, rfl⟩ := henter.eq
    obtain ⟨f, hf, hparent⟩ := Option.bind_eq_some_iff.1 hparent
    exact hs.onTop hf hparent hsize
  | closes hclose =>
    obtain ⟨hsize, rfl⟩ := hclose.eq
    exact hs.offTop hsize

theorem Trail.nested (h : Trail s log s') (hs : s.tree.Nested) : s'.tree.Nested := by
  induction h with
  | refl => exact hs
  | cons hstep _ ih => exact ih (hstep.nested hs)

/-! ## Steady states -/

/-- What the productions rely on. -/
structure State.Steady (s : State) : Prop extends State.Sound s where
  nested : s.tree.Nested
  atoms : s.tree.BuiltinAtoms
  bodies : ∀ {id f}, s.tree.frame? id = some f → ∀ b ∈ f.bodies.entries, s.tree.HasEntity b.1

namespace State.Steady

/-- Forward over tokens. -/
theorem forward (h : s.Steady) (htree : s'.tree = s.tree)
    (hconstructs : s'.constructs = s.constructs) : s'.Steady := by
  obtain ⟨cursor, tree, constructs⟩ := s'
  obtain rfl : tree = s.tree := htree
  obtain rfl : constructs = s.constructs := hconstructs
  exact ⟨⟨h.tree, h.functions⟩, h.nested, h.atoms, h.bodies⟩

theorem next (h : s.Steady) : s.next.Steady := h.forward rfl rfl

theorem past (h : s.Steady) {wanted : TokenSet} : (s.past wanted).Steady := h.forward rfl rfl

theorem reads (h : s.Steady) (hread : Reads φ s log s') (hfits : φ.Fits s.tree)
    (hplaced : φ.Placed s) : s'.Steady := by
  refine ⟨⟨hread.sound h.tree hfits, ?_⟩, hread.trail.nested h.nested,
    hread.builtinAtoms h.atoms, ?_⟩
  · intro f hf
    rw [hread.constructs] at hf
    exact hread.extends.hasEntity (h.functions f hf)
  · intro id f hf b hb
    rcases (hread.grows h.tree hfits hplaced).bodies hf b hb with ⟨f', hf', hb'⟩ | ⟨hentity, _⟩
    · exact hread.extends.hasEntity (h.bodies hf' b hb')
    · exact hentity

/-- Steps that make no expression and find no body. -/
theorem quiet (h : s.Steady) (htrail : Trail s log s') (hquiet : Quiet s.tree s'.tree)
    (hconstructs : s'.constructs = s.constructs) (hsound : s'.tree.Sound)
    (hatoms : s'.tree.BuiltinAtoms) : s'.Steady := by
  refine ⟨⟨hsound, ?_⟩, htrail.nested h.nested, hatoms, ?_⟩
  · intro f hf
    rw [hconstructs] at hf
    exact htrail.extends.hasEntity (h.functions f hf)
  · intro id f hf b hb
    obtain ⟨f', hf', hb'⟩ := hquiet.bodies hf b hb
    exact htrail.extends.hasEntity (h.bodies hf' b hb')

theorem opens (h : s.Steady) (hopen : Opens s frame s') : s'.Steady :=
  h.quiet (.single (.opens hopen)) hopen.quiet hopen.constructs (hopen.sound h.tree)
    (hopen.builtinAtoms h.atoms)

/-- One more expression that has no frame of its own. -/
theorem add (h : s.Steady) {node : Node} {span : Span} (hfits : s.tree.Fits node) :
    (s.add node span).Steady :=
  ⟨⟨h.tree.pushExpr hfits, h.functions⟩, (Step.nested .add h.nested), h.atoms, h.bodies⟩

/-- Inside a construct, of which the function is there if it is one. -/
theorem inside (h : s.Steady) {c : Construct} (hc : ∀ f, c = .function f → s.tree.HasEntity f) :
    (s.inside c).Steady := by
  refine ⟨⟨h.tree, fun f hf => ?_⟩, h.nested, h.atoms, h.bodies⟩
  rcases List.mem_cons.1 hf with rfl | hf
  · exact hc f rfl
  · exact h.functions f hf

end State.Steady

/-- What is built in keeps the open frames inside one another, and brings the atomic types. -/
theorem nested_withBuiltins : Tree.withBuiltins.Nested ∧ Tree.withBuiltins.BuiltinAtoms := by
  refine List.foldlRecOn (motive := fun t : Tree => t.Nested ∧ t.BuiltinAtoms) Builtin.all _
    ⟨Tree.nested_empty, nofun⟩ ?_
  rintro t ⟨hnested, hatoms⟩ b -
  have hpush : (t.pushEntity b.entity).2.Nested :=
    ⟨hnested.main, hnested.place, hnested.parent, hnested.orphan, hnested.depth⟩
  exact ⟨hpush.modifyFrame _ (fun _ => rfl) fun _ => rfl, hatoms.pushEntity fun a ha => ⟨b, ha⟩⟩

theorem steady_initial (tokens : TokenList) : (State.initial tokens).Steady := by
  refine ⟨sound_initial tokens, nested_withBuiltins.1, nested_withBuiltins.2, ?_⟩
  intro id f hf b hb
  rw [(frames_withBuiltins f (Array.mem_of_getElem? hf)).2] at hb
  cases hb

/-! ## Frames that can be closed and entered -/

/-- A frame besides the main one is open. -/
def State.Opened (s : State) : Prop := 1 < s.tree.stack.items.size

theorem opened_of_push (h : s'.tree.stack.items = s.tree.stack.items.push frame)
    (hs : s.tree.Nested) : s'.Opened := by
  unfold State.Opened
  rw [h, Array.size_push]
  exact Nat.succ_lt_succ hs.size_pos

theorem Opens.opened (h : Opens s frame s') (hs : s.Steady) : s'.Opened := by
  obtain ⟨rfl, hsize, rfl⟩ := h.eq
  exact opened_of_push rfl hs.nested

theorem Enters.opened (h : Enters s frame s') (hs : s.tree.Nested) : s'.Opened := by
  obtain ⟨_, hsize, rfl⟩ := h.eq
  exact opened_of_push rfl hs

theorem Reads.opened (h : Reads φ s log s') (hs : s.Opened) : s'.Opened := by
  unfold State.Opened
  rw [h.leaves.stack]
  exact hs

/-- The parameters of a signature that has just been read are in a child of the frame that is
the innermost one again. -/
theorem Reads.extend_parent {closing : TokenSet} {id : ExprId} {e : Expr}
    (h : Reads (.extend none closing (some id)) s log s') (he : s'.tree.expr? id = some e)
    (hframe : e.node.signatureFrame? = some frame) :
    (s'.tree.frame? frame).bind Frame.parent = some s'.tree.currentFrame := by
  obtain ⟨paren, s₀, s₁, hgroup, -, htree⟩ := h.extend_signature he (by rw [hframe]; rfl)
  rw [htree] at he ⊢
  have hcurrent := hgroup.leaves.current
  cases hgroup with
  | groupExpression =>
    cases eq_of_newExpr he
    cases hframe
  | @groupParameters _ _ _ _ _ _ s₂ _ s₃ _ hopen hcontent _ _ hresult hclose =>
    cases eq_of_newExpr he
    obtain rfl := Option.some.inj hframe
    rw [hcurrent]
    have hbody := hcontent.trail.trans (Trail.after .next hresult.trail)
    -- the signature is a new expression, and that leaves the frames as they are
    have hextends := (hbody.snoc (.closes hclose)).extends
    obtain ⟨rfl, hsize, rfl⟩ := hopen.eq
    have hnew : s₀.tree.withChild.frame? ⟨s₀.tree.frames.size⟩ =
        some (.new (some s₀.tree.currentFrame) (s₀.tree.depthOf s₀.tree.currentFrame + 1)) := by
      rw [Tree.frame?_withChild, if_pos rfl]
    obtain ⟨f, hf, hparent, -⟩ := hextends.frame hnew
    refine (congrArg (Option.bind · Frame.parent) hf).trans ?_
    rw [Option.bind_some, hparent]
    rfl

/-! ## Functions without a body -/

/-- Naming a function leaves a trail. -/
theorem trail_named {entity : Entity} {name canonical : String}
    (hnamed : s₁ = (s.addEntity entity).bind name s.newEntity) :
    Trail s ([⟨s.tree.currentFrame, name, s.newEntity, 0⟩] ++ newBinding s₁ canonical s.newEntity)
      (s₁.bindNew canonical s.newEntity) := by
  subst hnamed
  exact (Trail.after .addEntity (.single .bind)).trans Trail.bindNew

/-- A frame that is a child of the innermost one still is after a function was named. -/
theorem child_named {entity : Entity} {name canonical : String}
    (hnamed : s₁ = (s.addEntity entity).bind name s.newEntity)
    (hchild : (s.tree.frame? frame).bind Frame.parent = some s.tree.currentFrame) :
    ((s₁.bindNew canonical s.newEntity).tree.frame? frame).bind Frame.parent =
      some (s₁.bindNew canonical s.newEntity).tree.currentFrame := by
  have hwithin : Within s.tree (s₁.bindNew canonical s.newEntity).tree :=
    (Within.named hnamed).trans Within.bindNew
  obtain ⟨f, hf, hparent⟩ := Option.bind_eq_some_iff.1 hchild
  obtain ⟨f', hf', hsame, -⟩ := hwithin.grows.frame hf
  rw [hf', Option.bind_some, hsame, hparent, hwithin.current]

namespace State.Steady

/-- The state in which the body of a function is read. -/
theorem enters (h : s.Steady) {header : ExprId} {params? : Option ExprId} {result : EntityId}
    {span : Span} {params : List EntityId} {canonical name : String}
    (hexpr : s.tree.expr? header = some ⟨.signature params? result frame, span⟩)
    (hparams : s.tree.variables? frame = some params)
    (hnamed : s₁ = (s.addEntity ⟨canonical, .function params result⟩).bind name s.newEntity)
    (henter : Enters (s₁.bindNew canonical s.newEntity) frame s₂) : s₂.Steady := by
  refine h.quiet ((trail_named hnamed).snoc (.enters henter)) ?_ ?_ ?_ ?_
  · exact (Quiet.named hnamed).trans (Quiet.bindNew.trans henter.quiet)
  · rw [henter.constructs, State.bindNew_constructs, hnamed]
    rfl
  · exact (sound_enters h.tree hexpr hparams hnamed henter).1
  · exact builtinAtoms_enters (builtinAtoms_named h.atoms rfl hnamed) henter

/-- A function has no body where it is named, before its body is recorded there. -/
theorem no_body (h : s.Steady) {entity : Entity} {name canonical : String} {s₃ : State}
    (hnamed : s₁ = (s.addEntity entity).bind name s.newEntity)
    (henter : Enters (s₁.bindNew canonical s.newEntity) frame s₂)
    (hbody : Within s₂.tree s₃.tree) (hclose : Closes s₃ s') :
    (s'.tree.frame? s'.tree.currentFrame).bind (·.body? s.newEntity) = none := by
  have hframed : (s₁.bindNew canonical s.newEntity).tree.Framed :=
    ((trail_named hnamed).nested h.nested).framed
  have hquiet : Quiet s.tree (s₁.bindNew canonical s.newEntity).tree :=
    (Quiet.named hnamed).trans Quiet.bindNew
  have hleaves := henter.leaves hclose hbody
  obtain ⟨f, hf, hparent⟩ := Option.bind_eq_some_iff.1 henter.eq.1
  -- the frame that was entered is younger than the one the function is named in
  have hne : (s₁.bindNew canonical s.newEntity).tree.currentFrame ≠ frame := fun heq =>
    absurd (hframed.parent hf hparent) (by rw [heq]; exact Nat.lt_irrefl _)
  rw [hleaves.current, hleaves.frames _ hframed.current hne, Option.bind_eq_none_iff]
  intro g hg
  cases hfound : g.body? s.newEntity with
  | none => rfl
  | some body =>
    obtain ⟨g', hg', hmem⟩ := hquiet.bodies hg _ (Assoc.mem_of_lookup hfound)
    exact absurd (h.bodies hg' _ hmem) (Nat.lt_irrefl _)

end State.Steady

end Grammar

end OnePass

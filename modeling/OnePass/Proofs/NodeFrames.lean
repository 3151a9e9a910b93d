import OnePass.Proofs.Course
import OnePass.Proofs.Parts

/-!
# Frames of nodes

The frames of a tree lie in one another as the nodes do that keep them. What a course makes keeps
frames that are new on it and lie inside of the frame in which the course was taken (`Fresh`),
whatever groups opened frames on the way, which no node keeps. The header of a function and the
body keep one frame, and otherwise a frame is kept by one node (`Fresh.single`).

A node that keeps a frame was made of what was read in that frame (`Origin.housed`). Its parts are
new on that course, for they lie after all that was there before (`Tree.Forest`). That is the
nesting of the frames in every source that is accepted (`accepted_frames`).
-/

namespace OnePass

namespace Tree

variable {t t' : Tree} {id : ExprId} {frame outer inner : FrameId}

/-- The expression keeps the frame. -/
def Carries (t : Tree) (id : ExprId) (frame : FrameId) : Prop :=
  ∃ e, t.expr? id = some e ∧ frame ∈ e.node.frames

/-- The frame `outer` is the parent of `inner`. -/
def Parent (t : Tree) (outer inner : FrameId) : Prop :=
  (t.frame? inner).bind Frame.parent = some outer

/-- The frame `outer` is the parent of `inner`, or the parent of its parent, and so on. -/
def Surrounds (t : Tree) : FrameId → FrameId → Prop := Relation.TransGen t.Parent

/-- The two expressions are the header and the body of one function, in this order. -/
def Halves (t : Tree) (header body : ExprId) : Prop :=
  ∃ id name entity span, t.expr? id = some ⟨.function name entity header body, span⟩

/-- The expressions are the header and the body of a function, with one frame for both. -/
def ShareFrame (t : Tree) (header body : ExprId) : Prop :=
  ∃ params? result members frame span span',
    t.expr? header = some ⟨.signature params? result frame, span⟩ ∧
    t.expr? body = some ⟨.scope members frame, span'⟩

/-- An expression that was there before kept the frame then. -/
theorem Carries.before (h : t'.Carries id frame) (hgrows : t.Extends t') (hid : t.HasExpr id) :
    t.Carries id frame := by
  obtain ⟨e, he, hframe⟩ := h
  exact ⟨e, (hgrows.expr_eq hid).symm.trans he, hframe⟩

theorem Carries.hasExpr (h : t.Carries id frame) : t.HasExpr id := by
  obtain ⟨e, he, _⟩ := h
  exact hasExpr_iff.2 ⟨e, he⟩

/-- The last expression keeps the frames of its node. -/
theorem carries_pushExpr {node : Node} {span : Span}
    (h : (t.pushExpr ⟨node, span⟩).2.Carries id frame) :
    t.Carries id frame ∨ id = ⟨t.exprs.size⟩ ∧ frame ∈ node.frames := by
  obtain ⟨e, he, hframe⟩ := h
  rcases of_expr?_pushExpr he with hold | ⟨rfl, rfl⟩
  · exact .inl ⟨e, hold, hframe⟩
  · exact .inr ⟨rfl, hframe⟩

theorem hasExpr_congr (hexprs : t'.exprs = t.exprs) : t'.HasExpr id ↔ t.HasExpr id := by
  unfold HasExpr
  rw [hexprs]

theorem carries_congr (hexprs : t'.exprs = t.exprs) :
    t'.Carries id frame ↔ t.Carries id frame := by
  unfold Carries
  rw [expr?_congr hexprs]

theorem Parent.mono (h : t.Parent outer inner) (hgrows : t.Extends t') : t'.Parent outer inner := by
  obtain ⟨f, hf, hparent⟩ := Option.bind_eq_some_iff.1 h
  obtain ⟨f', hf', hparent', _⟩ := hgrows.frame hf
  exact Option.bind_eq_some_iff.2 ⟨f', hf', hparent'.trans hparent⟩

theorem Surrounds.mono (h : t.Surrounds outer inner) (hgrows : t.Extends t') :
    t'.Surrounds outer inner := h.lift id fun _ _ hparent => hparent.mono hgrows

theorem Surrounds.hasFrame (h : t.Surrounds outer inner) : t.HasFrame inner := by
  obtain ⟨_, _, hparent⟩ := Relation.TransGen.tail'_iff.1 h
  obtain ⟨f, hf, _⟩ := Option.bind_eq_some_iff.1 hparent
  exact hasFrame_iff.2 ⟨f, hf⟩

theorem Halves.mono {header body : ExprId} (h : t.Halves header body) (hgrows : t.Extends t') :
    t'.Halves header body := by
  obtain ⟨id, name, entity, span, he⟩ := h
  exact ⟨id, name, entity, span, hgrows.expr he⟩

theorem ShareFrame.mono {header body : ExprId} (h : t.ShareFrame header body)
    (hgrows : t.Extends t') : t'.ShareFrame header body := by
  obtain ⟨_, _, _, _, _, _, hheader, hbody⟩ := h
  exact ⟨_, _, _, _, _, _, hgrows.expr hheader, hgrows.expr hbody⟩

end Tree

namespace Grammar

variable {t t₁ t₂ t' : Tree} {s s' s₁ : State} {outer frame : FrameId} {node : Node} {span : Span}

/-! ## What a course makes -/

/-- Each new node that keeps a frame keeps a new one inside of `outer`. No two keep the same one,
but for the bodies of functions, which keep that of the header. -/
structure Fresh (t : Tree) (outer : FrameId) (t' : Tree) : Prop where
  grows : t.Extends t'
  inside : ∀ {id frame}, t'.Carries id frame → ¬t.HasExpr id → t'.Surrounds outer frame
  isNew : ∀ {id frame}, t'.Carries id frame → ¬t.HasExpr id → ¬t.HasFrame frame
  single : ∀ {id id' frame}, t'.Carries id frame → t'.Carries id' frame → ¬t.HasExpr id →
    ¬t.HasExpr id' → (∀ header, ¬t'.Halves header id) → (∀ header, ¬t'.Halves header id') →
    id = id'
  halves : ∀ {id name entity header body span},
    t'.expr? id = some ⟨.function name entity header body, span⟩ → ¬t.HasExpr id →
    t'.ShareFrame header body

namespace Fresh

/-- Nothing is made. -/
theorem quiet (hgrows : t.Extends t') (hexprs : t'.exprs = t.exprs) : Fresh t outer t' := by
  have hold : ∀ {id frame}, t'.Carries id frame → t.HasExpr id := fun hid =>
    (Tree.hasExpr_congr hexprs).1 hid.hasExpr
  refine ⟨hgrows, ?_, ?_, fun hid _ hnew => absurd (hold hid) hnew, ?_⟩
  · exact fun hid hnew => absurd (hold hid) hnew
  · exact fun hid hnew => absurd (hold hid) hnew
  · intro id name entity header body span he hnew
    exact absurd ((Tree.hasExpr_congr hexprs).1 (Tree.hasExpr_iff.2 ⟨_, he⟩)) hnew

theorem trans (h : Fresh t outer t₁) (h' : Fresh t₁ outer t') : Fresh t outer t' := by
  refine ⟨h.grows.trans h'.grows, ?_, ?_, ?_, ?_⟩
  · intro id frame hid hnew
    by_cases hmid : t₁.HasExpr id
    · exact (h.inside (hid.before h'.grows hmid) hnew).mono h'.grows
    · exact h'.inside hid hmid
  · intro id frame hid hnew
    by_cases hmid : t₁.HasExpr id
    · exact h.isNew (hid.before h'.grows hmid) hnew
    · exact fun hframe => h'.isNew hid hmid (h.grows.hasFrame hframe)
  · -- a frame kept before the middle is not new after it
    have hcross : ∀ {id id' frame}, t'.Carries id frame → t'.Carries id' frame → ¬t.HasExpr id →
        t₁.HasExpr id → t₁.HasExpr id' := by
      intro id id' frame hid hid' hnew hmid
      have hframe := (h.inside (hid.before h'.grows hmid) hnew).hasFrame
      exact Classical.not_not.1 fun hmid' => h'.isNew hid' hmid' hframe
    intro id id' frame hid hid' hnew hnew' hbody hbody'
    by_cases hmid : t₁.HasExpr id
    · have hmid' := hcross hid hid' hnew hmid
      exact h.single (hid.before h'.grows hmid) (hid'.before h'.grows hmid') hnew hnew'
        (fun header hhalves => hbody header (hhalves.mono h'.grows))
        (fun header hhalves => hbody' header (hhalves.mono h'.grows))
    · exact h'.single hid hid' hmid (fun hmid' => hmid (hcross hid' hid hnew' hmid')) hbody hbody'
  · intro id name entity header body span he hnew
    by_cases hmid : t₁.HasExpr id
    · exact (h.halves ((h'.grows.expr_eq hmid).symm.trans he) hnew).mono h'.grows
    · exact h'.halves he hmid

/-- What is made inside of a frame is made around that frame too. -/
theorem widen (h : Fresh t₁ frame t') (hgrows : t.Extends t₁) (hexprs : t₁.exprs = t.exprs)
    (hframe : t₁.Surrounds outer frame) : Fresh t outer t' := by
  have hnew : ∀ {id}, ¬t.HasExpr id → ¬t₁.HasExpr id := mt (Tree.hasExpr_congr hexprs).1
  refine ⟨hgrows.trans h.grows, ?_, ?_, ?_, fun he hid => h.halves he (hnew hid)⟩
  · exact fun hcarries hid => (hframe.mono h.grows).trans (h.inside hcarries (hnew hid))
  · exact fun hcarries hid hthere => h.isNew hcarries (hnew hid) (hgrows.hasFrame hthere)
  · exact fun hcarries hcarries' hid hid' => h.single hcarries hcarries' (hnew hid) (hnew hid')

/-- The last expression is a node without a frame. -/
theorem add (hframes : node.frames = []) (hfunction : node.isFunction = false) :
    Fresh t outer (t.pushExpr ⟨node, span⟩).2 := by
  have hold : ∀ {id frame}, (t.pushExpr ⟨node, span⟩).2.Carries id frame → t.HasExpr id := by
    intro id frame hid
    rcases Tree.carries_pushExpr hid with hid | ⟨_, hframe⟩
    · exact hid.hasExpr
    · rw [hframes] at hframe
      cases hframe
  refine ⟨t.pushExpr_extends _, ?_, ?_, fun hid _ hnew => absurd (hold hid) hnew, ?_⟩
  · exact fun hid hnew => absurd (hold hid) hnew
  · exact fun hid hnew => absurd (hold hid) hnew
  · intro id name entity header body span' he hnew
    rcases Tree.of_expr?_pushExpr he with hbefore | ⟨_, hnode⟩
    · exact absurd (Tree.hasExpr_iff.2 ⟨_, hbefore⟩) hnew
    · cases hnode
      cases hfunction

/-- The last expression keeps the new frame in which all else that is new was made. -/
theorem house (h : Fresh t₁ frame t') (hgrows : t.Extends t₁) (hexprs : t₁.exprs = t.exprs)
    (hframe : t₁.Surrounds outer frame) (hnew : ¬t.HasFrame frame)
    (hframes : node.frames = [frame]) : Fresh t outer (t'.pushExpr ⟨node, span⟩).2 := by
  have hwide := h.widen hgrows hexprs hframe
  have hpush := t'.pushExpr_extends ⟨node, span⟩
  have hcases : ∀ {id other}, (t'.pushExpr ⟨node, span⟩).2.Carries id other →
      t'.Carries id other ∨ id = ⟨t'.exprs.size⟩ ∧ other = frame := by
    intro id other hid
    refine (Tree.carries_pushExpr hid).imp_right (And.imp_right fun hother => ?_)
    rw [hframes] at hother
    exact List.mem_singleton.1 hother
  -- no other new node keeps the frame
  have hold : ∀ {id}, t'.Carries id frame → t.HasExpr id := fun hid =>
    Classical.not_not.1 fun hid' =>
      h.isNew hid (mt (Tree.hasExpr_congr hexprs).1 hid') hframe.hasFrame
  refine ⟨hwide.grows.trans hpush, ?_, ?_, ?_, ?_⟩
  · intro id other hid hid'
    rcases hcases hid with hid | ⟨_, rfl⟩
    · exact (hwide.inside hid hid').mono hpush
    · exact (hframe.mono h.grows).mono hpush
  · intro id other hid hid'
    rcases hcases hid with hid | ⟨_, rfl⟩
    · exact hwide.isNew hid hid'
    · exact hnew
  · intro id id' other hid hid' hnew hnew' hbody hbody'
    rcases hcases hid with hid | ⟨rfl, rfl⟩ <;> rcases hcases hid' with hid' | ⟨rfl, hother⟩
    · exact hwide.single hid hid' hnew hnew'
        (fun header hhalves => hbody header (hhalves.mono hpush))
        (fun header hhalves => hbody' header (hhalves.mono hpush))
    · exact absurd (hold (hother ▸ hid)) hnew
    · exact absurd (hold hid') hnew'
    · rfl
  · intro id name entity header body span' he hid
    rcases Tree.of_expr?_pushExpr he with hbefore | ⟨_, hnode⟩
    · exact (hwide.halves hbefore hid).mono hpush
    · cases hnode
      cases hframes

/-- The last two expressions are the body of a function and the function, of which the header is
new too. -/
theorem function {name : String} {entity result : EntityId} {header : ExprId}
    {params? : Option ExprId} {members : List ExprId} {headerSpan bodySpan : Span}
    (h : Fresh t outer t₁) (hnew : ¬t.HasExpr header)
    (hheader : t₁.expr? header = some ⟨.signature params? result frame, headerSpan⟩)
    (hscope : (t₁.pushExpr ⟨.scope members frame, bodySpan⟩).2.Extends t')
    (hexprs : t'.exprs = (t₁.pushExpr ⟨.scope members frame, bodySpan⟩).2.exprs) :
    Fresh t outer (t'.pushExpr ⟨.function name entity header ⟨t₁.exprs.size⟩, span⟩).2 := by
  have hbody := (t₁.pushExpr_extends _).trans hscope
  have hpush := hbody.trans
    (t'.pushExpr_extends ⟨.function name entity header ⟨t₁.exprs.size⟩, span⟩)
  have hlast := t'.expr?_pushExpr_new ⟨.function name entity header ⟨t₁.exprs.size⟩, span⟩
  have hcarries : t₁.Carries header frame := ⟨_, hheader, List.mem_singleton_self _⟩
  have hcases : ∀ {id other}, (t'.pushExpr ⟨.function name entity header ⟨t₁.exprs.size⟩,
      span⟩).2.Carries id other → t₁.Carries id other ∨ id = ⟨t₁.exprs.size⟩ ∧ other = frame := by
    intro id other hid
    rcases Tree.carries_pushExpr hid with hid | ⟨_, hother⟩
    · exact (Tree.carries_pushExpr ((Tree.carries_congr hexprs).1 hid)).imp_right
        (And.imp_right List.mem_singleton.1)
    · cases hother
  refine ⟨h.grows.trans hpush, ?_, ?_, ?_, ?_⟩
  · intro id other hid hid'
    rcases hcases hid with hid | ⟨_, rfl⟩
    · exact (h.inside hid hid').mono hpush
    · exact (h.inside hcarries hnew).mono hpush
  · intro id other hid hid'
    rcases hcases hid with hid | ⟨_, rfl⟩
    · exact h.isNew hid hid'
    · exact h.isNew hcarries hnew
  · -- the new scope is a body
    intro id id' other hid hid' hnew hnew' hbody hbody'
    rcases hcases hid with hid | ⟨rfl, _⟩
    · rcases hcases hid' with hid' | ⟨rfl, _⟩
      · exact h.single hid hid' hnew hnew'
          (fun header hhalves => hbody header (hhalves.mono hpush))
          (fun header hhalves => hbody' header (hhalves.mono hpush))
      · exact absurd ⟨_, _, _, _, hlast⟩ (hbody' header)
    · exact absurd ⟨_, _, _, _, hlast⟩ (hbody header)
  · intro id name' entity' header' body' span' he hid
    rcases Tree.of_expr?_pushExpr he with he | ⟨_, hnode⟩
    · rw [Tree.expr?_congr hexprs] at he
      rcases Tree.of_expr?_pushExpr he with he | ⟨_, hnode⟩
      · exact (h.halves he hid).mono hpush
      · cases hnode
    · cases hnode
      have hshare : t'.ShareFrame header ⟨t₁.exprs.size⟩ := ⟨params?, result, members, frame, _, _,
        hbody.expr hheader, hscope.expr (t₁.expr?_pushExpr_new _)⟩
      exact hshare.mono (t'.pushExpr_extends _)

end Fresh

theorem Opens.surrounds (h : Opens s frame s') :
    s'.tree.Surrounds s.tree.currentFrame frame := by
  obtain ⟨rfl, hsize, rfl⟩ := h.eq
  refine .single ?_
  show (s.tree.withChild.frame? ⟨s.tree.frames.size⟩).bind Frame.parent = _
  rw [Tree.frame?_withChild, if_pos rfl]
  rfl

theorem Opens.isNew (h : Opens s frame s') : ¬s.tree.HasFrame frame := by
  rw [h.eq.1]
  exact Nat.lt_irrefl _

theorem Enters.parent (h : Enters s frame s') : s'.tree.Parent s.tree.currentFrame frame := by
  obtain ⟨hparent, hsize, rfl⟩ := h.eq
  exact hparent

/-- What a course makes is new and lies inside of the frame in which the course was taken. -/
theorem Course.fresh (h : Course s s') : Fresh s.tree s.tree.currentFrame s'.tree := by
  induction h with
  | refl => exact .quiet .refl rfl
  | trans h _ ih ih' =>
    rw [h.current] at ih'
    exact ih.trans ih'
  | still _ htree =>
    rw [htree]
    exact .quiet .refl rfl
  | add hframes hfunction => exact .add hframes hfunction
  | install hname => exact .quiet (Course.install hname).extends rfl
  | within hopen _ hclose ih =>
    rw [hopen.current] at ih
    have hwide := ih.widen (Step.opens hopen).extends hopen.exprs hopen.surrounds
    exact hwide.trans (.quiet (Step.closes hclose).extends hclose.exprs)
  | house hopen _ hclose hframes ih =>
    rw [hopen.current] at ih
    have hclosed := ih.trans (.quiet (Step.closes hclose).extends hclose.exprs)
    exact hclosed.house (Step.opens hopen).extends hopen.exprs hopen.surrounds hopen.isNew
      hframes
  | @function s s₀ s₁ s₂ s₃ s₄ name canonical header params? result frame _ bodySpan params members
      tree span hheader hexpr _ hnew _ _ hnamed henter _ hclose hbind ih ih' =>
    -- from the header to the body nothing is made
    have hquiet := (Quiet.named hnamed).trans (Quiet.bindNew.trans henter.quiet)
    obtain ⟨_, htrail⟩ := @Trail.named _ _ _ _ canonical hnamed
    have hentered := htrail.extends.trans (Step.enters henter).extends
    have hparent := henter.parent
    rw [current_named hnamed, hheader.current] at hparent
    rw [henter.current] at ih'
    have hbody := ih.trans (ih'.widen hentered hquiet.exprs (.single hparent))
    have hbound : (s₃.tree.pushExpr ⟨.scope members frame, bodySpan⟩).2.Extends tree :=
      (Step.closes hclose).extends.trans (Step.bindBody hbind).extends
    refine hbody.function hnew ((hentered.trans ih'.grows).expr hexpr) hbound ?_
    obtain rfl := Tree.bindBody_ok hbind
    exact hclose.exprs

/-! ## What is made of parts -/

/-- The parts of the expression are new on a course in the frame `frame`, from the state `s` to
the state `s'`, from which `t` has grown. -/
structure Lodged (t : Tree) (id : ExprId) (frame : FrameId) (s s' : State) : Prop where
  current : s.tree.currentFrame = frame
  course : Course s s'
  last : id = s'.newExpr
  grows : s'.tree.Extends t
  parts : t.Forest s.tree.exprs.size [id] (id.index + 1)

/-- What keeps a frame was made of what was read in that frame. -/
theorem Housed.lodged {id : ExprId} {e : Expr} (h : Housed t₁ id t₂) (hgrows : Grows t₁ [] t₂ [id])
    (he : t₂.expr? id = some e) (hframe : frame ∈ e.node.frames) (hthen : t₂.Extends t) :
    ∃ s s', Lodged t id frame s s' := by
  obtain ⟨hexprs, hcurrent, hinner, hframes, rfl, hmade, hextends⟩ := h
  rename_i s s' _ node span
  have hlast : t₂.expr? s'.newExpr = some ⟨node, span⟩ :=
    (Tree.expr?_congr hmade s'.newExpr).trans (expr?_newExpr s' node span)
  obtain rfl := Option.some.inj (he.symm.trans hlast)
  rw [hframes] at hframe
  have hsize : t₂.exprs.size = s'.newExpr.index + 1 := by
    rw [hmade]
    exact Array.size_push _
  have hforest := hgrows.forest .nil
  rw [hsize, ← hexprs] at hforest
  exact ⟨s, s', hcurrent.trans (List.mem_singleton.1 hframe).symm, hinner, rfl,
    hextends.trans hthen, hforest.mono hthen⟩

/-- What keeps a frame was made of what was read in that frame. -/
theorem Origin.lodged {id : ExprId} {e : Expr} (h : Origin t id e)
    (hframe : frame ∈ e.node.frames) : ∃ s s', Lodged t id frame s s' := by
  cases h with
  | endless => cases hframe
  | made hread hs hfits hplaced hmade hexpr hevolves =>
    have hgrows := hread.grows hs hfits hplaced
    have hcourse := hread.course
    cases hread with
    | scopeBody hbody =>
      cases hmade
      obtain ⟨s₁, members, span, hstate, hid, hinner⟩ := hcourse trivial
      rw [hstate] at hgrows hexpr hevolves
      exact Housed.lodged (.house rfl hplaced hinner rfl hid rfl (Tree.pushExpr_extends _ _)) hgrows
        hexpr hframe hevolves.toExtends
    | branch | loopEndless | loopWhile | loopCounted | record =>
      cases hmade
      exact (hcourse trivial).2.lodged hgrows hexpr hframe hevolves.toExtends
    | groupParameters =>
      cases hmade
      rcases (hcourse trivial).2 with hhoused | ⟨x, hx, hnone⟩
      · exact hhoused.lodged hgrows hexpr hframe hevolves.toExtends
      · obtain rfl := Option.some.inj (hx.symm.trans hexpr)
        rw [hnone] at hframe
        cases hframe
    | literal hnode =>
      cases hmade
      cases eq_of_newExpr hexpr
      cases hnode <;> cases hframe
    | _ => cases hmade <;> cases eq_of_newExpr hexpr <;> cases hframe

/-! ## Whole sources -/

variable {tokens : TokenList} {tree : Tree} {id id' part header body : ExprId} {frame' : FrameId}

theorem lodged_of_parse (h : parse tokens = .ok tree) (hid : tree.Carries id frame) :
    ∃ s s', Lodged tree id frame s s' := by
  obtain ⟨e, he, hframe⟩ := hid
  rcases origin_of_parse h he with horigin | ⟨hmain, members, hnode⟩
  · exact horigin.lodged hframe
  · obtain ⟨main, hmain', hlast, hforest⟩ := forest_of_parse h
    obtain rfl := Option.some.inj (hmain.symm.trans hmain')
    obtain ⟨s, _, _, hcourse, hgrows, rfl⟩ := course_of_parse h
    rw [hnode] at hframe
    rw [← hlast] at hforest
    exact ⟨.initial tokens, s, (List.mem_singleton.1 hframe).symm, hcourse,
      (Option.some.inj hmain).symm, hgrows, hforest⟩

/-- A node inside of another keeps a frame inside of that of the other. -/
theorem surrounds_of_parse (h : parse tokens = .ok tree) (hid : tree.Carries id frame)
    (hpart : tree.Carries part frame') (hbelow : tree.Below id part) (hne : part ≠ id) :
    tree.Surrounds frame frame' := by
  obtain ⟨s, s', hlodged⟩ := lodged_of_parse h hid
  obtain ⟨hnew, hlast⟩ := hlodged.parts.range_below (List.mem_singleton_self _) hbelow
  have hthere : s'.tree.HasExpr part := by
    have hlt := Nat.lt_of_le_of_ne (Nat.le_of_lt_succ hlast) fun heq => hne (congrArg ExprId.mk heq)
    rw [hlodged.last] at hlt
    exact hlt
  have hinside := hlodged.course.fresh.inside (hpart.before hlodged.grows hthere)
    (Nat.not_lt.2 hnew)
  rw [hlodged.current] at hinside
  exact hinside.mono hlodged.grows

theorem shareFrame_of_parse (h : parse tokens = .ok tree) (hhalves : tree.Halves header body) :
    tree.ShareFrame header body := by
  obtain ⟨s, members, span, hcourse, hgrows, rfl⟩ := course_of_parse h
  obtain ⟨id, name, entity, span', he⟩ := hhalves
  rcases Tree.of_expr?_pushExpr (t := s.tree) he with he | ⟨_, hnode⟩
  · exact (hcourse.fresh.halves he (Nat.not_lt_zero _)).mono hgrows
  · cases hnode

/-- Two nodes that are not bodies of functions keep different frames. -/
theorem single_of_parse (h : parse tokens = .ok tree) (hid : tree.Carries id frame)
    (hid' : tree.Carries id' frame) (hbody : ∀ header, ¬tree.Halves header id)
    (hbody' : ∀ header, ¬tree.Halves header id') : id = id' := by
  obtain ⟨s, members, span, hcourse, hgrows, rfl⟩ := course_of_parse h
  have hfresh := hcourse.fresh
  have hnew : ∀ {id}, ¬(State.initial tokens).tree.HasExpr id := Nat.not_lt_zero _
  have hmain : ∀ {id}, ¬s.tree.Carries id Tree.mainFrame := fun hid =>
    hfresh.isNew hid hnew framed_withBuiltins.current
  rcases Tree.carries_pushExpr (t := s.tree) hid with hid | ⟨rfl, hframe⟩
  · rcases Tree.carries_pushExpr (t := s.tree) hid' with hid' | ⟨rfl, hframe⟩
    · exact hfresh.single hid hid' hnew hnew
        (fun header hhalves => hbody header (hhalves.mono hgrows))
        (fun header hhalves => hbody' header (hhalves.mono hgrows))
    · cases List.mem_singleton.1 hframe
      exact absurd hid hmain
  · cases List.mem_singleton.1 hframe
    rcases Tree.carries_pushExpr (t := s.tree) hid' with hid' | ⟨rfl, _⟩
    · exact absurd hid' hmain
    · rfl

/-- A header has one body. -/
theorem body_unique (ht : tree.OneTree) (h : tree.Halves header id) (h' : tree.Halves header id') :
    id = id' := by
  obtain ⟨_, _, _, _, he⟩ := h
  obtain ⟨_, _, _, _, he'⟩ := h'
  obtain rfl := ht.parent_eq he List.mem_cons_self he' List.mem_cons_self
  cases he.symm.trans he'
  rfl

/-- A frame that a body keeps is kept by the header, which is no body. -/
theorem keeper_of_parse (h : parse tokens = .ok tree) (hid : tree.Carries id frame) :
    ∃ keeper, tree.Carries keeper frame ∧ (∀ header, ¬tree.Halves header keeper) ∧
      (keeper = id ∨ tree.Halves keeper id) := by
  by_cases hbody : ∃ header, tree.Halves header id
  · obtain ⟨header, hhalves⟩ := hbody
    obtain ⟨_, _, _, _, _, _, hheader, hscope⟩ := shareFrame_of_parse h hhalves
    obtain ⟨e, he, hframe⟩ := hid
    obtain rfl := Option.some.inj (hscope.symm.trans he)
    refine ⟨header, ⟨_, hheader, hframe⟩, ?_, .inr hhalves⟩
    intro other hother
    obtain ⟨_, _, _, _, _, _, _, hscope'⟩ := shareFrame_of_parse h hother
    cases hheader.symm.trans hscope'
  · exact ⟨id, hid, fun header hhalves => hbody ⟨header, hhalves⟩, .inl rfl⟩

/-- Two nodes that keep the same frame are the header and the body of a function. -/
theorem halves_of_parse (h : parse tokens = .ok tree) (hid : tree.Carries id frame)
    (hid' : tree.Carries id' frame) : id = id' ∨ tree.Halves id id' ∨ tree.Halves id' id := by
  obtain ⟨keeper, hkeeper, hbody, hkept⟩ := keeper_of_parse h hid
  obtain ⟨keeper', hkeeper', hbody', hkept'⟩ := keeper_of_parse h hid'
  obtain rfl := single_of_parse h hkeeper hkeeper' hbody hbody'
  rcases hkept with rfl | hhalves
  · rcases hkept' with rfl | hhalves'
    · exact .inl rfl
    · exact .inr (.inl hhalves')
  · rcases hkept' with rfl | hhalves'
    · exact .inr (.inr hhalves)
    · exact .inl (body_unique (oneTree_of_parse h) hhalves hhalves')

/-- The frames of a source that is accepted mirror its tree. A node inside of another keeps a
frame inside of that of the other. A function has one frame for its header and its body, and apart
from these two no nodes keep the same frame. -/
theorem accepted_frames {source : String} (h : parseSource source = .ok tree) :
    (∀ id part frame frame', tree.Carries id frame → tree.Carries part frame' →
      tree.Below id part → part ≠ id → tree.Surrounds frame frame') ∧
    (∀ header body, tree.Halves header body → tree.ShareFrame header body) ∧
    ∀ id id' frame, tree.Carries id frame → tree.Carries id' frame →
      id = id' ∨ tree.Halves id id' ∨ tree.Halves id' id := by
  obtain ⟨tokens, _, hparse⟩ := parseSource_ok h
  refine ⟨fun _ _ _ _ hid hpart => surrounds_of_parse hparse hid hpart,
    fun _ _ => shareFrame_of_parse hparse, fun _ _ _ => halves_of_parse hparse⟩

/-- A function with a loop in its body. -/
def loopSource : String := "f :: (n : s32) \x7b for \x7b \x7d \x7d\n"

/-- What the loop holds lies in the frame of the parameter. -/
theorem accepted_frames_loop : ∃ tree, parseSource loopSource = .ok tree ∧
    tree.ShareFrame ⟨1⟩ ⟨5⟩ ∧ tree.Surrounds ⟨1⟩ ⟨3⟩ := by
  have hrun : (parseSource loopSource).toOption.any (fun tree =>
      decide ((tree.expr? ⟨3⟩).map Expr.node = some (.scope [] ⟨3⟩) ∧
        (tree.expr? ⟨4⟩).map Expr.node = some (.whileLoop ⟨2⟩ ⟨3⟩ ⟨2⟩) ∧
        (tree.expr? ⟨5⟩).map Expr.node = some (.scope [⟨4⟩] ⟨1⟩) ∧
        (tree.expr? ⟨6⟩).map Expr.node = some (.function "f" ⟨17⟩ ⟨1⟩ ⟨5⟩))) = true := by
    decide +kernel
  obtain ⟨tree, hparse, hcheck⟩ := exists_parse hrun
  obtain ⟨hinner, hloop, hbody, hfunction⟩ := of_decide_eq_true hcheck
  obtain ⟨_, hinner⟩ := exists_span hinner
  obtain ⟨_, hloop⟩ := exists_span hloop
  obtain ⟨_, hbody⟩ := exists_span hbody
  obtain ⟨_, hfunction⟩ := exists_span hfunction
  obtain ⟨hnested, hshared, -⟩ := accepted_frames hparse
  refine ⟨tree, hparse, hshared _ _ ⟨_, _, _, _, hfunction⟩, ?_⟩
  have hbelow : tree.Below ⟨5⟩ ⟨3⟩ := (Tree.Below.child hbody List.mem_cons_self).trans
    (.child hloop (List.mem_cons_of_mem _ List.mem_cons_self))
  exact hnested _ _ _ _ ⟨_, hbody, List.mem_cons_self⟩ ⟨_, hinner, List.mem_cons_self⟩ hbelow
    (by decide)

end Grammar

end OnePass

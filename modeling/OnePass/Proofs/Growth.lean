import OnePass.Proofs.Trail

/-!
# Growth

What every step of a reading keeps. The arenas only grow: whatever a tree has, the trees after
it have too, and a frame keeps the frames around it (`Tree.Extends`). The open frames and the
frames around any frame are there, and older than it (`Tree.Framed`). Both are shown of one
step and then of a trail.
-/

namespace OnePass.Tree

variable {t t' t'' : Tree}

/-! ## Handles in range -/

/-- The tree has an expression under the handle. -/
def HasExpr (t : Tree) (id : ExprId) : Prop := id.index < t.exprs.size

/-- The tree has an entity under the handle. -/
def HasEntity (t : Tree) (id : EntityId) : Prop := id.index < t.entities.size

/-- The tree has a frame under the handle. -/
def HasFrame (t : Tree) (id : FrameId) : Prop := id.index < t.frames.size

theorem lt_size_iff {α : Type} {xs : Array α} {i : Nat} :
    i < xs.size ↔ ∃ x, xs[i]? = some x := by
  rw [← Option.isSome_iff_exists, isSome_getElem?]

theorem hasExpr_iff {id : ExprId} : t.HasExpr id ↔ ∃ e, t.expr? id = some e := lt_size_iff

theorem hasEntity_iff {id : EntityId} : t.HasEntity id ↔ ∃ e, t.entity? id = some e := lt_size_iff

theorem hasFrame_iff {id : FrameId} : t.HasFrame id ↔ ∃ f, t.frame? id = some f := lt_size_iff

/-! ## One change -/

theorem expr?_pushExpr (t : Tree) (e : Expr) (id : ExprId) :
    (t.pushExpr e).2.expr? id = if id.index = t.exprs.size then some e else t.expr? id :=
  Array.getElem?_push

theorem expr?_pushExpr_new (t : Tree) (e : Expr) :
    (t.pushExpr e).2.expr? ⟨t.exprs.size⟩ = some e := (expr?_pushExpr t e _).trans (if_pos rfl)

/-- What is there after a push was there before, or it was pushed. -/
theorem of_expr?_pushExpr {e x : Expr} {id : ExprId} (h : (t.pushExpr e).2.expr? id = some x) :
    t.expr? id = some x ∨ id = ⟨t.exprs.size⟩ ∧ x = e := by
  rw [expr?_pushExpr] at h
  split at h
  · rename_i hid
    exact .inr ⟨congrArg ExprId.mk hid, (Option.some.inj h).symm⟩
  · exact .inl h

theorem expr?_congr (h : t'.exprs = t.exprs) (id : ExprId) : t'.expr? id = t.expr? id := by
  unfold expr?
  rw [h]

theorem entity?_pushEntity (t : Tree) (e : Entity) (id : EntityId) :
    (t.pushEntity e).2.entity? id =
      if id.index = t.entities.size then some e else t.entity? id := Array.getElem?_push

theorem frame?_withChild (t : Tree) (id : FrameId) :
    t.withChild.frame? id = if id.index = t.frames.size then
      some (.new (some t.currentFrame) (t.depthOf t.currentFrame + 1)) else t.frame? id :=
  Array.getElem?_push

theorem frame?_modifyFrame (t : Tree) (id other : FrameId) (f : Frame → Frame) :
    (t.modifyFrame id f).frame? other =
      if id = other then (t.frame? other).map f else t.frame? other := by
  obtain ⟨i⟩ := id
  obtain ⟨j⟩ := other
  simp only [modifyFrame, frame?, Array.getElem?_modify, FrameId.mk.injEq]

/-- A question that a new frame answers as if it were not there. -/
theorem asked_withChild {α : Type} (answer : Option Frame → α)
    (hnew : ∀ parent depth, answer (some (.new parent depth)) = answer none) (id : FrameId) :
    answer (t.withChild.frame? id) = answer (t.frame? id) := by
  rw [frame?_withChild]
  split
  · rename_i hlast
    have hnone : t.frame? id = none := by
      unfold frame?
      rw [hlast]
      exact Array.getElem?_eq_none (Nat.le_refl _)
    rw [hnone, hnew]
  · rfl

/-- A question that a frame answers the same after the change. -/
theorem asked_modifyFrame {α : Type} (answer : Option Frame → α) {f : Frame → Frame}
    (hf : ∀ x, answer (some (f x)) = answer (some x)) (id other : FrameId) :
    answer ((t.modifyFrame id f).frame? other) = answer (t.frame? other) := by
  rw [frame?_modifyFrame]
  split
  · cases t.frame? other with
    | none => rfl
    | some x => exact hf x
  · rfl

theorem bindBody_ok {id : FrameId} {function : EntityId} {body : ExprId}
    (h : t.bindBody id function body = .ok t') :
    t' = t.modifyFrame id (·.setBody function body) := by
  unfold bindBody at h
  split at h
  · cases h
  · cases h
    rfl

/-! ## Growth -/

/-- `t'` has everything that `t` has, and frames lie inside the same frames. -/
structure Extends (t t' : Tree) : Prop where
  expr : ∀ {id e}, t.expr? id = some e → t'.expr? id = some e
  entity : ∀ {id e}, t.entity? id = some e → t'.entity? id = some e
  frame : ∀ {id f}, t.frame? id = some f →
    ∃ f', t'.frame? id = some f' ∧ f'.parent = f.parent ∧ f'.depth = f.depth

namespace Extends

theorem refl : t.Extends t := ⟨id, id, fun {_ f} h => ⟨f, h, rfl, rfl⟩⟩

theorem trans (h : t.Extends t') (h' : t'.Extends t'') : t.Extends t'' := by
  refine ⟨fun he => h'.expr (h.expr he), fun he => h'.entity (h.entity he), ?_⟩
  intro id f hf
  obtain ⟨f', hf', hparent', hdepth'⟩ := h.frame hf
  obtain ⟨f'', hf'', hparent'', hdepth''⟩ := h'.frame hf'
  exact ⟨f'', hf'', hparent''.trans hparent', hdepth''.trans hdepth'⟩

theorem hasExpr (h : t.Extends t') {id : ExprId} (hid : t.HasExpr id) : t'.HasExpr id := by
  obtain ⟨e, he⟩ := hasExpr_iff.1 hid
  exact hasExpr_iff.2 ⟨e, h.expr he⟩

theorem hasEntity (h : t.Extends t') {id : EntityId} (hid : t.HasEntity id) :
    t'.HasEntity id := by
  obtain ⟨e, he⟩ := hasEntity_iff.1 hid
  exact hasEntity_iff.2 ⟨e, h.entity he⟩

theorem hasFrame (h : t.Extends t') {id : FrameId} (hid : t.HasFrame id) : t'.HasFrame id := by
  obtain ⟨f, hf⟩ := hasFrame_iff.1 hid
  obtain ⟨f', hf', _⟩ := h.frame hf
  exact hasFrame_iff.2 ⟨f', hf'⟩

theorem exprs_le (h : t.Extends t') : t.exprs.size ≤ t'.exprs.size :=
  Nat.le_of_not_lt fun hlt =>
    Nat.lt_irrefl _ (h.hasExpr (show t.HasExpr ⟨t'.exprs.size⟩ from hlt))

theorem entities_le (h : t.Extends t') : t.entities.size ≤ t'.entities.size :=
  Nat.le_of_not_lt fun hlt =>
    Nat.lt_irrefl _ (h.hasEntity (show t.HasEntity ⟨t'.entities.size⟩ from hlt))

/-- An expression of the larger tree that the smaller one has too is the same there. -/
theorem expr_eq (h : t.Extends t') {id : ExprId} (hid : t.HasExpr id) :
    t'.expr? id = t.expr? id := by
  obtain ⟨e, he⟩ := hasExpr_iff.1 hid
  rw [he, h.expr he]

theorem entity_eq (h : t.Extends t') {id : EntityId} (hid : t.HasEntity id) :
    t'.entity? id = t.entity? id := by
  obtain ⟨e, he⟩ := hasEntity_iff.1 hid
  rw [he, h.entity he]

end Extends

/-! ## Growth by one change -/

theorem pushExpr_extends (t : Tree) (e : Expr) : t.Extends (t.pushExpr e).2 := by
  refine ⟨?_, id, fun {_ f} h => ⟨f, h, rfl, rfl⟩⟩
  intro id found h
  have hid := hasExpr_iff.2 ⟨found, h⟩
  rw [expr?_pushExpr, if_neg (Nat.ne_of_lt hid), h]

theorem pushEntity_extends (t : Tree) (e : Entity) : t.Extends (t.pushEntity e).2 := by
  refine ⟨id, ?_, fun {_ f} h => ⟨f, h, rfl, rfl⟩⟩
  intro id found h
  have hid := hasEntity_iff.2 ⟨found, h⟩
  rw [entity?_pushEntity, if_neg (Nat.ne_of_lt hid), h]

theorem withChild_extends (t : Tree) : t.Extends t.withChild := by
  refine ⟨id, id, ?_⟩
  intro id found h
  have hid := hasFrame_iff.2 ⟨found, h⟩
  exact ⟨found, by rw [frame?_withChild, if_neg (Nat.ne_of_lt hid), h], rfl, rfl⟩

/-- A change of one frame that leaves it where it lies. -/
theorem modifyFrame_extends (t : Tree) (id : FrameId) {f : Frame → Frame}
    (hparent : ∀ x, (f x).parent = x.parent) (hdepth : ∀ x, (f x).depth = x.depth) :
    t.Extends (t.modifyFrame id f) := by
  refine ⟨fun h => h, fun h => h, ?_⟩
  intro other found h
  rw [frame?_modifyFrame, h]
  by_cases hid : id = other
  · exact ⟨f found, by simp [hid], hparent found, hdepth found⟩
  · exact ⟨found, by simp [hid], rfl, rfl⟩

/-! ## Frames in range -/

/-- Some frame is open, the open frames are there, and so are the frames around a frame,
which are older than it. -/
structure Framed (t : Tree) : Prop where
  nonempty : 0 < t.stack.items.size
  stack : ∀ f ∈ t.stack.items, t.HasFrame f
  parent : ∀ {id f parent}, t.frame? id = some f → f.parent = some parent →
    parent.index < id.index

namespace Framed

theorem current_mem (h : t.Framed) : t.currentFrame ∈ t.stack.items := by
  have hlast : t.stack.items.size - 1 < t.stack.items.size := Nat.sub_lt h.nonempty Nat.one_pos
  have hback : t.stack.items.back? = some t.stack.items[t.stack.items.size - 1] :=
    Array.getElem?_eq_getElem hlast
  unfold currentFrame FixedArena.back?
  rw [hback]
  exact Array.mem_of_back? hback

theorem current (h : t.Framed) : t.HasFrame t.currentFrame := h.stack _ h.current_mem

/-- A tree with the same frames, of which none is open that was not before or is not there. -/
theorem restack (h : t.Framed) (hframes : t'.frames = t.frames)
    (hnonempty : 0 < t'.stack.items.size)
    (hstack : ∀ f ∈ t'.stack.items, f ∈ t.stack.items ∨ t.HasFrame f) : t'.Framed := by
  obtain ⟨exprs, entities, frames, stack, mainScope⟩ := t'
  subst hframes
  refine ⟨hnonempty, ?_, h.parent⟩
  intro f hf
  rcases hstack f hf with hf | hf
  · exact h.stack f hf
  · exact hf

theorem modifyFrame (h : t.Framed) (id : FrameId) {f : Frame → Frame}
    (hparent : ∀ x, (f x).parent = x.parent) : (t.modifyFrame id f).Framed := by
  have hsize : (t.modifyFrame id f).frames.size = t.frames.size := Array.size_modify
  refine ⟨h.nonempty, ?_, ?_⟩
  · intro g hg
    exact Nat.lt_of_lt_of_eq (h.stack g hg) hsize.symm
  · intro other found parent hfound hparent'
    rw [frame?_modifyFrame] at hfound
    split at hfound
    · obtain ⟨x, hx, rfl⟩ := Option.map_eq_some_iff.1 hfound
      exact h.parent hx ((hparent x).symm.trans hparent')
    · exact h.parent hfound hparent'

theorem withChild (h : t.Framed) : t.withChild.Framed := by
  have hgrow := t.withChild_extends
  refine ⟨h.nonempty, fun f hf => hgrow.hasFrame (h.stack f hf), ?_⟩
  intro id f parent hf hparent
  rw [frame?_withChild] at hf
  split at hf
  · rename_i hid
    cases hf
    cases hparent
    rw [hid]
    exact h.current
  · exact h.parent hf hparent

theorem onTop (h : t.Framed) {frame : FrameId} (hframe : t.HasFrame frame)
    (hsize : t.stack.items.size < depthLimit + 1) : (t.onTop frame hsize).Framed := by
  refine h.restack rfl (by simp [Tree.onTop]) ?_
  intro f hf
  rcases Array.mem_push.1 hf with hf | rfl
  · exact .inl hf
  · exact .inr hframe

theorem offTop (h : t.Framed) (hsize : 1 < t.stack.size) : t.offTop.Framed := by
  have hpop : t.offTop.stack.items.size = t.stack.items.size - 1 := Array.size_pop
  have hnonempty : 0 < t.offTop.stack.items.size := by
    rw [hpop]
    exact Nat.sub_pos_of_lt hsize
  refine h.restack rfl hnonempty fun f hf => .inl ?_
  rw [Array.mem_def, show t.offTop.stack.items = t.stack.items.pop from rfl,
    Array.toList_pop] at hf
  exact Array.mem_def.2 (List.dropLast_subset _ hf)

end Framed

end OnePass.Tree

namespace OnePass.Grammar

variable {s s' : State} {log : List Binding} {frame : FrameId}

/-! ## Opening and closing, on states -/

theorem Opens.eq (h : Opens s frame s') :
    frame = ⟨s.tree.frames.size⟩ ∧
      ∃ hsize, s' = { s with tree := s.tree.withChild.onTop ⟨s.tree.frames.size⟩ hsize } := by
  obtain ⟨hwork, hcursor, hconstructs⟩ := h
  obtain ⟨rfl, hsize, htree⟩ := Tree.openFrame_ok hwork
  refine ⟨rfl, hsize, ?_⟩
  rw [← htree, ← hcursor, ← hconstructs]

theorem Enters.eq (h : Enters s frame s') :
    (s.tree.frame? frame).bind Frame.parent = some s.tree.currentFrame ∧
      ∃ hsize, s' = { s with tree := s.tree.onTop frame hsize } := by
  obtain ⟨hwork, hcursor, hconstructs⟩ := h
  obtain ⟨hparent, hsize, htree⟩ := Tree.enterFrame_ok hwork
  refine ⟨hparent, hsize, ?_⟩
  rw [← htree, ← hcursor, ← hconstructs]

theorem Closes.eq (h : Closes s s') :
    1 < s.tree.stack.size ∧ s' = { s with tree := s.tree.offTop } := by
  obtain ⟨frame, hwork, hcursor, hconstructs⟩ := h
  obtain ⟨hsize, htree⟩ := Tree.closeFrame_ok hwork
  refine ⟨hsize, ?_⟩
  rw [← htree, ← hcursor, ← hconstructs]

/-! No entity and no expression is made where a frame is opened, entered or closed. -/

theorem Opens.entities (h : Opens s frame s') : s'.tree.entities = s.tree.entities := by
  obtain ⟨rfl, hsize, rfl⟩ := h.eq
  rfl

theorem Opens.exprs (h : Opens s frame s') : s'.tree.exprs = s.tree.exprs := by
  obtain ⟨rfl, hsize, rfl⟩ := h.eq
  rfl

theorem Enters.entities (h : Enters s frame s') : s'.tree.entities = s.tree.entities := by
  obtain ⟨_, hsize, rfl⟩ := h.eq
  rfl

theorem Enters.exprs (h : Enters s frame s') : s'.tree.exprs = s.tree.exprs := by
  obtain ⟨_, hsize, rfl⟩ := h.eq
  rfl

theorem Closes.entities (h : Closes s s') : s'.tree.entities = s.tree.entities := by
  obtain ⟨_, rfl⟩ := h.eq
  rfl

theorem Closes.exprs (h : Closes s s') : s'.tree.exprs = s.tree.exprs := by
  obtain ⟨_, rfl⟩ := h.eq
  rfl

theorem Enters.hasFrame (h : Enters s frame s') : s.tree.HasFrame frame := by
  obtain ⟨f, hf, _⟩ := Option.bind_eq_some_iff.1 h.eq.1
  exact Tree.hasFrame_iff.2 ⟨f, hf⟩

/-! ## Growth along a trail -/

theorem Step.extends (h : Step s log s') : s.tree.Extends s'.tree := by
  cases h with
  | next | past | inside | outside => exact .refl
  | add => exact Tree.pushExpr_extends _ _
  | addEntity => exact Tree.pushEntity_extends _ _
  | bind => exact Tree.modifyFrame_extends _ _ (fun _ => rfl) (fun _ => rfl)
  | bindBody hbind =>
    obtain rfl := Tree.bindBody_ok hbind
    exact Tree.modifyFrame_extends _ _ (fun _ => rfl) (fun _ => rfl)
  | opens hopen =>
    obtain ⟨rfl, hsize, rfl⟩ := hopen.eq
    have hgrow := s.tree.withChild_extends
    exact ⟨hgrow.expr, hgrow.entity, hgrow.frame⟩
  | enters henter =>
    obtain ⟨_, hsize, rfl⟩ := henter.eq
    exact ⟨id, id, fun {_ f} hf => ⟨f, hf, rfl, rfl⟩⟩
  | closes hclose =>
    obtain ⟨_, rfl⟩ := hclose.eq
    exact ⟨id, id, fun {_ f} hf => ⟨f, hf, rfl, rfl⟩⟩

/-- Whatever a tree has, the trees after it have too. -/
theorem Trail.extends (h : Trail s log s') : s.tree.Extends s'.tree := by
  induction h with
  | refl => exact .refl
  | cons hstep _ ih => exact hstep.extends.trans ih

theorem Step.framed (h : Step s log s') (hs : s.tree.Framed) : s'.tree.Framed := by
  cases h with
  | next | past | inside | outside => exact hs
  | add | addEntity => exact ⟨hs.nonempty, hs.stack, hs.parent⟩
  | bind => exact hs.modifyFrame _ fun _ => rfl
  | bindBody hbind =>
    obtain rfl := Tree.bindBody_ok hbind
    exact hs.modifyFrame _ fun _ => rfl
  | opens hopen =>
    obtain ⟨rfl, hsize, rfl⟩ := hopen.eq
    exact hs.withChild.onTop (by simp [Tree.HasFrame, Tree.withChild]) hsize
  | enters henter =>
    have hframe := henter.hasFrame
    obtain ⟨_, hsize, rfl⟩ := henter.eq
    exact hs.onTop hframe hsize
  | closes hclose =>
    obtain ⟨hsize, rfl⟩ := hclose.eq
    exact hs.offTop hsize

/-- Every frame that is open or lies around another is there, after any number of steps. -/
theorem Trail.framed (h : Trail s log s') (hs : s.tree.Framed) : s'.tree.Framed := by
  induction h with
  | refl => exact hs
  | cons hstep _ ih => exact ih (hstep.framed hs)

theorem Reads.extends {φ : Phrase} (h : Reads φ s log s') : s.tree.Extends s'.tree :=
  h.trail.extends

theorem Reads.framed {φ : Phrase} (h : Reads φ s log s') (hs : s.tree.Framed) :
    s'.tree.Framed := h.trail.framed hs

/-! ## States of a reading -/

theorem framed_install {t : Tree} (h : t.Framed) (e : Entity) : (t.install e).2.Framed := by
  have hpush : (t.pushEntity e).2.Framed := ⟨h.nonempty, h.stack, h.parent⟩
  exact hpush.modifyFrame _ fun _ => rfl

theorem framed_withBuiltins : Tree.withBuiltins.Framed := by
  have hempty : Tree.empty.Framed := by
    have hmain : Tree.empty.HasFrame Tree.mainFrame := Nat.one_pos
    refine ⟨Nat.one_pos, ?_, ?_⟩
    · intro f hf
      obtain rfl : f = Tree.mainFrame := by simpa [Tree.empty] using hf
      exact hmain
    · rintro ⟨i⟩ f parent hf hparent
      obtain ⟨rfl⟩ : f = .new none 0 := by
        have hi := (Array.getElem?_eq_some_iff.1 hf).2
        simpa [Tree.empty] using hi.symm
      cases hparent
  suffices ∀ (bs : List Builtin) (t : Tree), t.Framed →
      (bs.foldl (fun t b => (t.install b.entity).2) t).Framed from this _ _ hempty
  intro bs
  induction bs with
  | nil => exact fun _ ht => ht
  | cons b bs ih => exact fun t ht => ih _ (framed_install ht b.entity)

/-- The tree is one that steps lead to, from the start of some list of tokens. -/
def Reachable (t : Tree) : Prop :=
  ∃ tokens log s, Trail (.initial tokens) log s ∧ s.tree = t

theorem framed_of_reachable {t : Tree} (h : Reachable t) : t.Framed := by
  obtain ⟨tokens, log, s, htrail, rfl⟩ := h
  exact htrail.framed framed_withBuiltins

end OnePass.Grammar

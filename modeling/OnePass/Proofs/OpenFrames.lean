import OnePass.Proofs.Growth

/-!
# Open frames

Two things bound the nesting of frames, the depth that a frame keeps and the room on the stack,
and there are two ways to open one. That they agree is an invariant, `Tree.Nested`: the main
frame lies at the bottom of the stack, each other open frame is a child of the one below it and
as deep as its place on the stack, and frames are older than their children.

`FrameOp` lists the operations on frames. Each of them keeps the invariant (`FrameStep.nested`),
and so does any sequence of them (`Nested.after`). Under the invariant the stack has room
whenever a frame may be opened at all, so an operation is refused for its own reason only and
then changes nothing (`frames_nested`).
-/

namespace OnePass.Tree

variable {t : Tree} {frame : FrameId}

/-! ## The invariant -/

/-- The open frames lie inside one another, the main frame around all of them, and a frame is
as deep as there are frames around it. -/
structure Nested (t : Tree) : Prop where
  main : t.stack.items[0]? = some mainFrame
  place : ∀ {i id}, t.stack.items[i]? = some id → ∃ f, t.frame? id = some f ∧ f.depth = i ∧
    ∀ j, i = j + 1 → f.parent = t.stack.items[j]?
  parent : ∀ {id f outer}, t.frame? id = some f → f.parent = some outer →
    outer.index < id.index ∧ ∃ g, t.frame? outer = some g ∧ f.depth = g.depth + 1
  orphan : ∀ {id f}, t.frame? id = some f → f.parent = none → id = mainFrame
  depth : ∀ {id f}, t.frame? id = some f → f.depth ≤ depthLimit

namespace Nested

theorem size_pos (h : t.Nested) : 0 < t.stack.items.size :=
  (Array.getElem?_eq_some_iff.1 h.main).1

theorem current (h : t.Nested) :
    t.stack.items[t.stack.items.size - 1]? = some t.currentFrame := by
  have hlast : t.stack.items.size - 1 < t.stack.items.size := Nat.sub_lt h.size_pos Nat.one_pos
  unfold currentFrame FixedArena.back?
  rw [show t.stack.items.back? = t.stack.items[t.stack.items.size - 1]? from rfl,
    Array.getElem?_eq_getElem hlast, Option.getD_some]

/-- The innermost open frame is as deep as there are open frames around it. -/
theorem current_depth (h : t.Nested) : t.depthOf t.currentFrame + 1 = t.stack.items.size := by
  obtain ⟨f, hf, hdepth, _⟩ := h.place h.current
  have hpos := h.size_pos
  simp only [depthOf, hf]
  omega

theorem hasFrame (h : t.Nested) {id : FrameId} (hid : id ∈ t.stack.items) : t.HasFrame id := by
  obtain ⟨i, hi⟩ := Array.mem_iff_getElem?.1 hid
  obtain ⟨f, hf, _⟩ := h.place hi
  exact hasFrame_iff.2 ⟨f, hf⟩

theorem framed (h : t.Nested) : t.Framed :=
  ⟨h.size_pos, fun _ hf => h.hasFrame hf, fun hf hparent => (h.parent hf hparent).1⟩

/-- Nothing lies around the main frame. -/
theorem main_parent (h : t.Nested) {f : Frame} (hf : t.frame? mainFrame = some f) :
    f.parent = none := by
  cases hparent : f.parent with
  | none => rfl
  | some outer => exact absurd (h.parent hf hparent).1 (Nat.not_lt_zero _)

end Nested

/-! ## Operations that keep it -/

theorem nested_empty : empty.Nested := by
  have hframe : ∀ {id f}, empty.frame? id = some f → id = mainFrame ∧ f = .new none 0 := by
    rintro ⟨i⟩ f hf
    obtain ⟨hi, rfl⟩ := Array.getElem?_eq_some_iff.1 hf
    obtain rfl : i = 0 := Nat.lt_one_iff.1 hi
    exact ⟨rfl, rfl⟩
  refine ⟨rfl, ?_, ?_, fun hf _ => (hframe hf).1, ?_⟩
  · intro i id hid
    obtain ⟨hi, rfl⟩ := Array.getElem?_eq_some_iff.1 hid
    obtain rfl : i = 0 := Nat.lt_one_iff.1 hi
    exact ⟨.new none 0, rfl, rfl, fun j hj => by omega⟩
  · intro id f outer hf hparent
    obtain ⟨_, rfl⟩ := hframe hf
    cases hparent
  · intro id f hf
    obtain ⟨_, rfl⟩ := hframe hf
    exact Nat.zero_le _

namespace Nested

/-- A change of one frame that leaves it where it lies. -/
theorem modifyFrame (h : t.Nested) (id : FrameId) {g : Frame → Frame}
    (hparent : ∀ f, (g f).parent = f.parent) (hdepth : ∀ f, (g f).depth = f.depth) :
    (t.modifyFrame id g).Nested := by
  have hgrow := t.modifyFrame_extends id hparent hdepth
  have hold : ∀ {other f}, (t.modifyFrame id g).frame? other = some f →
      ∃ x, t.frame? other = some x ∧ f.parent = x.parent ∧ f.depth = x.depth := by
    intro other f hf
    rw [frame?_modifyFrame] at hf
    split at hf
    · obtain ⟨x, hx, rfl⟩ := Option.map_eq_some_iff.1 hf
      exact ⟨x, hx, hparent x, hdepth x⟩
    · exact ⟨f, hf, rfl, rfl⟩
  refine ⟨h.main, ?_, ?_, ?_, ?_⟩
  · intro i other hother
    obtain ⟨f, hf, hplace, houter⟩ := h.place hother
    obtain ⟨f', hf', hparent', hdepth'⟩ := hgrow.frame hf
    exact ⟨f', hf', hdepth'.trans hplace, fun j hj => hparent'.trans (houter j hj)⟩
  · intro other f outer hf houter
    obtain ⟨x, hx, hxparent, hxdepth⟩ := hold hf
    obtain ⟨hlt, y, hy, hdeeper⟩ := h.parent hx (hxparent.symm.trans houter)
    obtain ⟨y', hy', _, hydepth⟩ := hgrow.frame hy
    exact ⟨hlt, y', hy', by rw [hxdepth, hdeeper, hydepth]⟩
  · intro other f hf hnone
    obtain ⟨x, hx, hxparent, _⟩ := hold hf
    exact h.orphan hx (hxparent.symm.trans hnone)
  · intro other f hf
    obtain ⟨x, hx, _, hxdepth⟩ := hold hf
    exact hxdepth ▸ h.depth hx

/-- A new child of the innermost open frame. -/
theorem withChild (h : t.Nested) (hdeep : t.depthOf t.currentFrame < depthLimit) :
    t.withChild.Nested := by
  have hgrow := t.withChild_extends
  have hcurrent := h.place h.current
  refine ⟨h.main, ?_, ?_, ?_, ?_⟩
  · intro i id hid
    obtain ⟨f, hf, hplace, houter⟩ := h.place hid
    obtain ⟨f', hf', hparent', hdepth'⟩ := hgrow.frame hf
    exact ⟨f', hf', hdepth'.trans hplace, fun j hj => hparent'.trans (houter j hj)⟩
  · intro id f outer hf houter
    rw [frame?_withChild] at hf
    split at hf
    · rename_i hid
      cases hf
      cases houter
      obtain ⟨g, hg, _⟩ := hcurrent
      obtain ⟨g', hg', _, hdepth⟩ := hgrow.frame hg
      refine ⟨hid ▸ hasFrame_iff.2 ⟨g, hg⟩, g', hg', ?_⟩
      simp only [Frame.new, depthOf, hg, hdepth]
    · obtain ⟨hlt, g, hg, hdeeper⟩ := h.parent hf houter
      obtain ⟨g', hg', _, hdepth⟩ := hgrow.frame hg
      exact ⟨hlt, g', hg', by rw [hdeeper, hdepth]⟩
  · intro id f hf hnone
    rw [frame?_withChild] at hf
    split at hf
    · cases hf
      cases hnone
    · exact h.orphan hf hnone
  · intro id f hf
    rw [frame?_withChild] at hf
    split at hf
    · cases hf
      exact hdeep
    · exact h.depth hf

/-- A child of the innermost open frame on top of the stack. -/
theorem onTop (h : t.Nested) {f : Frame} (hf : t.frame? frame = some f)
    (hparent : f.parent = some t.currentFrame) (hsize : t.stack.items.size < depthLimit + 1) :
    (t.onTop frame hsize).Nested := by
  have hitems : (t.onTop frame hsize).stack.items = t.stack.items.push frame := rfl
  have hpos := h.size_pos
  refine ⟨?_, ?_, h.parent, h.orphan, h.depth⟩
  · rw [hitems, Array.getElem?_push_lt hpos]
    exact h.main ▸ (Array.getElem?_eq_getElem hpos).symm
  · intro i id hid
    rw [hitems] at hid ⊢
    rw [Array.getElem?_push] at hid
    split at hid
    · -- the frame on top lies inside the one that was there before
      rename_i hi
      cases hid
      obtain ⟨_, g, hg, hdeeper⟩ := h.parent hf hparent
      obtain ⟨g', hg', hplace, _⟩ := h.place h.current
      obtain rfl := Option.some.inj (hg.symm.trans hg')
      refine ⟨f, hf, by omega, fun j hj => ?_⟩
      rw [Array.getElem?_push, if_neg (by omega), hparent, ← h.current]
      congr 1
      omega
    · obtain ⟨g, hg, hplace, houter⟩ := h.place hid
      refine ⟨g, hg, hplace, fun j hj => ?_⟩
      have hi := (Array.getElem?_eq_some_iff.1 hid).1
      rw [Array.getElem?_push, if_neg (by omega), houter j hj]

theorem offTop (h : t.Nested) (hsize : 1 < t.stack.items.size) : t.offTop.Nested := by
  have hitems : ∀ i, t.offTop.stack.items[i]? =
      if i < t.stack.items.size - 1 then t.stack.items[i]? else none := fun i =>
    Array.getElem?_pop
  refine ⟨?_, ?_, h.parent, h.orphan, h.depth⟩
  · rw [hitems, if_pos (by omega), h.main]
  · intro i id hid
    rw [hitems] at hid
    split at hid
    · obtain ⟨f, hf, hplace, houter⟩ := h.place hid
      refine ⟨f, hf, hplace, fun j hj => ?_⟩
      rw [hitems, if_pos (by omega), houter j hj]
    · cases hid

end Nested

/-! ## What is refused -/

theorem get_run {α : Type} {f : Tree → Framing α} : (get >>= f) t = f t t := rfl

theorem pushOpen_run (hsize : t.stack.items.size < depthLimit + 1) :
    pushOpen frame t = .ok () (t.onTop frame hsize) := by
  have hpush : t.stack.push frame = .ok (t.stack.items.size, (t.onTop frame hsize).stack) :=
    dif_pos hsize
  unfold pushOpen
  rw [get_run, hpush]
  rfl

namespace Nested

/-- A frame is opened unless the innermost one is as deep as frames may be. -/
theorem openFrame_run (h : t.Nested) :
    (t.depthOf t.currentFrame = depthLimit ∧ openFrame t = .error (.tooDeep depthLimit) t) ∨
      (t.depthOf t.currentFrame < depthLimit ∧ ∃ hsize,
        openFrame t = .ok ⟨t.frames.size⟩ (t.withChild.onTop ⟨t.frames.size⟩ hsize)) := by
  have hdepth := h.current_depth
  have hroom := t.stack.size_le
  rcases Nat.lt_or_ge (t.depthOf t.currentFrame) depthLimit with hlt | hge
  · have hsize : t.withChild.stack.items.size < depthLimit + 1 := by
      show t.stack.items.size < depthLimit + 1
      omega
    refine .inr ⟨hlt, hsize, ?_⟩
    have hopen : openFrame t = (pushOpen ⟨t.frames.size⟩ >>= fun _ =>
        pure ⟨t.frames.size⟩ : Framing FrameId) t.withChild := by
      unfold openFrame
      rw [get_run, if_neg (by omega)]
      rfl
    rw [hopen, Grammar.bind_run, pushOpen_run hsize]
    rfl
  · refine .inl ⟨by omega, ?_⟩
    unfold openFrame
    rw [get_run, if_pos (by omega)]
    rfl

/-- A frame is entered if it is a child of the innermost one, and refused otherwise. -/
theorem enterFrame_run (h : t.Nested) (frame : FrameId) :
    ((t.frame? frame).bind Frame.parent ≠ some t.currentFrame ∧
        enterFrame frame t = .error (.notChild frame) t) ∨
      ((t.frame? frame).bind Frame.parent = some t.currentFrame ∧ ∃ hsize,
        enterFrame frame t = .ok () (t.onTop frame hsize)) := by
  by_cases hchild : (t.frame? frame).bind Frame.parent = some t.currentFrame
  · obtain ⟨f, hf, hparent⟩ := Option.bind_eq_some_iff.1 hchild
    obtain ⟨_, g, hg, hdeeper⟩ := h.parent hf hparent
    have hdeep := h.depth hf
    have hdepth := h.current_depth
    simp only [depthOf, hg] at hdepth
    have hsize : t.stack.items.size < depthLimit + 1 := by omega
    refine .inr ⟨hchild, hsize, ?_⟩
    unfold enterFrame
    rw [get_run, if_pos hchild]
    exact pushOpen_run hsize
  · refine .inl ⟨hchild, ?_⟩
    unfold enterFrame
    rw [get_run, if_neg hchild]
    rfl

/-- The innermost frame is closed unless only the main frame is open. -/
theorem closeFrame_run (h : t.Nested) :
    (t.stack.items = #[mainFrame] ∧ closeFrame t = .error .closeMain t) ∨
      (1 < t.stack.items.size ∧ closeFrame t = .ok t.currentFrame t.offTop) := by
  rcases Nat.lt_or_ge 1 t.stack.items.size with hlt | hle
  · refine .inr ⟨hlt, ?_⟩
    have hpop : t.stack.pop = .ok (t.currentFrame, t.offTop.stack) := by
      unfold FixedArena.pop
      rw [show t.stack.items.back? = some t.currentFrame from h.current]
      rfl
    unfold closeFrame
    rw [get_run, if_neg (show ¬t.stack.size ≤ 1 from Nat.not_le.2 hlt)]
    dsimp only
    rw [get_run, hpop]
    rfl
  · refine .inl ⟨?_, ?_⟩
    · have hpos := h.size_pos
      refine Array.ext (by simp; omega) fun i hi hi' => ?_
      obtain rfl : i = 0 := by omega
      exact (Array.getElem?_eq_some_iff.1 h.main).2
    · unfold closeFrame
      rw [get_run, if_pos (show t.stack.size ≤ 1 from hle)]
      rfl

end Nested

/-! ## Sequences of operations -/

/-- An operation on the frames of a tree. -/
inductive FrameOp where
  /-- Opens a new child of the innermost open frame. -/
  | opens
  /-- Opens a frame again. -/
  | enters (frame : FrameId)
  /-- Closes the innermost open frame. -/
  | closes
  /-- Lets a name stand for an entity in the innermost open frame. -/
  | binds (name : String) (entity : EntityId)
  /-- Records the body of a function in a frame. -/
  | bindsBody (frame : FrameId) (function : EntityId) (body : ExprId)
  /-- Gives an entity a storage slot in a frame. -/
  | setsSlot (frame : FrameId) (entity : EntityId) (slot : Nat)
deriving DecidableEq

/-- The operation, which may be refused. -/
def FrameOp.run : FrameOp → Framing Unit
  | .opens => do let _ ← openFrame
  | .enters frame => enterFrame frame
  | .closes => do let _ ← closeFrame
  | .binds name entity => modify (·.bind name entity)
  | .bindsBody frame function body => modify fun t =>
    match t.bindBody frame function body with
    | .ok t => t
    | .error _ => t
  | .setsSlot frame entity slot => modify (·.modifyFrame frame (·.setSlot entity slot))

/-- The tree after an operation, be it refused or not. -/
def FrameOp.after (t : Tree) (op : FrameOp) : Tree :=
  match op.run t with
  | .ok _ t' | .error _ t' => t'

/-- The tree after some operations. -/
def after (t : Tree) (ops : List FrameOp) : Tree := ops.foldl FrameOp.after t

@[simp] theorem after_nil (t : Tree) : t.after [] = t := rfl

@[simp] theorem after_cons (t : Tree) (op : FrameOp) (ops : List FrameOp) :
    t.after (op :: ops) = (op.after t).after ops := rfl

theorem after_append (t : Tree) (ops ops' : List FrameOp) :
    t.after (ops ++ ops') = (t.after ops).after ops' := List.foldl_append

/-- What an operation can do to a tree. -/
inductive FrameStep (t : Tree) : FrameOp → Tree → Prop where
  | refused {op : FrameOp} : FrameStep t op t
  | opens (hdeep : t.depthOf t.currentFrame < depthLimit)
      (hsize : t.withChild.stack.items.size < depthLimit + 1) :
      FrameStep t .opens (t.withChild.onTop ⟨t.frames.size⟩ hsize)
  | enters {frame : FrameId} {f : Frame} (hf : t.frame? frame = some f)
      (hparent : f.parent = some t.currentFrame) (hsize : t.stack.items.size < depthLimit + 1) :
      FrameStep t (.enters frame) (t.onTop frame hsize)
  | closes (hsize : 1 < t.stack.items.size) : FrameStep t .closes t.offTop
  | binds {name : String} {entity : EntityId} :
      FrameStep t (.binds name entity) (t.bind name entity)
  | bindsBody {frame : FrameId} {function : EntityId} {body : ExprId} :
      FrameStep t (.bindsBody frame function body)
        (t.modifyFrame frame (·.setBody function body))
  | setsSlot {frame : FrameId} {entity : EntityId} {slot : Nat} :
      FrameStep t (.setsSlot frame entity slot) (t.modifyFrame frame (·.setSlot entity slot))

/-- An operation does what it can do. -/
theorem Nested.step (h : t.Nested) (op : FrameOp) : FrameStep t op (op.after t) := by
  cases op with
  | opens =>
    rcases h.openFrame_run with ⟨_, hrun⟩ | ⟨hdeep, hsize, hrun⟩
    · rw [show FrameOp.opens.after t = t by
        simp only [FrameOp.after, FrameOp.run, Grammar.bind_run, hrun]]
      exact .refused
    · rw [show FrameOp.opens.after t = t.withChild.onTop ⟨t.frames.size⟩ hsize by
        simp only [FrameOp.after, FrameOp.run, Grammar.bind_run, hrun]; rfl]
      exact .opens hdeep hsize
  | enters frame =>
    rcases h.enterFrame_run frame with ⟨_, hrun⟩ | ⟨hchild, hsize, hrun⟩
    · rw [show (FrameOp.enters frame).after t = t by simp only [FrameOp.after, FrameOp.run, hrun]]
      exact .refused
    · rw [show (FrameOp.enters frame).after t = t.onTop frame hsize by
        simp only [FrameOp.after, FrameOp.run, hrun]]
      obtain ⟨f, hf, hparent⟩ := Option.bind_eq_some_iff.1 hchild
      exact .enters hf hparent hsize
  | closes =>
    rcases h.closeFrame_run with ⟨_, hrun⟩ | ⟨hsize, hrun⟩
    · rw [show FrameOp.closes.after t = t by
        simp only [FrameOp.after, FrameOp.run, Grammar.bind_run, hrun]]
      exact .refused
    · rw [show FrameOp.closes.after t = t.offTop by
        simp only [FrameOp.after, FrameOp.run, Grammar.bind_run, hrun]; rfl]
      exact .closes hsize
  | binds name entity => exact .binds
  | bindsBody frame function body =>
    show FrameStep t _ (match t.bindBody frame function body with
      | .ok t => t
      | .error _ => t)
    cases hbind : t.bindBody frame function body with
    | ok t' => exact bindBody_ok hbind ▸ .bindsBody
    | error _ => exact .refused
  | setsSlot frame entity slot => exact .setsSlot

theorem FrameStep.nested {t' : Tree} {op : FrameOp} (hstep : FrameStep t op t') (h : t.Nested) :
    t'.Nested := by
  cases hstep with
  | refused => exact h
  | opens hdeep hsize =>
    refine (h.withChild hdeep).onTop
      (f := .new (some t.currentFrame) (t.depthOf t.currentFrame + 1)) ?_ rfl hsize
    rw [frame?_withChild, if_pos rfl]
  | enters hf hparent hsize => exact h.onTop hf hparent hsize
  | closes hsize => exact h.offTop hsize
  | binds | bindsBody | setsSlot => exact h.modifyFrame _ (fun _ => rfl) (fun _ => rfl)

/-- Every sequence of operations keeps the open frames inside one another. -/
theorem Nested.after (h : t.Nested) (ops : List FrameOp) : (t.after ops).Nested := by
  induction ops generalizing t with
  | nil => exact h
  | cons op ops ih => exact ih ((h.step op).nested h)

/-- After any sequence of operations the open frames lie inside one another. A new frame is
refused exactly when the innermost one is as deep as frames may be, entering one exactly when it
is no child of the innermost one, and closing one exactly when only the main frame is open; what
is refused changes nothing. -/
theorem frames_nested (ops : List FrameOp) :
    let t := empty.after ops
    t.Nested ∧
    (∀ e t', openFrame t = .error e t' ↔
      t.depthOf t.currentFrame = depthLimit ∧ e = .tooDeep depthLimit ∧ t' = t) ∧
    (∀ frame e t', enterFrame frame t = .error e t' ↔
      (t.frame? frame).bind Frame.parent ≠ some t.currentFrame ∧ e = .notChild frame ∧ t' = t) ∧
    ∀ e t', closeFrame t = .error e t' ↔
      t.stack.items = #[mainFrame] ∧ e = .closeMain ∧ t' = t := by
  have h := nested_empty.after ops
  refine ⟨h, ?_, ?_, ?_⟩
  · intro e t'
    rcases h.openFrame_run with ⟨hdepth, hrun⟩ | ⟨hdepth, _, hrun⟩
    · rw [hrun]
      simp [hdepth, eq_comm]
    · rw [hrun]
      simp [Nat.ne_of_lt hdepth]
  · intro frame e t'
    rcases h.enterFrame_run frame with ⟨hchild, hrun⟩ | ⟨hchild, _, hrun⟩
    · rw [hrun]
      simp [hchild, eq_comm]
    · rw [hrun]
      simp [hchild]
  · intro e t'
    rcases h.closeFrame_run with ⟨hmain, hrun⟩ | ⟨hsize, hrun⟩
    · rw [hrun]
      simp [hmain, eq_comm]
    · rw [hrun]
      have hne : (empty.after ops).stack.items ≠ #[mainFrame] := by
        intro hmain
        rw [hmain] at hsize
        exact absurd hsize (Nat.lt_irrefl 1)
      simp [hne]

end OnePass.Tree

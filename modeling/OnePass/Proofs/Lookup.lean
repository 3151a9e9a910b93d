import OnePass.Proofs.Bracketing
import OnePass.Proofs.OpenFrames

/-!
# Look-up

Frames are kept in two ways, on the stack of open ones and by the links from each frame to the
one around it. A name is looked up along the links. The walk along them ends at the main frame
(`Nested.walks_chain`), and from the innermost open frame it passes just the open frames, the
innermost first (`Nested.chain_current`), so that the first binding on the stack is found.

A visit opens a frame, works in it and in frames inside it, and ends with the frames open that
were so before (`Tree.Visit`). It changes no frame that was there before, and so every name is
found as before, and from the new frame its own bindings and those around it (`lookup_lexical`).
-/

namespace OnePass.Tree

variable {α : Type} {t t' : Tree} {id outer child : FrameId} {path : List FrameId}

/-! ## Walks -/

/-- Going from a frame to the one around it, and on from there, passes the frames of the list
and ends. -/
inductive Walks (t : Tree) : FrameId → List FrameId → Prop where
  | last {id : FrameId} {f : Frame} (hf : t.frame? id = some f) (hparent : f.parent = none) :
      Walks t id [id]
  | outwards {id outer : FrameId} {f : Frame} {path : List FrameId} (hf : t.frame? id = some f)
      (hparent : f.parent = some outer) (hwalk : Walks t outer path) : Walks t id (id :: path)

theorem Walks.chainWithin (h : t.Walks id path) {steps : Nat} (hsteps : path.length ≤ steps) :
    t.chainWithin steps id = path := by
  induction h generalizing steps with
  | last hf hparent =>
    obtain ⟨steps, rfl⟩ := Nat.exists_eq_succ_of_ne_zero (Nat.ne_of_gt hsteps)
    simp [Tree.chainWithin, hf, hparent]
  | outwards hf hparent _ ih =>
    obtain ⟨steps, rfl⟩ := Nat.exists_eq_succ_of_ne_zero
      (Nat.ne_of_gt (Nat.lt_of_lt_of_le (Nat.succ_pos _) hsteps))
    simp [Tree.chainWithin, hf, hparent, ih (Nat.le_of_succ_le_succ hsteps)]

namespace Nested

/-- The walk from a frame ends in as many steps as the frame is old. -/
theorem exists_walks (h : t.Nested) (hid : t.HasFrame id) :
    ∃ path, t.Walks id path ∧ path.length ≤ id.index + 1 := by
  obtain ⟨i⟩ := id
  induction i using Nat.strongRecOn with
  | ind i ih =>
    obtain ⟨f, hf⟩ := hasFrame_iff.1 hid
    cases hparent : f.parent with
    | none => exact ⟨_, .last hf hparent, by simp⟩
    | some outer =>
      have hlt := (h.parent hf hparent).1
      obtain ⟨path, hwalk, hlength⟩ := ih outer.index hlt (Nat.lt_trans hlt hid)
      exact ⟨_, .outwards hf hparent hwalk, Nat.succ_le_succ (Nat.le_trans hlength hlt)⟩

/-- The walk from a frame ends, and passes the chain of the frame. -/
theorem walks_chain (h : t.Nested) (hid : t.HasFrame id) : t.Walks id (t.chain id) := by
  obtain ⟨path, hwalk, hlength⟩ := h.exists_walks hid
  rw [chain, hwalk.chainWithin hlength]
  exact hwalk

theorem chain_eq (h : t.Nested) (hwalk : t.Walks id path) : t.chain id = path := by
  have hid : t.HasFrame id := by
    cases hwalk with
    | last hf | outwards hf => exact hasFrame_iff.2 ⟨_, hf⟩
  obtain ⟨path', hwalk', hlength⟩ := h.exists_walks hid
  have hsame := hwalk.chainWithin (Nat.le_max_left path.length path'.length)
  rw [hwalk'.chainWithin (Nat.le_max_right path.length path'.length)] at hsame
  rw [chain, hwalk'.chainWithin hlength, hsame]

/-- The walk from an open frame passes the open frames below it. -/
theorem walks_stack (h : t.Nested) {i : Nat} (hid : t.stack.items[i]? = some id) :
    t.Walks id (t.stack.toList.take (i + 1)).reverse := by
  have htake : ∀ {j other}, t.stack.items[j]? = some other →
      (t.stack.toList.take (j + 1)).reverse = other :: (t.stack.toList.take j).reverse := by
    intro j other hj
    have hitem : t.stack.toList[j]? = some other := Array.getElem?_toList.trans hj
    rw [List.take_add_one, hitem, Option.toList_some, List.reverse_append]
    rfl
  induction i generalizing id with
  | zero =>
    obtain rfl := Option.some.inj (hid.symm.trans h.main)
    obtain ⟨f, hf, _⟩ := h.place hid
    rw [htake hid]
    exact .last hf (h.main_parent hf)
  | succ i ih =>
    obtain ⟨f, hf, _, houter⟩ := h.place hid
    have hi := (Array.getElem?_eq_some_iff.1 hid).1
    have hbelow : t.stack.items[i]? = some t.stack.items[i] :=
      Array.getElem?_eq_getElem (Nat.lt_of_succ_lt hi)
    rw [htake hid]
    exact .outwards hf ((houter i rfl).trans hbelow) (ih hbelow)

/-- From the innermost open frame the walk passes just the open frames. -/
theorem chain_current (h : t.Nested) : t.chain t.currentFrame = t.stack.toList.reverse := by
  have hwalk := h.walks_stack h.current
  have hall : t.stack.toList.take t.stack.items.size = t.stack.toList :=
    List.take_of_length_le (Nat.le_of_eq Array.length_toList)
  rw [Nat.sub_add_cancel h.size_pos, hall] at hwalk
  exact h.chain_eq hwalk

/-- A search asks the frame itself first and then goes on around it. -/
theorem searchFrom_outwards (h : t.Nested) {f : Frame} (hf : t.frame? id = some f)
    (hparent : f.parent = some outer) (answer : Frame → Option α) :
    t.searchFrom id answer = (answer f).or (t.searchFrom outer answer) := by
  have houter : t.HasFrame outer :=
    Nat.lt_trans (h.parent hf hparent).1 (hasFrame_iff.2 ⟨f, hf⟩)
  have hchain := h.chain_eq (.outwards hf hparent (h.walks_chain houter))
  rw [searchFrom, hchain, List.findSome?_cons, hf, Option.bind_some]
  cases answer f <;> rfl

/-- A search from the innermost open frame is one through the stack from its top. -/
theorem searchFrom_current (h : t.Nested) (answer : Frame → Option α) :
    t.searchFrom t.currentFrame answer =
      t.stack.toList.reverse.findSome? fun id => (t.frame? id).bind answer := by
  rw [searchFrom, h.chain_current]

theorem le_of_mem_chain (h : t.Nested) (hmem : child ∈ t.chain id) : child.index ≤ id.index := by
  unfold chain at hmem
  generalize id.index + 1 = steps at hmem
  induction steps generalizing id with
  | zero => cases hmem
  | succ steps ih =>
    unfold chainWithin at hmem
    cases hparent : (t.frame? id).bind Frame.parent with
    | none =>
      rw [hparent] at hmem
      exact Nat.le_of_eq (congrArg FrameId.index (List.mem_singleton.1 hmem))
    | some outer =>
      rw [hparent] at hmem
      obtain ⟨f, hf, hf'⟩ := Option.bind_eq_some_iff.1 hparent
      rcases List.mem_cons.1 hmem with rfl | hmem
      · exact Nat.le_refl _
      · exact Nat.le_trans (ih hmem) (Nat.le_of_lt (h.parent hf hf').1)

end Nested

/-! ## Visits -/

/-- The frame whose names, bodies or storage slots the operation changes. -/
def FrameOp.target? (t : Tree) : FrameOp → Option FrameId
  | .binds _ _ => some t.currentFrame
  | .bindsBody frame _ _ | .setsSlot frame _ _ => some frame
  | .opens | .enters _ | .closes => none

/-- What the operations change is all in `child` and in frames inside it. -/
def WorksIn (child : FrameId) : Tree → List FrameOp → Prop
  | _, [] => True
  | t, op :: ops => (∀ frame ∈ op.target? t, child ∈ t.chain frame) ∧ WorksIn child (op.after t) ops

instance decidableWorksIn (child : FrameId) :
    (t : Tree) → (ops : List FrameOp) → Decidable (WorksIn child t ops)
  | _, [] => .isTrue trivial
  | t, op :: ops =>
    have := decidableWorksIn child (op.after t) ops
    inferInstanceAs (Decidable (_ ∧ _))

/-- A new child is opened, operations work in it, and a frame is closed, after which the open
frames are those from before. -/
structure Visit (t : Tree) (child : FrameId) (ops : List FrameOp) : Prop where
  opens : openFrame t = .ok child (FrameOp.opens.after t)
  works : WorksIn child (FrameOp.opens.after t) ops
  stack : (t.after (.opens :: ops ++ [.closes])).stack = t.stack

theorem FrameStep.extends {op : FrameOp} (hstep : FrameStep t op t') : t.Extends t' := by
  cases hstep with
  | refused => exact .refl
  | enters | closes => exact ⟨id, id, fun {_ f} hf => ⟨f, hf, rfl, rfl⟩⟩
  | opens =>
    have hgrow := t.withChild_extends
    exact ⟨hgrow.expr, hgrow.entity, hgrow.frame⟩
  | binds | bindsBody | setsSlot =>
    exact t.modifyFrame_extends _ (fun _ => rfl) (fun _ => rfl)

theorem Nested.after_extends (h : t.Nested) (ops : List FrameOp) : t.Extends (t.after ops) := by
  induction ops generalizing t with
  | nil => exact .refl
  | cons op ops ih =>
    have hstep := h.step op
    exact hstep.extends.trans (ih (hstep.nested h))

/-- An operation that works in a frame changes no older frame. -/
theorem FrameStep.older {op : FrameOp} (hstep : FrameStep t op t') (h : t.Nested)
    (hworks : ∀ frame ∈ op.target? t, child ∈ t.chain frame) (hid : t.HasFrame id)
    (hlt : id.index < child.index) : t'.frame? id = t.frame? id := by
  have hmodify : ∀ (frame : FrameId) (g : Frame → Frame), child ∈ t.chain frame →
      (t.modifyFrame frame g).frame? id = t.frame? id := by
    intro frame g hmem
    have hne : frame ≠ id := by
      rintro rfl
      exact absurd hlt (Nat.not_lt.2 (h.le_of_mem_chain hmem))
    rw [frame?_modifyFrame, if_neg hne]
  cases hstep with
  | refused | enters | closes => rfl
  | opens => exact (t.frame?_withChild id).trans (if_neg (Nat.ne_of_lt hid))
  | binds | bindsBody | setsSlot => exact hmodify _ _ (hworks _ rfl)

/-- Operations that work in a frame change no older frame. -/
theorem WorksIn.older {ops : List FrameOp} (hworks : WorksIn child t ops) (h : t.Nested)
    (hid : t.HasFrame id) (hlt : id.index < child.index) :
    (t.after ops).frame? id = t.frame? id := by
  induction ops generalizing t with
  | nil => rfl
  | cons op ops ih =>
    obtain ⟨hhere, hrest⟩ := hworks
    have hstep := h.step op
    have hframe := ih hrest (hstep.nested h) (hstep.extends.hasFrame hid)
    exact hframe.trans (hstep.older h hhere hid hlt)

/-- Closing a frame changes none. -/
theorem Nested.frame?_closes (h : t.Nested) (id : FrameId) :
    (FrameOp.closes.after t).frame? id = t.frame? id := by
  have hstep := h.step .closes
  generalize FrameOp.closes.after t = t' at hstep ⊢
  cases hstep <;> rfl

namespace Visit

variable {ops : List FrameOp}

theorem new (hvisit : t.Visit child ops) : child = ⟨t.frames.size⟩ := (openFrame_ok hvisit.opens).1

/-- In the end the frames are as they were before one was closed. -/
theorem frame?_eq (h : t.Nested) (id : FrameId) :
    (t.after (.opens :: ops ++ [.closes])).frame? id = (t.after (.opens :: ops)).frame? id := by
  rw [after_append]
  exact (h.after _).frame?_closes id

/-- A frame that was there before a visit is as it was after it. -/
theorem older (hvisit : t.Visit child ops) (h : t.Nested) (hid : t.HasFrame id) :
    (t.after (.opens :: ops ++ [.closes])).frame? id = t.frame? id := by
  have hstep := h.step .opens
  have hlt : id.index < child.index := by
    rw [hvisit.new]
    exact hid
  have hworked := hvisit.works.older (hstep.nested h) (hstep.extends.hasFrame hid) hlt
  obtain ⟨_, hsize, htree⟩ := openFrame_ok hvisit.opens
  rw [frame?_eq h]
  refine hworked.trans ?_
  rw [htree]
  exact (t.frame?_withChild id).trans (if_neg (Nat.ne_of_lt hid))

/-- The child lies in the frame in which it was opened. -/
theorem parent (hvisit : t.Visit child ops) (h : t.Nested) :
    ∃ f, (t.after (.opens :: ops ++ [.closes])).frame? child = some f ∧
      f.parent = some t.currentFrame := by
  have hopened := (h.step .opens).nested h
  obtain ⟨hnew, hsize, htree⟩ := openFrame_ok hvisit.opens
  have hchild : (FrameOp.opens.after t).frame? child =
      some (.new (some t.currentFrame) (t.depthOf t.currentFrame + 1)) := by
    rw [htree]
    exact (t.frame?_withChild child).trans (if_pos (congrArg FrameId.index hnew))
  obtain ⟨f, hf, hparent, _⟩ := (hopened.after_extends (ops ++ [.closes])).frame hchild
  exact ⟨f, hf, hparent⟩

/-- If the child is still open in the end, it is the one that is closed. -/
theorem closes (hvisit : t.Visit child ops) (h : t.Nested)
    (hmem : child ∈ (t.after (.opens :: ops)).stack.items) :
    (t.after (.opens :: ops)).stack.items = t.stack.items.push child := by
  have hnested := h.after (.opens :: ops)
  have hnew : child ∉ t.stack.items := by
    intro hold
    rw [hvisit.new] at hold
    exact absurd (h.hasFrame hold) (Nat.lt_irrefl _)
  have hstack := hvisit.stack
  rw [after_append] at hstack
  generalize t.after (.opens :: ops) = t₂ at hnested hmem hstack ⊢
  have hstep := hnested.step .closes
  rw [after_cons, after_nil] at hstack
  generalize FrameOp.closes.after t₂ = t' at hstep hstack
  cases hstep with
  | refused => exact absurd (hstack ▸ hmem) hnew
  | closes hsize =>
    obtain ⟨below, top, hitems⟩ := Array.eq_push_of_size_ne_zero (Nat.ne_of_gt hnested.size_pos)
    have hbelow : t₂.offTop.stack.items = below := by
      show t₂.stack.items.pop = below
      rw [hitems, Array.pop_push]
    rw [hitems] at hmem ⊢
    rw [hstack] at hbelow
    subst hbelow
    rcases Array.mem_push.1 hmem with hold | rfl
    · exact absurd hold hnew
    · rfl

/-- A search from the innermost open frame finds after a visit what it found before. -/
theorem searchFrom_current (hvisit : t.Visit child ops) (h : t.Nested) (answer : Frame → Option α) :
    (t.after (.opens :: ops ++ [.closes])).searchFrom
        (t.after (.opens :: ops ++ [.closes])).currentFrame answer =
      t.searchFrom t.currentFrame answer := by
  rw [currentFrame_congr hvisit.stack]
  exact searchFrom_congr h.framed (fun _ => hvisit.older h) h.framed.current answer

/-- After a visit a search from the child finds what is there in the child itself, and then what
is found around it. -/
theorem searchFrom_child (hvisit : t.Visit child ops) (h : t.Nested) (answer : Frame → Option α) :
    (t.after (.opens :: ops ++ [.closes])).searchFrom child answer =
      (((t.after (.opens :: ops ++ [.closes])).frame? child).bind answer).or
        (t.searchFrom t.currentFrame answer) := by
  obtain ⟨f, hf, hparent⟩ := hvisit.parent h
  rw [(h.after _).searchFrom_outwards hf hparent, hf, Option.bind_some,
    ← hvisit.searchFrom_current h, currentFrame_congr hvisit.stack]

/-- If the child is still open in the end, a search from it finds later what was found there. -/
theorem searchFrom_open (hvisit : t.Visit child ops) (h : t.Nested)
    (hmem : child ∈ (t.after (.opens :: ops)).stack.items) (answer : Frame → Option α) :
    (t.after (.opens :: ops ++ [.closes])).searchFrom child answer =
      (t.after (.opens :: ops)).searchFrom (t.after (.opens :: ops)).currentFrame answer := by
  have hnested := h.after (.opens :: ops)
  have hcurrent : (t.after (.opens :: ops)).currentFrame = child := by
    have hback := hnested.current
    rw [hvisit.closes h hmem, Array.size_push, Nat.add_sub_cancel,
      Array.getElem?_push_size] at hback
    exact (Option.some.inj hback).symm
  rw [hcurrent]
  exact searchFrom_congr hnested.framed (fun f _ => frame?_eq h f) (hnested.hasFrame hmem) answer

end Visit

/-! ## Look-up is lexical -/

/-- A name, or the body of a function, is found in the first open frame that has it, the
innermost first; from every frame the walk outwards ends. A visit of a new frame leaves every
name with what it stood for before. From the frame of the visit, its own bindings are found then
and those around it, which is what was found there before it was closed. -/
theorem lookup_lexical (ops : List FrameOp) :
    let t := empty.after ops
    (∀ name, t.find? name = t.stack.toList.reverse.findSome? fun id =>
      (t.frame? id).bind (·.find? name)) ∧
    (∀ function, t.findBody? function = t.stack.toList.reverse.findSome? fun id =>
      (t.frame? id).bind (·.body? function)) ∧
    (∀ id, t.HasFrame id → t.Walks id (t.chain id)) ∧
    ∀ child inner, t.Visit child inner →
      let t' := t.after (.opens :: inner ++ [.closes])
      ∀ name, t'.find? name = t.find? name ∧
        t'.findFrom? child name = ((t'.frame? child).bind (·.find? name)).or (t.find? name) ∧
        (child ∈ (t.after (.opens :: inner)).stack.items →
          t'.findFrom? child name = (t.after (.opens :: inner)).find? name) := by
  have h := nested_empty.after ops
  refine ⟨fun name => h.searchFrom_current _, fun function => h.searchFrom_current _,
    fun id => h.walks_chain, ?_⟩
  intro child inner hvisit t' name
  refine ⟨hvisit.searchFrom_current h _, hvisit.searchFrom_child h _, ?_⟩
  exact fun hmem => hvisit.searchFrom_open h hmem _

/-- Operations inside a frame that hide a name, close and enter the frame, open one there and
record a body. -/
def busyVisit : List FrameOp :=
  [.binds "x" ⟨2⟩, .closes, .enters ⟨2⟩, .opens, .binds "y" ⟨3⟩, .bindsBody ⟨2⟩ ⟨7⟩ ⟨5⟩, .closes]

/-- A name that is hidden during a visit stands for what it stood for before. -/
theorem lookup_lexical_hidden :
    let t := empty.after [.binds "x" ⟨0⟩, .opens, .binds "x" ⟨1⟩]
    let t' := t.after (.opens :: busyVisit ++ [.closes])
    t.Visit ⟨2⟩ busyVisit ∧ t.HasFrame ⟨1⟩ ∧ t.Walks ⟨1⟩ (t.chain ⟨1⟩) ∧
      t'.find? "x" = some ⟨1⟩ ∧ t'.findFrom? ⟨2⟩ "x" = some ⟨2⟩ := by
  intro t t'
  have hvisit : t.Visit ⟨2⟩ busyVisit := ⟨rfl, by decide +kernel, by decide +kernel⟩
  have hmiddle : t.HasFrame ⟨1⟩ := show 1 < 2 by decide
  obtain ⟨_, _, hwalks, hvisits⟩ := lookup_lexical [.binds "x" ⟨0⟩, .opens, .binds "x" ⟨1⟩]
  obtain ⟨hfind, _, hinside⟩ := hvisits ⟨2⟩ busyVisit hvisit "x"
  refine ⟨hvisit, hmiddle, hwalks ⟨1⟩ hmiddle, ?_, ?_⟩
  · rw [hfind]
    decide +kernel
  · -- the frame is open again when the visit ends
    rw [hinside (by decide +kernel)]
    decide +kernel

end OnePass.Tree

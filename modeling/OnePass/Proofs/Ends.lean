import OnePass.Proofs.Answers
import OnePass.Proofs.Progress

/-!
# Ends of a reading

A reading that ends has answered or has found a fault in the source. Three causes are no
faults of a source: a handle that leads nowhere, a type without an end, and a level that is
too low for what is left to read. `Ends sound r` says that `r` is no such end; where `sound` is
false, only that it is not the last of the three, which is a matter of tokens alone.

There is one rule per part of a reading, which says what has to hold before the part. `Ready`
gathers what the productions ask of a state, and whatever is read keeps it.
-/

namespace OnePass

/-- The source is at fault or, unless `sound` holds, something of the tree is missing. -/
def Cause.Allowed (sound : Prop) : Cause → Prop
  | .outOfFuel => False
  | .missingHandle | .endlessType => ¬sound
  | _ => True

namespace Grammar

variable {α β : Type} {sound : Prop} {s s₁ s₂ s' : State} {φ : Phrase} {frame : FrameId}
  {log : List Binding} {rank k : Nat}

/-- The reading has answered, or has ended with an allowed cause. -/
def Ends (sound : Prop) : EStateM.Result Fault State α → Prop
  | .ok .. => True
  | .error fault _ => fault.cause.Allowed sound

/-! ## Sequences -/

theorem ends_bind {x : Parse α} {f : α → Parse β} (hx : Ends sound (x s))
    (hf : ∀ a s₁, x s = .ok a s₁ → Ends sound (f a s₁)) : Ends sound ((x >>= f) s) := by
  rw [bind_run]
  cases hrun : x s with
  | ok a s₁ => exact hf a s₁ hrun
  | error fault s₁ =>
    rw [hrun] at hx
    exact hx

theorem ends_pure {a : α} : Ends sound ((pure a : Parse α) s) := True.intro

theorem ends_ite {c : Prop} [Decidable c] {x y : Parse β} (hx : c → Ends sound (x s))
    (hy : ¬c → Ends sound (y s)) : Ends sound ((if c then x else y) s) := by
  split
  · exact hx ‹_›
  · exact hy ‹_›

theorem ends_fail {cause : Cause} {span : Span} (h : cause.Allowed sound) :
    Ends sound ((fail cause span : Parse α) s) := h

theorem ends_unexpected {wanted : TokenSet} {token : Token} :
    Ends sound ((unexpected wanted token : Parse α) s) := True.intro

theorem ends_accept {wanted : TokenSet} {f : Option Token → Parse β}
    (hat : s.cursor.isAt wanted = true → Ends sound (f (some s.cursor.current) s.next))
    (hnot : s.cursor.isAt wanted = false → Ends sound (f none s)) :
    Ends sound ((accept? wanted >>= f) s) := by
  rw [bind_run, accept?_run]
  cases h : s.cursor.isAt wanted with
  | true => exact hat h
  | false => exact hnot h

/-! ## Questions to the tree -/

theorem ends_known {answer : Option α} {f : α → Parse β} (h : sound → ∃ a, answer = some a)
    (hf : ∀ a, answer = some a → Ends sound (f a s)) : Ends sound ((known answer >>= f) s) := by
  rw [bind_run, known_run]
  cases answer with
  | some a => exact hf a rfl
  | none =>
    intro hsound
    obtain ⟨a, ha⟩ := h hsound
    cases ha

theorem ends_partOf (part : Expr → α) {id : ExprId} {f : α → Parse β}
    (h : sound → s.tree.HasExpr id)
    (hf : ∀ e, s.tree.expr? id = some e → Ends sound (f (part e) s)) :
    Ends sound ((partOf part id >>= f) s) := by
  rw [bind_run, partOf_run]
  cases he : s.tree.expr? id with
  | some e => exact hf e he
  | none =>
    intro hsound
    obtain ⟨e, he'⟩ := Tree.hasExpr_iff.1 (h hsound)
    rw [he] at he'
    cases he'

theorem ends_nodeOf {id : ExprId} {f : Node → Parse β} (h : sound → s.tree.HasExpr id)
    (hf : ∀ e, s.tree.expr? id = some e → Ends sound (f e.node s)) :
    Ends sound ((nodeOf id >>= f) s) := ends_partOf Expr.node h hf

theorem ends_spanOf {id : ExprId} {f : Span → Parse β} (h : sound → s.tree.HasExpr id)
    (hf : ∀ span, Ends sound (f span s)) : Ends sound ((spanOf id >>= f) s) :=
  ends_partOf Expr.span h fun e _ => hf e.span

theorem ends_entityOf {id : EntityId} {f : Entity → Parse β} (h : sound → s.tree.HasEntity id)
    (hf : ∀ e, s.tree.entity? id = some e → Ends sound (f e s)) :
    Ends sound ((entityOf id >>= f) s) :=
  ends_known (fun hsound => Tree.hasEntity_iff.1 (h hsound)) hf

theorem ends_frameOf {id : FrameId} {f : Frame → Parse β} (h : sound → s.tree.HasFrame id)
    (hf : ∀ x, s.tree.frame? id = some x → Ends sound (f x s)) :
    Ends sound ((frameOf id >>= f) s) :=
  ends_known (fun hsound => Tree.hasFrame_iff.1 (h hsound)) hf

theorem ends_typeOf {id : ExprId} {f : EntityId → Parse β} (hs : sound → s.tree.Sound)
    (h : sound → s.tree.HasExpr id)
    (hf : ∀ type, s.tree.exprType? id = some type → (sound → s.tree.HasEntity type) →
      Ends sound (f type s)) : Ends sound ((typeOf id >>= f) s) := by
  refine ends_known ?_ fun type htype => hf type htype fun hsound =>
    (exprType?_isType (hs hsound) htype (h hsound)).hasEntity
  intro hsound
  obtain ⟨type, htype, _⟩ := (hs hsound).exprType? (h hsound)
  exact ⟨type, htype⟩

theorem ends_typeNameOf {id : EntityId} {f : String → Parse β} (hs : sound → s.tree.Sound)
    (h : sound → s.tree.HasEntity id) (hf : ∀ name, Ends sound (f name s)) :
    Ends sound ((typeNameOf id >>= f) s) :=
  ends_known (fun hsound => (hs hsound).typeName? (h hsound)) fun name _ => hf name

theorem ends_converts {source target : EntityId} {f : Bool → Parse β}
    (hs : sound → s.tree.Sound) (hsource : sound → s.tree.HasEntity source)
    (htarget : sound → s.tree.HasEntity target) (hf : ∀ implicit, Ends sound (f implicit s)) :
    Ends sound ((converts source target >>= f) s) := by
  rw [bind_run, converts_run]
  cases hcast : s.tree.cast? source target with
  | some cast => exact hf cast.isImplicit
  | none =>
    intro hsound
    obtain ⟨cast, hcast'⟩ := (hs hsound).cast? (hsource hsound) (htarget hsound)
    rw [hcast] at hcast'
    cases hcast'

/-- A fault that names two types. -/
theorem ends_typeNames {l r : EntityId} {f : String → String → Parse β}
    (hs : sound → s.tree.Sound) (hl : sound → s.tree.HasEntity l)
    (hr : sound → s.tree.HasEntity r) (hf : ∀ a b, Ends sound (f a b s)) :
    Ends sound ((do f (← typeNameOf l) (← typeNameOf r) : Parse β) s) :=
  ends_typeNameOf hs hl fun a => ends_typeNameOf hs hr fun b => hf a b

/-! ## Changes of the tree -/

theorem ends_push {node : Node} {span : Span} : Ends sound (push node span s) := True.intro

theorem ends_framing {work : Framing α} {span : Span} : Ends sound (framing span work s) := by
  rw [framing_run]
  cases work s.tree <;> exact True.intro

theorem ends_openFrame {span : Span} {f : FrameId → Parse β}
    (hf : ∀ frame s₁, Opens s frame s₁ → Ends sound (f frame s₁)) :
    Ends sound ((openFrame span >>= f) s) :=
  ends_bind ends_framing fun frame s₁ hrun => hf frame s₁ (openFrame_ok.1 hrun)

theorem ends_enterFrame {span : Span} {f : Unit → Parse β}
    (hf : ∀ s₁, Enters s frame s₁ → Ends sound (f () s₁)) :
    Ends sound ((enterFrame span frame >>= f) s) :=
  ends_bind ends_framing fun _ s₁ hrun => hf s₁ (enterFrame_ok.1 hrun)

theorem ends_closeFrame {span : Span} {f : Unit → Parse β}
    (hf : ∀ s₁, Closes s s₁ → Ends sound (f () s₁)) :
    Ends sound ((closeFrame span >>= f) s) :=
  ends_bind (ends_bind ends_framing fun _ _ _ => ends_pure) fun _ s₁ hrun =>
    hf s₁ (closeFrame_ok hrun)

/-! ## States that are ready -/

/-- The tree is sound, and the functions whose bodies are being read are there. -/
structure State.Sound (s : State) : Prop where
  tree : s.tree.Sound
  functions : ∀ f, .function f ∈ s.constructs → s.tree.HasEntity f

/-- The tokens are closed, those that are left and the rank of the production stay below the
level, and the state is sound if it has to be. -/
structure Ready (sound : Prop) (rank k : Nat) (s : State) : Prop where
  closed : s.cursor.Closed
  left : 3 * s.cursor.left + rank < k
  sound : sound → s.Sound

namespace Ready

theorem tree (h : Ready sound rank k s) : sound → s.tree.Sound :=
  fun hsound => (h.sound hsound).tree

theorem mono {rank' k' : Nat} (h : Ready sound rank k s) (hle : rank' + k ≤ rank + k') :
    Ready sound rank' k' s := by
  have hleft := h.left
  exact ⟨h.closed, by omega, h.sound⟩

/-- Forward over tokens, with another tree. -/
theorem forward (h : Ready sound rank k s) (hforward : s.cursor.Forward s'.cursor)
    (hs : sound → s'.Sound) : Ready sound rank k s' := by
  have hleft := h.left
  have hle := hforward.left_le
  exact ⟨h.closed.forward hforward, by omega, hs⟩

theorem next (h : Ready sound rank k s) : Ready sound rank k s.next :=
  h.forward Cursor.forward_advance fun hsound => ⟨h.tree hsound, (h.sound hsound).functions⟩

theorem past (h : Ready sound rank k s) {wanted : TokenSet} : Ready sound rank k (s.past wanted) :=
  h.forward Cursor.forward_skip fun hsound => ⟨h.tree hsound, (h.sound hsound).functions⟩

/-- After at least one token a production of any rank is ready, one level below. -/
theorem below (h : Ready sound rank (k + 1) s) (h' : Ready sound rank (k + 1) s')
    (hforward : s.cursor.Forward s'.cursor) (hkind : s.cursor.current.kind ≠ .eof)
    (hlt : s.cursor.position < s'.cursor.position) : Ready sound 2 k s' := by
  have hleft := h.left
  have hless := h.closed.left_lt hforward hkind hlt
  exact ⟨h'.closed, by omega, h'.sound⟩

theorem read (h : Ready sound rank (k + 1) s) {wanted : TokenSet}
    (hat : s.cursor.isAt wanted = true) (heof : wanted.contains .eof = false) :
    Ready sound 2 k s.next := by
  have hkind := Cursor.ne_eof_of_isAt hat heof
  exact h.below h.next Cursor.forward_advance hkind (advances_next .refl hkind)

/-- After steps that keep the constructs and the tree sound. -/
theorem trail (h : Ready sound rank k s) (htrail : Trail s log s')
    (hconstructs : s'.constructs = s.constructs) (hs : sound → s'.tree.Sound) :
    Ready sound rank k s' := by
  refine h.forward htrail.forward fun hsound => ⟨hs hsound, ?_⟩
  intro f hf
  rw [hconstructs] at hf
  exact htrail.extends.hasEntity ((h.sound hsound).functions f hf)

theorem reads (h : Ready sound rank k s) (hread : Reads φ s log s')
    (hfits : sound → φ.Fits s.tree) : Ready sound rank k s' :=
  h.trail hread.trail hread.constructs fun hsound => hread.sound (h.tree hsound) (hfits hsound)

theorem opens (h : Ready sound rank k s) (hopen : Opens s frame s') : Ready sound rank k s' :=
  h.trail (.single (.opens hopen)) hopen.constructs fun hsound => hopen.sound (h.tree hsound)

/-- Inside a construct, of which the function is there if it is one. -/
theorem inside (h : Ready sound rank k s) {c : Construct}
    (hc : sound → ∀ f, c = .function f → s.tree.HasEntity f) :
    Ready sound rank k (s.inside c) := by
  refine h.forward .refl fun hsound => ⟨h.tree hsound, ?_⟩
  intro f hf
  rcases List.mem_cons.1 hf with rfl | hf
  · exact hc hsound f rfl
  · exact (h.sound hsound).functions f hf

end Ready

/-! ## Productions that last -/

/-- The three functions end when fewer tokens are left than the level is high: three levels a
token, and one more for each rank. -/
structure Productions.Lasts (sound : Prop) (p : Productions) (k : Nat) : Prop where
  step : ∀ {left closing s}, Ready sound 0 k s →
    (sound → ∀ l, left = some l → s.tree.HasExpr l) → Ends sound (p.step left closing s)
  extend : ∀ {left closing s}, Ready sound 1 k s →
    (sound → ∀ l, left = some l → s.tree.HasExpr l) → Ends sound (p.extend left closing s)
  sequence : ∀ {body closing s}, Ready sound 2 k s →
    (sound → ∀ b ∈ body, s.tree.HasExpr b) → Ends sound (p.sequence body closing s)

variable {p : Productions} {closing : TokenSet} {f : Option ExprId → Parse β}

/-- An expression is read, and what follows it begins in a state that is ready again. -/
theorem ends_expr (hp : p.Faithful) (hl : p.Lasts sound k) (hs : Ready sound 2 k s)
    (hf : ∀ answer log s₁, Reads (.extend none closing answer) s log s₁ → Ready sound 2 k s₁ →
      Ends sound (f answer s₁)) : Ends sound ((p.expr closing >>= f) s) := by
  have hready : Ready sound 1 k s := hs.mono (by omega)
  refine ends_bind (hl.extend hready fun _ => hasExpr_none) fun answer s₁ hrun => ?_
  obtain ⟨log, hread⟩ := hp.extend hrun
  exact hf answer log s₁ hread (hs.reads hread fun _ => hasExpr_none)

/-- An operand is read, and what follows it begins in a state that is ready again. -/
theorem ends_operand (hp : p.Faithful) (hl : p.Lasts sound k) (hs : Ready sound 2 k s)
    (hf : ∀ answer log s₁, Reads (.step none closing answer) s log s₁ → Ready sound 2 k s₁ →
      Ends sound (f answer s₁)) : Ends sound ((p.step none closing >>= f) s) := by
  have hready : Ready sound 0 k s := hs.mono (by omega)
  refine ends_bind (hl.step hready fun _ => hasExpr_none) fun answer s₁ hrun => ?_
  obtain ⟨log, hread⟩ := hp.step hrun
  exact hf answer log s₁ hread (hs.reads hread fun _ => hasExpr_none)

end Grammar

end OnePass

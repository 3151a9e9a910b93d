import OnePass.Proofs.Bracketing

/-!
# Names

Names are unique per frame, with one exception. A definition first asks whether its name is
taken in the innermost frame and binds it only after its value has been read. So it may
replace a binding of the same name in the same frame that its own value has made, as
`x := x := 1` does, and no other.

The log of a phrase is what this is shown of. Replayed over the names at the start it gives
the names at the end (`Tidy.replay`), a later binding of a key has an earlier one within its
value (`Spaced`), and a definition that finds its name taken ends with a fault
(`definition_of_bound`).
-/

namespace OnePass

/-- The name and the entity that a node defines. -/
def Node.defined? : Node → Option (String × EntityId)
  | .definition defined _ _ entity _ => some (defined, entity)
  | .function defined entity _ _ => some (defined, entity)
  | .typedef defined _ _ entity => some (defined, entity)
  | _ => none

/-- The entity that a name stands for in a frame itself. -/
def Tree.binding? (t : Tree) (f : FrameId) (name : String) : Option EntityId :=
  (t.frame? f).bind (·.find? name)

namespace Grammar

variable {s s₁ s' : State} {t t₁ t₂ t' : Tree} {log log' : List Binding} {b c : Binding}
  {f : FrameId} {name : String}

/-! ## Logs -/

/-- Both bindings are of one name in one frame. -/
def Binding.Same (b c : Binding) : Prop := b.frame = c.frame ∧ b.name = c.name

instance (b c : Binding) : Decidable (b.Same c) := inferInstanceAs (Decidable (_ ∧ _))

/-- The entity that the last binding of a name in a frame has bound. -/
def boundBy (f : FrameId) (name : String) : List Binding → Option EntityId
  | [] => none
  | b :: rest =>
    (boundBy f name rest).or (if b.frame = f ∧ b.name = name then some b.entity else none)

theorem boundBy_append (log log' : List Binding) :
    boundBy f name (log ++ log') = (boundBy f name log').or (boundBy f name log) := by
  induction log with
  | nil => simp [boundBy]
  | cons b rest ih => rw [List.cons_append, boundBy, boundBy, ih, Option.or_assoc]

theorem boundBy_eq_none : boundBy f name log = none ↔
    ∀ b ∈ log, ¬(b.frame = f ∧ b.name = name) := by
  induction log with
  | nil => simp [boundBy]
  | cons b rest ih =>
    rw [boundBy, Option.or_eq_none_iff, ih, List.forall_mem_cons]
    by_cases hb : b.frame = f ∧ b.name = name <;> simp [hb]

/-- The last binding of a key decides. -/
theorem boundBy_of_last {i : Nat} (hi : log[i]? = some b)
    (hlast : ∀ j c, i < j → log[j]? = some c → ¬b.Same c) :
    boundBy b.frame b.name log = some b.entity := by
  induction log generalizing i with
  | nil => simp at hi
  | cons d rest ih =>
    cases i with
    | zero =>
      obtain rfl : d = b := by simpa using hi
      have hrest : boundBy d.frame d.name rest = none := by
        rw [boundBy_eq_none]
        intro c hc hsame
        obtain ⟨j, hj⟩ := List.mem_iff_getElem?.1 hc
        exact hlast (j + 1) c (Nat.succ_pos j) (by simpa using hj) ⟨hsame.1.symm, hsame.2.symm⟩
      rw [boundBy, hrest]
      simp
    | succ i =>
      have hrest := ih (i := i) (by simpa using hi) fun j c hij hj =>
        hlast (j + 1) c (Nat.succ_lt_succ hij) (by simpa using hj)
      rw [boundBy, hrest]
      rfl

/-- What a name stands for was bound last. -/
theorem exists_last_of_boundBy {entity : EntityId} (h : boundBy f name log = some entity) :
    ∃ (i : Nat) (b : Binding), log[i]? = some b ∧ b.frame = f ∧ b.name = name ∧ b.entity = entity ∧
      ∀ (j : Nat) (c : Binding), i < j → log[j]? = some c → ¬b.Same c := by
  induction log with
  | nil => cases h
  | cons d rest ih =>
    rw [boundBy] at h
    cases hrest : boundBy f name rest with
    | some found =>
      rw [hrest, Option.some_or] at h
      obtain ⟨i, b, hi, hframe, hname, hentity, hlast⟩ := ih (hrest.trans h)
      refine ⟨i + 1, b, by simpa using hi, hframe, hname, hentity, ?_⟩
      intro j c hij hj
      obtain ⟨j, rfl⟩ : ∃ k, j = k + 1 := ⟨j - 1, by omega⟩
      exact hlast j c (by omega) (by simpa using hj)
    | none =>
      rw [hrest, Option.none_or] at h
      split at h
      · rename_i hd
        refine ⟨0, d, rfl, hd.1, hd.2, Option.some.inj h, ?_⟩
        intro j c hij hj hsame
        obtain ⟨j, rfl⟩ : ∃ k, j = k + 1 := ⟨j - 1, by omega⟩
        have hc : c ∈ rest := List.mem_of_getElem? (i := j) (by simpa using hj)
        exact boundBy_eq_none.1 hrest c hc ⟨hsame.1.symm.trans hd.1, hsame.2.symm.trans hd.2⟩
      · cases h

/-- Of two bindings of one key the earlier was made while the value of the later was read, and
they bind different entities. -/
def Spaced (log : List Binding) : Prop :=
  ∀ (i j : Nat) (b c : Binding), i < j → log[i]? = some b → log[j]? = some c → b.Same c →
    j ≤ i + c.within ∧ b.entity ≠ c.entity

theorem spaced_nil : Spaced [] := by
  intro i j b c _ hi
  simp at hi

theorem spaced_single : Spaced [b] := by
  intro i j c d hij hi hj
  simp only [List.getElem?_singleton] at hj
  split at hj
  · omega
  · cases hj

theorem Spaced.append (h : Spaced log) (h' : Spaced log')
    (hcross : ∀ i j b c, log[i]? = some b → log'[j]? = some c → b.Same c →
      log.length + j ≤ i + c.within ∧ b.entity ≠ c.entity) : Spaced (log ++ log') := by
  intro i j b c hij hi hj hsame
  rw [List.getElem?_append] at hi hj
  split at hj
  · rename_i hjlt
    rw [if_pos (by omega)] at hi
    exact h i j b c hij hi hj hsame
  · split at hi
    · obtain ⟨hwithin, hne⟩ := hcross i (j - log.length) b c hi hj hsame
      exact ⟨by omega, hne⟩
    · obtain ⟨hwithin, hne⟩ := h' _ _ b c (by omega) hi hj hsame
      exact ⟨by omega, hne⟩

/-! ## Bindings after one change -/

theorem binding?_bind (ht : t.HasFrame t.currentFrame) (name' : String) (entity : EntityId) :
    (t.bind name' entity).binding? f name =
      if t.currentFrame = f ∧ name' = name then some entity else t.binding? f name := by
  obtain ⟨x, hx⟩ := Tree.hasFrame_iff.1 ht
  unfold Tree.binding? Tree.bind
  rw [Tree.frame?_modifyFrame]
  by_cases hf : t.currentFrame = f
  · subst hf
    rw [if_pos rfl, hx]
    show (x.bind name' entity).find? name = _
    rw [Frame.find?_bind]
    by_cases hname : name' = name <;> simp [hname]
  · simp [hf]

theorem binding?_setBody (id : FrameId) (function : EntityId) (body : ExprId) :
    (t.modifyFrame id (·.setBody function body)).binding? f name = t.binding? f name :=
  Tree.asked_modifyFrame (f := (·.setBody function body)) (fun x => x.bind (·.find? name))
    (fun _ => rfl) id f

theorem binding?_withChild : t.withChild.binding? f name = t.binding? f name :=
  Tree.asked_withChild (fun x => x.bind (·.find? name)) (fun _ _ => rfl) f

/-! ## What a log says of the names -/

/-- The log has the bindings made between two trees: replayed over the names of the first it
gives those of the second, each with an entity made in between, later bindings of a key have
the earlier ones within their values, and every definition made in between is there. -/
structure Track (t : Tree) (log : List Binding) (t' : Tree) : Prop where
  framed : t'.Framed
  replay : ∀ f name, t'.binding? f name = (boundBy f name log).or (t.binding? f name)
  grows : t.Extends t'
  fresh : ∀ b ∈ log, t.entities.size ≤ b.entity.index ∧ b.entity.index < t'.entities.size
  spaced : Spaced log
  logged : ∀ {id e name entity}, t'.expr? id = some e → e.node.defined? = some (name, entity) →
    t.HasExpr id ∨ ∃ b ∈ log, b.name = name ∧ b.entity = entity

/-- A log of names that were all free at the start. -/
structure Tidy (t : Tree) (log : List Binding) (t' : Tree) : Prop extends Track t log t' where
  free : ∀ b ∈ log, t.binding? b.frame b.name = none

/-- A log that begins with a name in the innermost frame, taken or not, and goes on with
others that were all free. -/
structure Named (name : String) (t : Tree) (log : List Binding) (t' : Tree) : Prop
    extends Track t log t' where
  head : ∃ b rest, log = b :: rest ∧ b.frame = t.currentFrame ∧ b.name = name ∧
    ∀ c ∈ rest, t.binding? c.frame c.name = none ∧ ¬b.Same c

/-- A name that is free after some bindings was free before, and is none of theirs. -/
theorem Track.free_before (h : Track t log t₁) (hc : t₁.binding? c.frame c.name = none) :
    t.binding? c.frame c.name = none ∧ ∀ b ∈ log, ¬b.Same c := by
  rw [h.replay, Option.or_eq_none_iff, boundBy_eq_none] at hc
  exact ⟨hc.2, hc.1⟩

theorem Track.append (h : Track t log t₁) (h' : Track t₁ log' t')
    (hcross : ∀ i j b c, log[i]? = some b → log'[j]? = some c → b.Same c →
      log.length + j ≤ i + c.within ∧ b.entity ≠ c.entity) : Track t (log ++ log') t' := by
  refine ⟨h'.framed, ?_, h.grows.trans h'.grows, ?_, h.spaced.append h'.spaced hcross, ?_⟩
  · intro f name
    rw [h'.replay, h.replay, boundBy_append, Option.or_assoc]
  · intro b hb
    rcases List.mem_append.1 hb with hb | hb
    · exact ⟨(h.fresh b hb).1, Nat.lt_of_lt_of_le (h.fresh b hb).2 h'.grows.entities_le⟩
    · exact ⟨Nat.le_trans h.grows.entities_le (h'.fresh b hb).1, (h'.fresh b hb).2⟩
  · intro id e name entity he hdefined
    rcases h'.logged he hdefined with hid | ⟨b, hb, heq⟩
    · rw [h'.grows.expr_eq hid] at he
      rcases h.logged he hdefined with hid | ⟨b, hb, heq⟩
      · exact .inl hid
      · exact .inr ⟨b, List.mem_append_left _ hb, heq⟩
    · exact .inr ⟨b, List.mem_append_right _ hb, heq⟩

/-- Bindings of names that are free after others are of other names. -/
theorem Track.append_free (h : Track t log t₁) (h' : Track t₁ log' t')
    (hfree : ∀ c ∈ log', ∀ b ∈ log, ¬b.Same c) : Track t (log ++ log') t' :=
  h.append h' fun _ _ b c hi hj hsame =>
    absurd hsame (hfree c (List.mem_of_getElem? hj) b (List.mem_of_getElem? hi))

theorem Tidy.append (h : Tidy t log t₁) (h' : Tidy t₁ log' t') : Tidy t (log ++ log') t' := by
  have hbefore : ∀ c ∈ log', t.binding? c.frame c.name = none ∧ ∀ b ∈ log, ¬b.Same c :=
    fun c hc => h.free_before (h'.free c hc)
  refine ⟨h.append_free h'.toTrack fun c hc => (hbefore c hc).2, ?_⟩
  intro b hb
  rcases List.mem_append.1 hb with hb | hb
  · exact h.free b hb
  · exact (hbefore b hb).1

theorem Named.append (h : Named name t log t₁) (h' : Tidy t₁ log' t') :
    Named name t (log ++ log') t' := by
  have hbefore : ∀ c ∈ log', t.binding? c.frame c.name = none ∧ ∀ b ∈ log, ¬b.Same c :=
    fun c hc => h.free_before (h'.free c hc)
  refine ⟨h.append_free h'.toTrack fun c hc => (hbefore c hc).2, ?_⟩
  obtain ⟨b, rest, rfl, hframe, hname, hrest⟩ := h.head
  refine ⟨b, rest ++ log', rfl, hframe, hname, ?_⟩
  intro c hc
  rcases List.mem_append.1 hc with hc | hc
  · exact hrest c hc
  · exact ⟨(hbefore c hc).1, (hbefore c hc).2 b List.mem_cons_self⟩

/-- A definition: what its value defines, and then its own name, which was free before the
value was read. -/
theorem Tidy.define (h : Tidy t log t₁) (h' : Named name t₁ (b :: log') t')
    (hcurrent : t₁.currentFrame = t.currentFrame)
    (hfree : t.binding? t.currentFrame name = none) (hwithin : b.within = log.length) :
    Tidy t (log ++ b :: log') t' := by
  obtain ⟨_, _, hcons, hframe, hname, hrest⟩ := h'.head
  obtain ⟨rfl, rfl⟩ := List.cons.inj hcons
  have hbefore : ∀ c ∈ log', t.binding? c.frame c.name = none ∧ ∀ d ∈ log, ¬d.Same c :=
    fun c hc => h.free_before (hrest c hc).1
  refine ⟨h.toTrack.append h'.toTrack ?_, ?_⟩
  · intro i j d c hi hj hsame
    have hd := List.mem_of_getElem? hi
    cases j with
    | zero =>
      -- the name itself: all bindings of its value are within it, and older
      obtain rfl : b = c := by simpa using hj
      refine ⟨by omega, ?_⟩
      intro heq
      have hold := (h.fresh d hd).2
      have hnew := (h'.fresh b List.mem_cons_self).1
      rw [heq] at hold
      omega
    | succ j =>
      have hc : c ∈ log' := List.mem_of_getElem? (i := j) (by simpa using hj)
      exact absurd hsame ((hbefore c hc).2 d hd)
  · intro c hc
    rcases List.mem_append.1 hc with hc | hc
    · exact h.free c hc
    · rcases List.mem_cons.1 hc with rfl | hc
      · rw [hframe, hname, hcurrent]
        exact hfree
      · exact (hbefore c hc).1

/-! ## The parts of a phrase -/

theorem Step.replay (h : Step s log s') (hs : s.tree.Framed) (f : FrameId) (name : String) :
    s'.tree.binding? f name = (boundBy f name log).or (s.tree.binding? f name) := by
  cases h with
  | next | past | inside | outside | add | addEntity => rfl
  | bind =>
    rw [boundBy, boundBy, Option.none_or]
    refine (binding?_bind hs.current _ _).trans ?_
    split <;> rfl
  | bindBody hbind =>
    obtain rfl := Tree.bindBody_ok hbind
    exact binding?_setBody _ _ _
  | opens hopen =>
    obtain ⟨rfl, hsize, rfl⟩ := hopen.eq
    exact binding?_withChild
  | enters henter =>
    obtain ⟨_, hsize, rfl⟩ := henter.eq
    rfl
  | closes hclose =>
    obtain ⟨_, rfl⟩ := hclose.eq
    rfl

theorem Trail.replay (h : Trail s log s') (hs : s.tree.Framed) (f : FrameId) (name : String) :
    s'.tree.binding? f name = (boundBy f name log).or (s.tree.binding? f name) := by
  induction h with
  | refl => rfl
  | cons hstep _ ih =>
    rw [ih (hstep.framed hs), hstep.replay hs, boundBy_append, Option.or_assoc]

theorem Track.of_trail (h : Trail s log s') (hs : s.tree.Framed)
    (hexprs : s'.tree.exprs = s.tree.exprs) (hfresh : ∀ b ∈ log, b.entity = s.newEntity)
    (hadded : s.tree.entities.size < s'.tree.entities.size) (hspaced : Spaced log) :
    Track s.tree log s'.tree := by
  refine ⟨h.framed hs, h.replay hs, h.extends, ?_, hspaced, ?_⟩
  · intro b hb
    rw [hfresh b hb]
    exact ⟨Nat.le_refl _, hadded⟩
  · intro id e _ _ he _
    exact .inl (Tree.hasExpr_iff.2 ⟨e, by rwa [Tree.expr?, hexprs] at he⟩)

/-- One more expression, which defines nothing or what the log has. -/
theorem Track.push {e : Expr} (h : Track t log t₁)
    (hdefined : ∀ {name entity}, e.node.defined? = some (name, entity) →
      ∃ b ∈ log, b.name = name ∧ b.entity = entity) : Track t log (t₁.pushExpr e).2 := by
  refine ⟨⟨h.framed.nonempty, h.framed.stack, h.framed.parent⟩, h.replay,
    h.grows.trans (t₁.pushExpr_extends e), h.fresh, h.spaced, ?_⟩
  intro id x name entity hx hname
  rw [Tree.expr?_pushExpr] at hx
  split at hx
  · cases hx
    exact .inr (hdefined hname)
  · exact h.logged hx hname

theorem Tidy.push {e : Expr} (h : Tidy t log t₁) (hdefined : e.node.defined? = none) :
    Tidy t log (t₁.pushExpr e).2 :=
  ⟨h.toTrack.push fun hname => absurd (hdefined.symm.trans hname) nofun, h.free⟩

/-- The definition of the name at the head of the log. -/
theorem Named.push {e : Expr} {entity : EntityId} (h : Named name t (b :: log) t₁)
    (hentity : b.entity = entity) (hdefined : e.node.defined? = some (name, entity)) :
    Named name t (b :: log) (t₁.pushExpr e).2 := by
  refine ⟨h.toTrack.push ?_, h.head⟩
  intro name' entity' hname'
  obtain ⟨_, _, hcons, _, hname, _⟩ := h.head
  obtain ⟨rfl, rfl⟩ := List.cons.inj hcons
  rw [hdefined] at hname'
  cases hname'
  exact ⟨b, List.mem_cons_self, hname, hentity⟩

theorem Tidy.refl (ht : t.Framed) : Tidy t [] t :=
  ⟨⟨ht, fun _ _ => rfl, .refl, nofun, spaced_nil, fun he _ => .inl (Tree.hasExpr_iff.2 ⟨_, he⟩)⟩,
    nofun⟩

/-- A step that binds no name and makes no expression. -/
theorem Step.tidy (h : Step s [] s') (hs : s.tree.Framed)
    (hexprs : s'.tree.exprs = s.tree.exprs) : Tidy s.tree [] s'.tree := by
  refine ⟨⟨h.framed hs, h.replay hs, h.extends, nofun, spaced_nil, ?_⟩, nofun⟩
  intro id e _ _ he _
  exact .inl (Tree.hasExpr_iff.2 ⟨e, by rwa [Tree.expr?, hexprs] at he⟩)

/-- Such a step, and then what is tidy. -/
theorem Step.beforeTidy (h : Step s [] s₁) (hexprs : s₁.tree.exprs = s.tree.exprs)
    (hs : s.tree.Framed) (h' : s₁.tree.Framed → Tidy s₁.tree log t') : Tidy s.tree log t' :=
  (h.tidy hs hexprs).append (h' (h.framed hs))

/-- What is tidy, and then such a step. -/
theorem Step.afterTidy (h : Step s [] s') (hexprs : s'.tree.exprs = s.tree.exprs)
    (h' : Tidy t log s.tree) : Tidy t log s'.tree :=
  List.append_nil log ▸ h'.append (h.tidy h'.framed hexprs)

theorem Opens.tidy {frame : FrameId} (h : Opens s frame s₁) (hs : s.tree.Framed)
    (h' : s₁.tree.Framed → Tidy s₁.tree log t') : Tidy s.tree log t' :=
  (Step.opens h).beforeTidy h.exprs hs h'

theorem Closes.tidy (h : Closes s s') (h' : Tidy t log s.tree) : Tidy t log s'.tree :=
  (Step.closes h).afterTidy h.exprs h'

theorem bindBody_tidy {function : EntityId} {body : ExprId} (h : Tidy t log t₁)
    (hbind : t₁.bindBody t₁.currentFrame function body = .ok t') : Tidy t log t' := by
  have hstep : Step ⟨default, t₁, []⟩ [] ⟨default, t', []⟩ := .bindBody hbind
  have hexprs : t'.exprs = t₁.exprs := by
    obtain rfl := Tree.bindBody_ok hbind
    rfl
  exact hstep.afterTidy hexprs h

/-- A new entity under a name. -/
theorem Named.bound (hs : s.tree.Framed) {entity : Entity} (within : Nat) :
    Named name s.tree [⟨s.tree.currentFrame, name, s.newEntity, within⟩]
      ((s.addEntity entity).bind name s.newEntity).tree := by
  have htrail : Trail s [⟨s.tree.currentFrame, name, s.newEntity, within⟩]
      ((s.addEntity entity).bind name s.newEntity) := .after .addEntity (.single .bind)
  have hsize : ((s.addEntity entity).bind name s.newEntity).tree.entities.size =
      s.tree.entities.size + 1 := Array.size_push _
  refine ⟨.of_trail htrail hs rfl ?_ (by omega) spaced_single, _, [], rfl, rfl, rfl, nofun⟩
  intro b hb
  obtain rfl := List.mem_singleton.1 hb
  rfl

theorem Named.install (hs : s.tree.Framed) {entity : Entity} (hname : entity.name = name)
    (within : Nat) : Named name s.tree [⟨s.tree.currentFrame, name, s.newEntity, within⟩]
      (s.install entity).tree := by
  subst hname
  exact bound hs within

/-- A new function under its name and, if that is free, under the name of its signature. -/
theorem Named.named (hs : s.tree.Framed) {entity : Entity} (canonical : String) (within : Nat)
    (hnamed : s₁ = (s.addEntity entity).bind name s.newEntity) :
    Named name s.tree (⟨s.tree.currentFrame, name, s.newEntity, within⟩ ::
      newBinding s₁ canonical s.newEntity) (s₁.bindNew canonical s.newEntity).tree := by
  have hbound : Named name s.tree [⟨s.tree.currentFrame, name, s.newEntity, within⟩] s₁.tree := by
    subst hnamed
    exact .bound hs within
  unfold newBinding State.bindNew
  split
  · rename_i hfree
    have hnone : s₁.tree.binding? s₁.tree.currentFrame canonical = none :=
      Option.isNone_iff_eq_none.1 hfree
    obtain ⟨hbefore, hother⟩ := hbound.free_before
      (c := ⟨s₁.tree.currentFrame, canonical, s.newEntity, 0⟩) hnone
    have htrail : Trail s [⟨s.tree.currentFrame, name, s.newEntity, within⟩] s₁ := by
      subst hnamed
      exact .after .addEntity (.single .bind)
    have hexprs : s₁.tree.exprs = s.tree.exprs := by rw [hnamed]; rfl
    have hlt : s.tree.entities.size < (s₁.bind canonical s.newEntity).tree.entities.size :=
      (hbound.fresh _ (List.mem_singleton_self _)).2
    refine ⟨.of_trail (htrail.trans (.single .bind)) hs hexprs ?_ hlt ?_, ?_⟩
    · intro b hb
      rcases List.mem_cons.1 hb with rfl | hb
      · rfl
      · obtain rfl := List.mem_singleton.1 hb
        rfl
    · refine spaced_single.append spaced_single ?_
      intro i j b c hi hj hsame
      obtain rfl := List.mem_singleton.1 (List.mem_of_getElem? hi)
      obtain rfl := List.mem_singleton.1 (List.mem_of_getElem? hj)
      exact absurd hsame (hother _ (List.mem_singleton_self _))
    · refine ⟨_, _, rfl, rfl, rfl, ?_⟩
      intro c hc
      obtain rfl := List.mem_singleton.1 hc
      exact ⟨hbefore, hother _ (List.mem_singleton_self _)⟩
  · exact hbound

/-! ## The names of every phrase -/

/-- What the log of a phrase says of the names: all were free at the start, but for the one
that a definition binds after its value has been read. -/
def Phrase.Names : Phrase → Tree → List Binding → Tree → Prop
  | .declaration name .. | .function name .. | .typedef name .. => Named name.text
  | _ => Tidy

theorem Begins.tidy {token : Token} {closing : TokenSet} {id : ExprId} {left : Option ExprId}
    {φ : Phrase} (h : Begins token closing id left φ) (hnames : φ.Names t log t') :
    Tidy t log t' := by
  cases h <;> exact hnames

theorem DeclaredType.tidy {op : DefOp} {type : Option EntityId} (h : DeclaredType op s type s')
    (hs : s.tree.Framed) : Tidy s.tree [] s'.tree := by
  cases h <;> exact .refl hs

theorem DeclaredType.current {op : DefOp} {type : Option EntityId}
    (h : DeclaredType op s type s') : s'.tree.currentFrame = s.tree.currentFrame := by
  cases h <;> rfl

theorem ResultType.tidy {type : EntityId} (h : ResultType s type s') (hs : s.tree.Framed) :
    Tidy s.tree [] s'.tree := by
  cases h <;> exact .refl hs

theorem Separates.tidy {rest : List EntityId} {closing : TokenSet}
    (h : Separates rest closing s s') (hs : s.tree.Framed) : Tidy s.tree [] s'.tree := by
  cases h <;> exact .refl hs

theorem Reads.names {φ : Phrase} (h : Reads φ s log s') (hs : s.tree.Framed) :
    φ.Names s.tree log s'.tree := by
  induction h with
  | stepClosing | stepNewline | extendClosing | extendBrace | sequenceClosing | typeName
  | argumentsNil | elseNone | nextNone | initialNone => exact .refl hs
  | stepPrefix _ _ _ ih | stepOperator _ _ _ _ ih | stepOperand _ _ _ _ _ _ _ ih
  | scopeAfter _ _ ih | elseSome _ _ ih | nextSome _ _ _ _ ih | initialConstant _ ih
  | initialSome _ _ ih | nameDefinition _ _ ih | stepPostfix _ _ _ ih | nameAlone _ _ ih =>
    exact ih hs
  | operand hbegins _ ih => exact hbegins.tidy (ih hs)
  | extendStep _ _ _ hstep _ ih ih' => exact Tidy.append (ih hs) (ih' (hstep.framed hs))
  | sequenceItem _ _ hitem _ ih ih' => exact Tidy.append (ih hs) (ih' (hitem.framed hs))
  | literal hnode => exact (Tidy.refl hs).push (by cases hnode <;> rfl)
  | nameUse | postfixOperation | member => exact (Tidy.refl hs).push rfl
  | prefixOperation _ _ _ _ ih | binaryOperation _ _ _ _ _ ih | scopeBody _ ih
  | call _ _ _ _ _ ih | structLiteral _ _ _ _ ih | returns _ _ _ _ _ ih =>
    exact Tidy.push (ih hs) rfl
  | argumentsCons hvalue _ _ _ hseparates _ _ ih ih' =>
    have hbefore := Tidy.append (ih hs) (hseparates.tidy (hvalue.framed hs))
    rw [List.append_nil] at hbefore
    exact (hbefore.append (ih' hbefore.framed)).push rfl
  | scope hopen _ hclose ih => exact hclose.tidy (hopen.tidy hs ih)
  | branch hopen _ _ _ _ hclose ih ih' ih'' =>
    have hcond := hopen.tidy hs ih
    have hthen := hcond.append (ih' hcond.framed)
    exact (hclose.tidy (hthen.append (ih'' hthen.framed))).push rfl
  | @loopEndless keyword _ _ _ _ _ _ s₂ _ _ hopen _ _ _ _ hclose ih ih' =>
    have hfirst : Tidy _ _ (s₂.add (.bool true) keyword.span).tree :=
      Tidy.push (hopen.tidy hs ih) rfl
    exact (hclose.tidy (hfirst.append (ih' hfirst.framed))).push rfl
  | loopWhile hopen _ _ _ _ hclose ih ih' =>
    have hfirst := hopen.tidy hs ih
    exact (hclose.tidy (hfirst.append (ih' hfirst.framed))).push rfl
  | loopCounted hopen _ _ _ _ _ _ _ _ hclose ih₁ ih₂ ih₃ ih₄ =>
    have hinit := hopen.tidy hs ih₁
    have hcond := hinit.append (ih₂ hinit.framed)
    have hstep := hcond.append (ih₃ hcond.framed)
    exact (hclose.tidy (hstep.append (ih₄ hstep.framed))).push rfl
  | groupParameters hopen hcontent _ _ hresult hclose ih =>
    have hinner := hopen.tidy hs ih
    have hboth := hinner.append (hresult.tidy hinner.framed)
    rw [List.append_nil] at hboth
    exact (hclose.tidy hboth).push rfl
  | @groupExpression _ _ _ _ _ _ _ s₂ _ hopen _ _ _ _ hclose ih =>
    have hinner : Tidy _ _ s₂.next.tree := hopen.tidy hs ih
    exact (hclose.tidy hinner).push rfl
  | @function _ _ _ _ _ _ _ canonical _ within _ _ _ _ _ _ _ _ _ _ hnamed henter _ _ hclose hbind
      ih =>
    have hhead := Named.named hs canonical within hnamed
    have hbody := (Step.enters henter).beforeTidy henter.exprs hhead.framed ih
    exact (hhead.append (bindBody_tidy (hclose.tidy hbody) hbind)).push rfl rfl
  | @declaration name _ _ type _ _ within _ s _ _ ih =>
    have hname : (Entity.var name.text type).name = name.text := rfl
    have hhead := Named.install hs hname within
    exact (hhead.append (ih hhead.framed)).push rfl rfl
  | definitionFunction hnew _ htype hinit _ _ _ hwithin ih ih' =>
    have hinitial := Tidy.append (htype.tidy hs) (ih (htype.tidy hs).framed)
    exact hinitial.define (ih' hinitial.framed) (hinit.leaves.current.trans htype.current) hnew
      hwithin
  | definitionRecord hnew _ htype hinit _ _ _ hwithin ih ih' =>
    have hinitial := Tidy.append (htype.tidy hs) (ih (htype.tidy hs).framed)
    exact hinitial.define (ih' hinitial.framed) (hinit.leaves.current.trans htype.current) hnew
      hwithin
  | definitionVariable hnew _ htype hinit _ _ _ hwithin ih ih' =>
    have hinitial := Tidy.append (htype.tidy hs) (ih (htype.tidy hs).framed)
    exact hinitial.define (ih' hinitial.framed) (hinit.leaves.current.trans htype.current) hnew
      hwithin
  | record _ hopen _ _ hclose ih =>
    have hbody := hopen.tidy hs ih
    exact (hclose.tidy hbody).push rfl
  | typedef => exact (Named.install hs (recordEntity_name _ _ _) _).push rfl rfl

/-! ## Names at the end -/

/-- A definition that finds its name taken in the innermost frame ends with a fault. -/
theorem definition_of_bound {p : Productions} {name symbol : Token} {closing : TokenSet}
    (h : (s.tree.findLocal? name.text).isSome = true) :
    definition p name symbol closing s =
      .error ⟨.redefinition name.text, some name.span⟩ s := by
  unfold definition
  rw [get_bind, if_pos h]
  rfl

/-- A binding holds at the end just if no other has been made around it. -/
theorem Track.kept_iff (h : Track t log t') {i : Nat} (hi : log[i]? = some b) :
    t'.binding? b.frame b.name = some b.entity ↔
      ¬∃ (j : Nat) (c : Binding), i < j ∧ j ≤ i + c.within ∧ log[j]? = some c ∧ b.Same c := by
  rw [h.replay]
  constructor
  · rintro hkept ⟨j, c, hij, _, hj, hsame⟩
    cases hbound : boundBy b.frame b.name log with
    | none => exact boundBy_eq_none.1 hbound b (List.mem_of_getElem? hi) ⟨rfl, rfl⟩
    | some entity =>
      rw [hbound, Option.some_or] at hkept
      obtain ⟨k, d, hk, hframe, hname, hentity, hlast⟩ := exists_last_of_boundBy hbound
      have hjk : j ≤ k := by
        refine Nat.le_of_not_lt fun hkj => hlast j c hkj hj ?_
        exact ⟨hframe.trans hsame.1, hname.trans hsame.2⟩
      have hne := (h.spaced i k b d (by omega) hi hk ⟨hframe.symm, hname.symm⟩).2
      exact hne ((Option.some.inj hkept).symm.trans hentity.symm)
  · intro hnone
    have hlast : boundBy b.frame b.name log = some b.entity := by
      refine boundBy_of_last hi ?_
      intro j c hij hj hsame
      exact hnone ⟨j, c, hij, (h.spaced i j b c hij hi hj hsame).1, hj, hsame⟩
    rw [hlast]
    rfl

/-- The names of an accepted source are read with a log that has all its definitions. Names
were free when bound, the built-in ones included, unless the name was bound before within the
value of the definition; only then a binding does not hold at the end. A definition whose name
is taken when it begins is never accepted. -/
theorem names_unique_outside_values (source : String) :
    (∀ tree, parseSource source = .ok tree →
      ∃ tokens body log s, Lexicon.tokenize source.toList = .ok tokens ∧
        Reads (.sequence #[] {.eof} body) (.initial tokens) log s ∧
        tree = (s.finished (Cursor.start tokens).current.span body).tree ∧
        (∀ (id : ExprId) (e : Expr) (name : String) (entity : EntityId),
          tree.expr? id = some e → e.node.defined? = some (name, entity) →
          ∃ b ∈ log, b.name = name ∧ b.entity = entity) ∧
        (∀ b ∈ log, Tree.withBuiltins.binding? b.frame b.name = none) ∧
        (∀ (i j : Nat) (b c : Binding), i < j → log[i]? = some b → log[j]? = some c → b.Same c →
          j ≤ i + c.within) ∧
        ∀ (i : Nat) (b : Binding), log[i]? = some b →
          (tree.binding? b.frame b.name = some b.entity ↔
            ¬∃ (j : Nat) (c : Binding), i < j ∧ j ≤ i + c.within ∧ log[j]? = some c ∧ b.Same c)) ∧
    ∀ (n : Nat) (name symbol : Token) (closing : TokenSet) (s : State),
      (s.tree.findLocal? name.text).isSome = true →
      definition (level n) name symbol closing s =
          .error ⟨.redefinition name.text, some name.span⟩ s ∧
        (Cause.redefinition name.text).kind = .resolution := by
  constructor
  · intro tree h
    obtain ⟨tokens, htokens, hparse⟩ := parseSource_ok h
    obtain ⟨body, log, s, hread, rfl⟩ := parse_reads hparse
    have htidy : Tidy (State.initial tokens).tree log s.tree := hread.names framed_withBuiltins
    refine ⟨tokens, body, log, s, htokens, hread, rfl, ?_, htidy.free, ?_, ?_⟩
    · intro id e name entity he hdefined
      have hfinal := htidy.toTrack.push (e := ⟨.scope body Tree.mainFrame,
        (Cursor.start tokens).current.span.merge s.cursor.previousSpan⟩) nofun
      exact (hfinal.logged he hdefined).resolve_left (Nat.not_lt_zero _)
    · intro i j b c hij hi hj hsame
      exact (htidy.spaced i j b c hij hi hj hsame).1
    · intro i b hi
      exact htidy.kept_iff hi
  · intro n name symbol closing s h
    exact ⟨definition_of_bound h, rfl⟩

/-- The value of a definition may define its name first, and this definition is lost. -/
theorem value_binding_replaced :
    ¬∀ (source : String) (tree : Tree), parseSource source = .ok tree →
      ∀ (id : ExprId) (e : Expr) (name : String) (entity : EntityId), tree.expr? id = some e →
        e.node.defined? = some (name, entity) → ∃ f, tree.binding? f name = some entity := by
  intro h
  have hrun : (parseSource "x := x := 1\n").toOption.any (fun tree =>
      decide ((tree.expr? ⟨1⟩).bind (·.node.defined?) = some ("x", ⟨16⟩) ∧
        ∀ frame ∈ tree.frames.toList, frame.find? "x" ≠ some ⟨16⟩)) = true := by decide +kernel
  cases hparse : parseSource "x := x := 1\n" with
  | error =>
    rw [hparse] at hrun
    cases hrun
  | ok tree =>
    rw [hparse] at hrun
    obtain ⟨hnode, hframes⟩ := of_decide_eq_true hrun
    obtain ⟨e, he, hdefined⟩ := Option.bind_eq_some_iff.1 hnode
    obtain ⟨f, hf⟩ := h _ tree hparse ⟨1⟩ e "x" ⟨16⟩ he hdefined
    obtain ⟨frame, hframe, hfind⟩ := Option.bind_eq_some_iff.1 hf
    exact hframes frame (Array.mem_toList_iff.2 (Array.mem_of_getElem? hframe)) hfind

/-- Such a source is accepted, and a definition of a built-in name is not. -/
theorem names_unique_outside_values_nested :
    (∃ tokens body log s, Lexicon.tokenize "x := x := 1\n".toList = .ok tokens ∧
      Reads (.sequence #[] {.eof} body) (.initial tokens) log s) ∧
    definition (level 1) ⟨.name, "u8", default⟩ ⟨.define, ":", default⟩ {.eof}
        (.initial bodyTokens) =
      .error ⟨.redefinition "u8", some default⟩ (.initial bodyTokens) := by
  constructor
  · cases hparse : parseSource "x := x := 1\n" with
    | error =>
      have hrun : (parseSource "x := x := 1\n").isOk = true := by decide +kernel
      simp [hparse, Except.isOk, Except.toBool] at hrun
    | ok tree =>
      obtain ⟨tokens, body, log, s, htokens, hread, _⟩ :=
        (names_unique_outside_values _).1 tree hparse
      exact ⟨tokens, body, log, s, htokens, hread⟩
  · have hbound : ((State.initial bodyTokens).tree.findLocal? "u8").isSome = true := by
      decide +kernel
    exact ((names_unique_outside_values "").2 1 ⟨.name, "u8", default⟩ _ _ _ hbound).1

end Grammar

end OnePass

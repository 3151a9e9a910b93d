import OnePass.Proofs.Rules

/-!
# Changes of a sound tree

A change keeps a tree sound if what it adds fits. Each change has a lemma that says what has
to hold before it (`Tree.Sound.pushExpr`, `Tree.Sound.bind`, …), and one that says that the
tree evolves, so that whatever was known about types before is known after it.
-/

namespace OnePass

namespace Tree

variable {t t' : Tree}

/-! ## Sound parts over time -/

theorem KindSound.mono {id : EntityId} {kind : EntityKind} (h : t.KindSound id kind)
    (hevolves : t.Evolves t') : t'.KindSound id kind := by
  cases kind with
  | var => exact ⟨h.1, h.2.mono hevolves.toExtends⟩
  | function => exact ⟨h.1, h.2.1, h.2.2.mono hevolves.toExtends⟩
  | struct frame | enum frame =>
    refine ⟨hevolves.toExtends.isRecordFrame h.1, ?_⟩
    intro f hf
    exact h.2 f ((hevolves.record frame h.1).symm.trans hf)
  | _ => trivial

theorem NodeSound.mono {id : ExprId} {node : Node} (h : t.NodeSound id node) (ht : t.Sound)
    (hevolves : t.Evolves t') : t'.NodeSound id node := by
  refine ⟨h.children, ?_, ?_, h.typed.mono hevolves ht.builtins ht.hasRecords⟩
  · exact fun m hm => hevolves.toExtends.hasEntity (h.referent m hm)
  · exact fun f hf => hevolves.toExtends.hasFrame (h.own f hf)

/-- A tree that evolves stays sound if all that is new in it is. -/
theorem Sound.evolve (h : t.Sound) (hevolves : t.Evolves t') (hframed : t'.Framed)
    (hkind : ∀ {id e}, t'.entity? id = some e → t.entity? id = some e ∨ t'.KindSound id e.kind)
    (hnames : ∀ {id f}, t'.frame? id = some f → ∀ m ∈ f.entities,
      (∃ f', t.frame? id = some f' ∧ m ∈ f'.entities) ∨ t'.HasEntity m)
    (hnode : ∀ {id e}, t'.expr? id = some e → t.expr? id = some e ∨ t'.NodeSound id e.node)
    (hclosed : ∀ {f}, t'.IsRecordFrame f → f ∉ t'.stack.items)
    (hapart : ∀ {f}, t'.IsRecordFrame f → ∀ {id e}, t'.expr? id = some e →
      e.node.signatureFrame? ≠ some f) : t'.Sound := by
  refine ⟨hframed, hevolves.toExtends.hasBuiltins h.builtins, ?_, ?_, ?_, hclosed, hapart⟩
  · intro id e he
    rcases hkind he with hold | hnew
    · exact (h.kind hold).mono hevolves
    · exact hnew
  · intro id f hf m hm
    rcases hnames hf m hm with ⟨f', hf', hm'⟩ | hnew
    · exact hevolves.toExtends.hasEntity (h.names hf' m hm')
    · exact hnew
  · intro id e he
    rcases hnode he with hold | hnew
    · exact (h.node hold).mono h hevolves
    · exact hnew

theorem Sound.recordFrame (h : t.Sound) {f : FrameId} (hf : t.IsRecordFrame f) : t.HasFrame f := by
  obtain ⟨id, form, body, span, he⟩ := hf
  exact (h.node he).own f rfl

theorem Sound.current (h : t.Sound) : ¬t.IsRecordFrame t.currentFrame :=
  fun hrecord => h.closed hrecord h.framed.current_mem

/-! ## New expressions -/

/-- The frame is there and closed, and no node has it for its own. -/
structure Unowned (t : Tree) (f : FrameId) : Prop where
  hasFrame : t.HasFrame f
  closed : f ∉ t.stack.items
  own : ∀ {id e}, t.expr? id = some e → e.node.ownFrame? ≠ some f

/-- What a node refers to is there, and its rule holds. -/
structure Fits (t : Tree) (node : Node) : Prop where
  children : ∀ c ∈ node.children, t.HasExpr c
  referent : ∀ m, node.referent? = some m → t.HasEntity m
  own : ∀ f, node.ownFrame? = some f → t.Unowned f
  typed : node.Typed t

theorem pushExpr_evolves (t : Tree) (e : Expr) : t.Evolves (t.pushExpr e).2 :=
  ⟨t.pushExpr_extends e, fun _ _ => rfl⟩

theorem IsRecordFrame.of_pushExpr {e : Expr} {f : FrameId}
    (h : (t.pushExpr e).2.IsRecordFrame f) : t.IsRecordFrame f ∨ e.node.ownFrame? = some f := by
  obtain ⟨id, form, body, span, he⟩ := h
  rw [expr?_pushExpr] at he
  split at he
  · cases he
    exact .inr rfl
  · exact .inl ⟨id, form, body, span, he⟩

theorem Sound.pushExpr (h : t.Sound) {e : Expr} (hfits : t.Fits e.node) :
    (t.pushExpr e).2.Sound := by
  have hevolves := t.pushExpr_evolves e
  refine h.evolve hevolves ⟨h.framed.nonempty, h.framed.stack, h.framed.parent⟩ .inl ?_ ?_ ?_ ?_
  · exact fun hf m hm => .inl ⟨_, hf, hm⟩
  · rintro ⟨i⟩ x hx
    rw [expr?_pushExpr] at hx
    split at hx
    · rename_i hi
      cases hx
      cases hi
      refine .inr ⟨hfits.children, hfits.referent, fun f hf => (hfits.own f hf).hasFrame, ?_⟩
      exact hfits.typed.mono hevolves h.builtins h.hasRecords
    · exact .inl hx
  · intro f hf
    rcases hf.of_pushExpr with hold | hnew
    · exact h.closed hold
    · exact (hfits.own f hnew).closed
  · intro f hf id x hx hsignature
    rw [expr?_pushExpr] at hx
    have hown := Node.ownFrame?_of_signatureFrame? hsignature
    split at hx
    · cases hx
      rcases hf with ⟨_, _, _, _, hrecord⟩
      rw [expr?_pushExpr] at hrecord
      split at hrecord
      · cases hrecord
        cases hsignature
      · exact (hfits.own f hown).own hrecord rfl
    · rcases hf.of_pushExpr with hold | hnew
      · exact h.apart hold hx hsignature
      · exact (hfits.own f hnew).own hx hown

/-! ## New entities and names -/

theorem pushEntity_evolves (t : Tree) (e : Entity) : t.Evolves (t.pushEntity e).2 :=
  ⟨t.pushEntity_extends e, fun _ _ => rfl⟩

/-- A new entity of a sound kind; everything else is as before. -/
theorem Sound.pushEntity (h : t.Sound) {e : Entity} (hkind : t.KindSound ⟨t.entities.size⟩ e.kind) :
    (t.pushEntity e).2.Sound := by
  have hevolves := t.pushEntity_evolves e
  refine h.evolve hevolves ⟨h.framed.nonempty, h.framed.stack, h.framed.parent⟩ ?_ ?_ .inl
    h.closed h.apart
  · rintro ⟨i⟩ x hx
    rw [entity?_pushEntity] at hx
    split at hx
    · rename_i hi
      cases hx
      cases hi
      exact .inr (hkind.mono hevolves)
    · exact .inl hx
  · exact fun hf m hm => .inl ⟨_, hf, hm⟩

/-- A change of a frame that is not the one of a record. -/
theorem modifyFrame_evolves {id : FrameId} {g : Frame → Frame}
    (hparent : ∀ x, (g x).parent = x.parent) (hdepth : ∀ x, (g x).depth = x.depth)
    (hid : ¬t.IsRecordFrame id) : t.Evolves (t.modifyFrame id g) := by
  refine ⟨t.modifyFrame_extends id hparent hdepth, ?_⟩
  intro f hf
  have hne : id ≠ f := fun h => hid (h ▸ hf)
  rw [frame?_modifyFrame, if_neg hne]

/-- A change of a frame that is none of a record, by which it gets entities of the tree at most. -/
theorem Sound.modifyFrame (h : t.Sound) {id : FrameId} {g : Frame → Frame}
    (hparent : ∀ x, (g x).parent = x.parent) (hdepth : ∀ x, (g x).depth = x.depth)
    (hid : ¬t.IsRecordFrame id)
    (hentities : ∀ x, ∀ m ∈ (g x).entities, m ∈ x.entities ∨ t.HasEntity m) :
    (t.modifyFrame id g).Sound := by
  refine h.evolve (modifyFrame_evolves hparent hdepth hid) (h.framed.modifyFrame id hparent) .inl
    ?_ .inl h.closed h.apart
  intro other f hf m hm
  rw [frame?_modifyFrame] at hf
  split at hf
  · obtain ⟨x, hx, rfl⟩ := Option.map_eq_some_iff.1 hf
    exact (hentities x m hm).imp (fun hold => ⟨x, hx, hold⟩) fun h => h
  · exact .inl ⟨f, hf, hm⟩

theorem Sound.bind_evolves (h : t.Sound) {name : String} {entity : EntityId} :
    t.Evolves (t.bind name entity) :=
  modifyFrame_evolves (fun _ => rfl) (fun _ => rfl) h.current

/-- A name for an entity of the tree, in the innermost frame. -/
theorem Sound.bind (h : t.Sound) {name : String} {entity : EntityId}
    (hentity : t.HasEntity entity) : (t.bind name entity).Sound := by
  refine h.modifyFrame (fun _ => rfl) (fun _ => rfl) h.current ?_
  intro x m hm
  rcases Assoc.mem_values_replace (Frame.mem_entities.1 hm) with hold | rfl
  · exact .inl (Frame.mem_entities.2 hold)
  · exact .inr hentity

theorem Sound.bindBody (h : t.Sound) {function : EntityId} {body : ExprId}
    (hbind : t.bindBody t.currentFrame function body = .ok t') : t'.Sound := by
  obtain rfl := bindBody_ok hbind
  exact h.modifyFrame (fun _ => rfl) (fun _ => rfl) h.current fun _ _ => .inl

/-! ## Open frames -/

theorem withChild_evolves (h : t.Sound) : t.Evolves t.withChild := by
  refine ⟨t.withChild_extends, ?_⟩
  intro f hf
  rw [frame?_withChild, if_neg (Nat.ne_of_lt (h.recordFrame hf))]

theorem Sound.withChild (h : t.Sound) : t.withChild.Sound := by
  refine h.evolve (withChild_evolves h) h.framed.withChild .inl ?_ .inl h.closed h.apart
  intro id f hf m hm
  rw [frame?_withChild] at hf
  split at hf
  · cases hf
    cases Frame.mem_entities.1 hm
  · exact .inl ⟨f, hf, hm⟩

theorem onTop_evolves {frame : FrameId} (hsize : t.stack.items.size < depthLimit + 1) :
    t.Evolves (t.onTop frame hsize) := ⟨⟨id, id, fun {_ f} hf => ⟨f, hf, rfl, rfl⟩⟩, fun _ _ => rfl⟩

/-- A frame that is opened is there and is none of a record. -/
theorem Sound.onTop (h : t.Sound) {frame : FrameId} (hframe : t.HasFrame frame)
    (hrecord : ¬t.IsRecordFrame frame) (hsize : t.stack.items.size < depthLimit + 1) :
    (t.onTop frame hsize).Sound := by
  refine h.evolve (onTop_evolves hsize) (h.framed.onTop hframe hsize) .inl ?_ .inl ?_ h.apart
  · exact fun hf m hm => .inl ⟨_, hf, hm⟩
  · intro f hf hmem
    rcases Array.mem_push.1 hmem with hmem | rfl
    · exact h.closed hf hmem
    · exact hrecord hf

theorem offTop_evolves : t.Evolves t.offTop :=
  ⟨⟨id, id, fun {_ f} hf => ⟨f, hf, rfl, rfl⟩⟩, fun _ _ => rfl⟩

theorem Sound.offTop (h : t.Sound) (hsize : 1 < t.stack.size) : t.offTop.Sound := by
  refine h.evolve offTop_evolves (h.framed.offTop hsize) .inl ?_ .inl ?_ h.apart
  · exact fun hf m hm => .inl ⟨_, hf, hm⟩
  · intro f hf hmem
    have hpop : t.offTop.stack.items = t.stack.items.pop := rfl
    rw [Array.mem_def, hpop, Array.toList_pop] at hmem
    exact h.closed hf (Array.mem_def.2 (List.dropLast_subset _ hmem))

theorem Sound.setMainScope (h : t.Sound) (scope : Option ExprId) :
    Tree.Sound { t with mainScope := scope } := by
  have hevolves : t.Evolves { t with mainScope := scope } :=
    ⟨⟨id, id, fun {_ f} hf => ⟨f, hf, rfl, rfl⟩⟩, fun _ _ => rfl⟩
  refine h.evolve hevolves ⟨h.framed.nonempty, h.framed.stack, h.framed.parent⟩ .inl ?_ .inl
    h.closed h.apart
  exact fun hf m hm => .inl ⟨_, hf, hm⟩

/-- Only the built-in types are there at first. -/
theorem sound_withBuiltins : withBuiltins.Sound := by
  have hentities : ∀ {id e}, withBuiltins.entity? id = some e → ∃ b : Builtin, e = b.entity := by
    intro id e he
    have hall : withBuiltins.entities = (Builtin.all.map Builtin.entity).toArray := by
      decide +kernel
    have hmem : e ∈ withBuiltins.entities := Array.mem_of_getElem? he
    rw [hall, List.mem_toArray] at hmem
    obtain ⟨b, _, rfl⟩ := List.mem_map.1 hmem
    exact ⟨b, rfl⟩
  have hnames : ∀ f ∈ withBuiltins.frames, ∀ m ∈ f.entities, withBuiltins.HasEntity m := by
    unfold HasEntity
    decide +kernel
  have hrecord : ∀ f, ¬withBuiltins.IsRecordFrame f := by
    rintro f ⟨_, _, _, _, he⟩
    cases he
  refine ⟨Grammar.framed_withBuiltins, Builtin.entity?_withBuiltins, ?_, ?_, nofun, ?_, ?_⟩
  · intro id e he
    obtain ⟨b, rfl⟩ := hentities he
    cases b <;> trivial
  · exact fun hf => hnames _ (Array.mem_of_getElem? hf)
  · exact fun hf => absurd hf (hrecord _)
  · exact fun hf => absurd hf (hrecord _)

/-! ## Look-up -/

/-- What a name stands for is there. -/
theorem Sound.find? (h : t.Sound) {name : String} {m : EntityId} (hfind : t.find? name = some m) :
    t.HasEntity m := by
  obtain ⟨frame, _, hframe⟩ := List.exists_of_findSome?_eq_some hfind
  obtain ⟨f, hf, hm⟩ := Option.bind_eq_some_iff.1 hframe
  exact h.names hf m (Frame.mem_entities.2 (Assoc.mem_values_of_lookup hm))

end Tree

end OnePass

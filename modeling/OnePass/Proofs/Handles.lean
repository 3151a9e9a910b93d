import OnePass.Proofs.Building

/-!
# Handles

The tree of a source that is accepted has no handle that points nowhere: every expression,
entity and frame that an expression, an entity or a frame keeps is there (`Tree.InRange`). Its
expressions are one tree below the main scope, in which each is the child of just one, but for
the names of the structures in literals (`Tree.OneTree`). Both are `accepted_one_tree`.
-/

namespace OnePass

/-! ## What is kept -/

/-- The entities that a node keeps, as what it defines or uses or as a type. -/
def Node.entities : Node → List EntityId
  | .unary _ _ type _ | .binary _ type _ _ | .signature _ type _ | .structLiteral type _ => [type]
  | .name _ entity => entity.toList
  | .result _ entity | .definition _ _ _ entity _ | .function _ entity _ _ | .call _ entity _
  | .typedef _ _ _ entity | .member _ _ entity => [entity]
  | _ => []

/-- The frames that a node keeps. -/
def Node.frames : Node → List FrameId
  | .scope _ frame | .signature _ _ frame | .branch _ _ _ frame | .loop _ _ _ _ frame
  | .whileLoop _ _ frame | .record _ _ frame => [frame]
  | _ => []

/-- The entities that an entity keeps. -/
def EntityKind.entities : EntityKind → List EntityId
  | .var type _ _ => [type]
  | .function params result => params ++ [result]
  | _ => []

/-- The frames that an entity keeps. -/
def EntityKind.frames : EntityKind → List FrameId
  | .struct frame | .enum frame => [frame]
  | _ => []

theorem Node.own_or_inner_of_mem {node : Node} {frame : FrameId} (h : frame ∈ node.frames) :
    node.ownFrame? = some frame ∨ node.innerFrame? = some frame := by
  cases node with
  | signature | record => exact .inl (congrArg some (List.mem_singleton.1 h).symm)
  | scope | branch | loop | whileLoop => exact .inr (congrArg some (List.mem_singleton.1 h).symm)
  | _ => cases h

namespace Tree

variable {t t' : Tree}

/-- What the expressions, entities and frames of the tree keep is in the tree. -/
structure InRange (t : Tree) : Prop where
  exprs : ∀ {id e}, t.expr? id = some e → (∀ c ∈ e.node.children, t.HasExpr c) ∧
    (∀ m ∈ e.node.entities, t.HasEntity m) ∧ ∀ f ∈ e.node.frames, t.HasFrame f
  entities : ∀ {id e}, t.entity? id = some e →
    (∀ m ∈ e.kind.entities, t.HasEntity m) ∧ ∀ f ∈ e.kind.frames, t.HasFrame f
  frames : ∀ {id f}, t.frame? id = some f → (∀ p, f.parent = some p → t.HasFrame p) ∧
    (∀ m ∈ f.names.values, t.HasEntity m) ∧ (∀ m ∈ f.slots.keys, t.HasEntity m) ∧
    (∀ m ∈ f.bodies.keys, t.HasEntity m) ∧ ∀ b ∈ f.bodies.values, t.HasExpr b

/-- The expressions of the tree are one tree. Children are older than what is made of them. The
main scope is the last expression and nobody's child. Of the others each is the child of just
one, but for the names before the values of literals, one for each literal, which are nobody's. -/
structure OneTree (t : Tree) : Prop where
  older : ∀ {id e}, t.expr? id = some e → ∀ c ∈ e.node.children, c.index < id.index
  root : ∃ main, t.mainScope = some main ∧ main.index + 1 = t.exprs.size ∧ t.uses main = 0 ∧
    ∀ id, t.HasExpr id → id ≠ main →
      t.uses id = 1 ∧ ¬t.NamesLiteral id ∨ t.uses id = 0 ∧ t.NamesLiteral id
  named : ∀ {literal type args span},
    t.expr? literal = some ⟨.structLiteral type args, span⟩ → ∃ id, t.Names id literal

/-- No frame has a storage slot for anything. -/
def Slotless (t : Tree) : Prop := ∀ id f, t.frame? id = some f → f.slots = .empty

/-- What a node of a sound tree keeps as a type is there, and so is what it refers to. -/
theorem Sound.mem_entities (h : t.Sound) {id : ExprId} {e : Expr} (he : t.expr? id = some e) :
    ∀ m ∈ e.node.entities, t.HasEntity m := by
  have hnode := h.node he
  have hhere := hasExpr_iff.2 ⟨e, he⟩
  have hchild (c : ExprId) (hc : c ∈ e.node.children) : t.HasExpr c :=
    Nat.lt_trans (hnode.children c hc) hhere
  have htype (c : ExprId) (type : EntityId) (hc : c ∈ e.node.children)
      (hfound : t.exprType? c = some type) : t.IsType type := by
    obtain ⟨found, hfound', histype⟩ := h.exprType? (hchild c hc)
    obtain rfl := Option.some.inj (hfound.symm.trans hfound')
    exact histype
  intro m hm
  obtain ⟨node, span⟩ := e
  cases node with
  | unary =>
    obtain rfl := List.mem_singleton.1 hm
    exact (htype _ _ List.mem_cons_self hnode.typed.1).hasEntity
  | binary =>
    obtain rfl := List.mem_singleton.1 hm
    exact (isType_of_typed_binary h.builtins hnode.typed
      (htype _ _ List.mem_cons_self)).hasEntity
  | signature | structLiteral =>
    obtain rfl := List.mem_singleton.1 hm
    exact IsType.hasEntity hnode.typed
  | name => exact hnode.referent m (Option.mem_toList.1 hm)
  | result | definition | function | call | typedef | member =>
    obtain rfl := List.mem_singleton.1 hm
    exact hnode.referent _ rfl
  | _ => cases hm

/-- The entities of a sound tree keep what is there. -/
theorem Sound.entities (h : t.Sound) {id : EntityId} {e : Entity} (he : t.entity? id = some e) :
    (∀ m ∈ e.kind.entities, t.HasEntity m) ∧ ∀ f ∈ e.kind.frames, t.HasFrame f := by
  have hkind := h.kind he
  have hhere := hasEntity_iff.2 ⟨e, he⟩
  obtain ⟨name, kind⟩ := e
  cases kind with
  | var type =>
    refine ⟨?_, nofun⟩
    intro m hm
    obtain rfl := List.mem_singleton.1 hm
    exact Nat.lt_trans hkind.1 hhere
  | function params result =>
    refine ⟨?_, nofun⟩
    intro m hm
    rcases List.mem_append.1 hm with hm | hm
    · exact Nat.lt_trans (hkind.1 m hm) hhere
    · obtain rfl := List.mem_singleton.1 hm
      exact Nat.lt_trans hkind.2.1 hhere
  | struct frame | enum frame =>
    refine ⟨nofun, ?_⟩
    intro f hf
    obtain rfl := List.mem_singleton.1 hf
    exact h.recordFrame hkind.1
  | _ => exact ⟨nofun, nofun⟩

end Tree

namespace Grammar

variable {s s' : State} {log : List Binding}

/-! ## Storage slots -/

theorem slotless_modifyFrame {t : Tree} (h : t.Slotless) {id : FrameId} {g : Frame → Frame}
    (hslots : ∀ x, (g x).slots = x.slots) : (t.modifyFrame id g).Slotless := by
  intro other f hf
  rw [Tree.frame?_modifyFrame] at hf
  split at hf
  · obtain ⟨x, hx, rfl⟩ := Option.map_eq_some_iff.1 hf
    exact (hslots x).trans (h other x hx)
  · exact h other f hf

/-- Reading gives no storage slots out. -/
theorem Step.slotless (h : Step s log s') (hs : s.tree.Slotless) : s'.tree.Slotless := by
  cases h with
  | next | past | inside | outside | add | addEntity => exact hs
  | bind => exact slotless_modifyFrame hs fun _ => rfl
  | bindBody hbind =>
    obtain rfl := Tree.bindBody_ok hbind
    exact slotless_modifyFrame hs fun _ => rfl
  | opens hopen =>
    obtain ⟨rfl, hsize, rfl⟩ := hopen.eq
    intro id f hf
    have hf' : s.tree.withChild.frame? id = some f := hf
    rw [Tree.frame?_withChild] at hf'
    split at hf'
    · cases hf'
      rfl
    · exact hs id f hf'
  | enters henter =>
    obtain ⟨_, hsize, rfl⟩ := henter.eq
    exact hs
  | closes hclose =>
    obtain ⟨_, rfl⟩ := hclose.eq
    exact hs

theorem Trail.slotless (h : Trail s log s') (hs : s.tree.Slotless) : s'.tree.Slotless := by
  induction h with
  | refl => exact hs
  | cons hstep _ ih => exact ih (hstep.slotless hs)

/-! ## Sources -/

theorem frames_withBuiltins :
    ∀ f ∈ Tree.withBuiltins.frames, f.slots = .empty ∧ f.bodies = .empty := by
  decide +kernel

theorem slotless_of_parse {tokens : TokenList} {tree : Tree} (h : parse tokens = .ok tree) :
    tree.Slotless := by
  obtain ⟨body, log, s, hread, rfl⟩ := parse_reads h
  exact hread.trail.slotless fun id f hf => (frames_withBuiltins f (Array.mem_of_getElem? hf)).1

/-- The functions that have a body are there, and so are the bodies. -/
theorem bodies_of_parse {tokens : TokenList} {tree : Tree} (h : parse tokens = .ok tree)
    {id : FrameId} {f : Frame} (hf : tree.frame? id = some f) :
    ∀ b ∈ f.bodies.entries, tree.HasEntity b.1 ∧ tree.HasExpr b.2 := by
  obtain ⟨s, main, hgrows, _, rfl⟩ := parse_grows h
  intro b hb
  rcases hgrows.bodies hf b hb with ⟨f', hf', hb'⟩ | ⟨hentity, hexpr⟩
  · rw [(frames_withBuiltins f' (Array.mem_of_getElem? hf')).2] at hb'
    cases hb'
  · exact ⟨hentity, (s.tree.pushExpr_extends main).hasExpr hexpr⟩

/-- What the tree of a source that is accepted keeps is in the tree. -/
theorem inRange_of_parse {tokens : TokenList} {tree : Tree} (h : parse tokens = .ok tree) :
    tree.InRange := by
  have hs := sound_of_parse h
  refine ⟨?_, hs.entities, ?_⟩
  · intro id e he
    have hnode := hs.node he
    refine ⟨?_, hs.mem_entities he, ?_⟩
    · exact fun c hc => Nat.lt_trans (hnode.children c hc) (Tree.hasExpr_iff.2 ⟨e, he⟩)
    · intro f hf
      rcases Node.own_or_inner_of_mem hf with hown | hinner
      · exact hnode.own f hown
      · rcases origin_of_parse h he with horigin | ⟨_, body, hmain⟩
        · exact horigin.hasFrame hinner
        · rw [hmain] at hinner
          cases hinner
          exact Nat.lt_of_le_of_lt (Nat.zero_le _) hs.framed.current
  · intro id f hf
    have hbodies := bodies_of_parse h hf
    refine ⟨?_, ?_, ?_, ?_, ?_⟩
    · exact fun p hp => Nat.lt_trans (hs.framed.parent hf hp) (Tree.hasFrame_iff.2 ⟨f, hf⟩)
    · exact fun m hm => hs.names hf m (Frame.mem_entities.2 hm)
    · rw [slotless_of_parse h id f hf]
      exact nofun
    · intro m hm
      obtain ⟨b, hb, rfl⟩ := List.mem_map.1 hm
      exact (hbodies b hb).1
    · intro body hbody
      obtain ⟨b, hb, rfl⟩ := List.mem_map.1 hbody
      exact (hbodies b hb).2

theorem oneTree_of_parse {tokens : TokenList} {tree : Tree} (h : parse tokens = .ok tree) :
    tree.OneTree := by
  obtain ⟨main, hmain, hlast, hforest⟩ := forest_of_parse h
  have hroot : tree.HasExpr main := Nat.lt_of_succ_le (Nat.le_of_eq hlast)
  refine ⟨fun he => ((sound_of_parse h).node he).children, ?_, ?_⟩
  · exact ⟨main, hmain, hlast, hforest.uses_root hroot, fun id hid hne => hforest.uses_eq hid hne⟩
  · intro literal type args span hliteral
    obtain ⟨id, hnames, _⟩ :=
      hforest.exists_names hliteral (Nat.zero_le _) (Tree.hasExpr_iff.2 ⟨_, hliteral⟩)
    exact ⟨id, hnames⟩

/-- The tree of a source that is accepted has no handle that points nowhere, and its expressions
are one tree. -/
theorem accepted_one_tree {source : String} {tree : Tree} (h : parseSource source = .ok tree) :
    tree.InRange ∧ tree.OneTree := by
  obtain ⟨tokens, _, hparse⟩ := parseSource_ok h
  exact ⟨inRange_of_parse hparse, oneTree_of_parse hparse⟩

/-- A structure, a function with a literal of the structure, and a call. -/
def literalSource : String :=
  "P :: struct \x7b a : s32 \x7d\nf :: (n : s32) \x7b p := P\x7bn\x7d \x7d\nf(1)\n"

theorem accepted_one_tree_literal :
    ∃ tree, parseSource literalSource = .ok tree ∧ tree.InRange ∧ tree.OneTree := by
  have haccepted : (parseSource literalSource).isOk = true := by decide +kernel
  cases hparse : parseSource literalSource with
  | error fault =>
    rw [hparse] at haccepted
    cases haccepted
  | ok tree => exact ⟨tree, rfl, accepted_one_tree hparse⟩

end Grammar

end OnePass

import OnePass.Proofs.Upkeep

/-!
# References between entities

An entity refers to others (`Tree.Refers`): a variable to its type, a function to its parameters
and its result, a record to everything that a name of its frame stands for. A cast follows only
some of these references, since of a record it compares the variables among the members
(`Tree.MadeOf`). A tree is founded if all references lead somewhere and those that a cast
follows never lead in a circle.

A sound tree is founded, because each of its entities refers to older ones: a name is bound
after what it stands for is made, and the frame of a record is never opened again.
-/

namespace OnePass.Tree

variable {t : Tree} {a b result : EntityId} {name : String} {params : List EntityId}

/-! ## Variables of a frame -/

theorem variablesAmong?_spec {ids vars : List EntityId} (h : t.variablesAmong? ids = some vars) :
    vars.Sublist ids ∧
      ∀ m, m ∈ vars ↔ m ∈ ids ∧ ∃ e, t.entity? m = some e ∧ e.isVar = true := by
  induction ids generalizing vars with
  | nil =>
    cases h
    exact ⟨.slnil, fun m => ⟨nofun, fun hm => nomatch hm.1⟩⟩
  | cons id rest ih =>
    unfold variablesAmong? at h
    obtain ⟨e, he, h⟩ := Option.bind_eq_some_iff.1 h
    obtain ⟨others, hothers, h⟩ := Option.bind_eq_some_iff.1 h
    obtain ⟨hsublist, hmem⟩ := ih hothers
    cases h
    split
    · rename_i hvar
      refine ⟨hsublist.cons_cons id, ?_⟩
      intro m
      rw [List.mem_cons, List.mem_cons, hmem]
      constructor
      · rintro (rfl | ⟨hm, hvar'⟩)
        · exact ⟨.inl rfl, e, he, hvar⟩
        · exact ⟨.inr hm, hvar'⟩
      · rintro ⟨rfl | hm, hvar'⟩
        · exact .inl rfl
        · exact .inr ⟨hm, hvar'⟩
    · rename_i hvar
      refine ⟨hsublist.cons id, ?_⟩
      intro m
      rw [List.mem_cons, hmem]
      constructor
      · rintro ⟨hm, hvar'⟩
        exact ⟨.inr hm, hvar'⟩
      · rintro ⟨rfl | hm, e', he', hvar'⟩
        · cases he.symm.trans he'
          exact absurd hvar' hvar
        · exact ⟨hm, e', he', hvar'⟩

theorem variablesAmong?_some {ids : List EntityId} (hids : ∀ m ∈ ids, t.HasEntity m) :
    ∃ vars, t.variablesAmong? ids = some vars := by
  induction ids with
  | nil => exact ⟨[], rfl⟩
  | cons id rest ih =>
    obtain ⟨e, he⟩ := hasEntity_iff.1 (hids id List.mem_cons_self)
    obtain ⟨vars, hvars⟩ := ih fun m hm => hids m (List.mem_cons_of_mem _ hm)
    unfold Tree.variablesAmong?
    rw [he, hvars]
    exact ⟨_, rfl⟩

/-! ## What an entity refers to -/

/-- The entity `a` refers to the entity `b`. -/
inductive Refers (t : Tree) (a b : EntityId) : Prop where
  | type (name : String) (start stop : Nat) (h : t.entity? a = some ⟨name, .var b start stop⟩)
  | param (name : String) (params : List EntityId) (result : EntityId)
    (h : t.entity? a = some ⟨name, .function params result⟩) (hb : b ∈ params)
  | result (name : String) (params : List EntityId)
    (h : t.entity? a = some ⟨name, .function params b⟩)
  | member (e : Entity) (frame : FrameId) (f : Frame) (h : t.entity? a = some e)
    (hframe : e.recordFrame? = some frame) (hf : t.frame? frame = some f) (hb : b ∈ f.entities)

theorem Refers.hasEntity (h : t.Refers a b) : t.HasEntity a := by
  cases h with
  | type _ _ _ h | param _ _ _ h | result _ _ h | member _ _ _ h => exact hasEntity_iff.2 ⟨_, h⟩

/-- A cast of `a` may go on to `b`: of the members of a record only the variables count. -/
def MadeOf (t : Tree) (a b : EntityId) : Prop :=
  t.Refers a b ∧ ∀ e frame, t.entity? a = some e → e.recordFrame? = some frame →
    ∃ f, t.entity? b = some f ∧ f.isVar = true

/-- Whatever is referred to is there, as is the frame of a record, variables have types, and
nothing is made of itself, however indirectly. -/
structure Founded (t : Tree) : Prop where
  refers : ∀ {a b}, t.Refers a b → t.HasEntity b
  frame : ∀ {a e frame}, t.entity? a = some e → e.recordFrame? = some frame → t.HasFrame frame
  type : ∀ {a name type start stop}, t.entity? a = some ⟨name, .var type start stop⟩ →
    t.IsType type
  wellFounded : WellFounded fun b a => t.MadeOf a b

namespace Founded

/-- An entity denotes itself, or a type that it is made of. -/
theorem entityType? (h : t.Founded) (ha : t.HasEntity a) :
    ∃ type, t.entityType? a = some type ∧ t.HasEntity type ∧ (type = a ∨ t.MadeOf a type) := by
  obtain ⟨⟨name, kind⟩, he⟩ := hasEntity_iff.1 ha
  unfold Tree.entityType?
  rw [he]
  cases kind with
  | var type start stop =>
    have hrefers : t.Refers a type := .type name start stop he
    refine ⟨type, rfl, h.refers hrefers, .inr ⟨hrefers, ?_⟩⟩
    intro e frame he' hframe
    cases he.symm.trans he'
    cases hframe
  | _ => exact ⟨a, rfl, ha, .inl rfl⟩

/-- A record has variables, and is made of them. -/
theorem variables? (h : t.Founded) {e : Entity} (he : t.entity? a = some e) {frame : FrameId}
    (hframe : e.recordFrame? = some frame) :
    ∃ vars, t.variables? frame = some vars ∧ ∀ v ∈ vars, t.MadeOf a v := by
  obtain ⟨f, hf⟩ := hasFrame_iff.1 (h.frame he hframe)
  have hmember : ∀ m ∈ f.entities, t.Refers a m := fun m hm => .member e frame f he hframe hf hm
  obtain ⟨vars, hvars⟩ := variablesAmong?_some fun m hm => h.refers (hmember m hm)
  unfold Tree.variables?
  rw [hf]
  refine ⟨vars, hvars, ?_⟩
  intro v hv
  obtain ⟨hbound, hvar⟩ := ((variablesAmong?_spec hvars).2 v).1 hv
  exact ⟨hmember v hbound, fun _ _ _ _ => hvar⟩

/-- A function is made of its parameters and its result. -/
theorem function (he : t.entity? a = some ⟨name, .function params result⟩) :
    (∀ p ∈ params, t.MadeOf a p) ∧ t.MadeOf a result := by
  have hfunction : ∀ e frame, t.entity? a = some e → e.recordFrame? ≠ some frame := by
    intro e frame he' hframe
    cases he.symm.trans he'
    cases hframe
  refine ⟨fun p hp => ⟨.param name params result he hp, ?_⟩, .result name params he, ?_⟩
  · exact fun e frame he' hframe => absurd hframe (hfunction e frame he')
  · exact fun e frame he' hframe => absurd hframe (hfunction e frame he')

end Founded

/-! ## References of a sound tree -/

namespace Sound

/-- What an entity refers to is older. -/
theorem refers (hs : t.Sound) (h : t.Refers a b) : b.index < a.index := by
  cases h with
  | type _ _ _ h => exact (hs.kind h).1
  | param _ _ _ h hb => exact (hs.kind h).1 b hb
  | result _ _ h => exact (hs.kind h).2.1
  | member e frame f h hframe hf hb =>
    obtain ⟨name, kind⟩ := e
    have hkind := hs.kind h
    cases kind with
    | struct | enum =>
      cases hframe
      exact hkind.2 f hf b hb
    | _ => cases hframe

theorem refers_hasEntity (hs : t.Sound) (h : t.Refers a b) : t.HasEntity b :=
  Nat.lt_trans (hs.refers h) h.hasEntity

theorem founded (hs : t.Sound) : t.Founded where
  refers := hs.refers_hasEntity
  frame h hframe := hs.recordFrame (hs.hasRecords _ _ _ h hframe)
  type h := (hs.kind h).2
  wellFounded := Subrelation.wf (fun h => hs.refers h.1) (measure EntityId.index).wf

end Sound

end OnePass.Tree

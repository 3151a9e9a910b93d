import OnePass.Proofs.Bracketing

/-!
# Types over time

A type is asked for while the tree still grows. `Evolves t t'` says what growth leaves in
place: everything of `t` is in `t'`, and the frames of its records are as they were. Then
every answer about types that `t` gives is the answer of `t'` too: the type of an entity or an
expression, the conversion of one type into another, and the type composed of two others.
Answers are compared at different numbers of steps, so each lemma lets the steps grow with
the tree.
-/

namespace OnePass.Tree

variable {t t' t'' : Tree} {n m : Nat}

/-! ## Growth that leaves records alone -/

/-- The frame is that of a record. -/
def IsRecordFrame (t : Tree) (f : FrameId) : Prop :=
  ∃ id form body span, t.expr? id = some ⟨.record form body f, span⟩

/-- The built-in types are where they belong. -/
def HasBuiltins (t : Tree) : Prop := ∀ b : Builtin, t.entity? b.handle = some b.entity

/-- The frame of an entity that is a record is that of a record expression. -/
def HasRecords (t : Tree) : Prop :=
  ∀ id e f, t.entity? id = some e → e.recordFrame? = some f → t.IsRecordFrame f

/-- `t'` has everything that `t` has, and the frames of records are the same. -/
structure Evolves (t t' : Tree) : Prop extends t.Extends t' where
  record : ∀ f, t.IsRecordFrame f → t'.frame? f = t.frame? f

theorem Extends.isRecordFrame (h : t.Extends t') {f : FrameId} (hf : t.IsRecordFrame f) :
    t'.IsRecordFrame f := by
  obtain ⟨id, form, body, span, he⟩ := hf
  exact ⟨id, form, body, span, h.expr he⟩

theorem Extends.hasBuiltins (h : t.Extends t') (hb : t.HasBuiltins) : t'.HasBuiltins :=
  fun b => h.entity (hb b)

namespace Evolves

theorem refl : t.Evolves t := ⟨.refl, fun _ _ => rfl⟩

theorem trans (h : t.Evolves t') (h' : t'.Evolves t'') : t.Evolves t'' := by
  refine ⟨h.toExtends.trans h'.toExtends, ?_⟩
  intro f hf
  exact (h'.record f (h.toExtends.isRecordFrame hf)).trans (h.record f hf)

end Evolves

/-! ## Types of entities -/

theorem entityType?_mono (h : t.Extends t') {id type : EntityId}
    (htype : t.entityType? id = some type) : t'.entityType? id = some type := by
  unfold entityType? at htype ⊢
  obtain ⟨e, he, htype⟩ := Option.bind_eq_some_iff.1 htype
  exact Option.bind_eq_some_iff.2 ⟨e, h.entity he, htype⟩

/-- By induction on the entities, each of which stays what it is. -/
theorem variablesAmong?_mono (h : t.Extends t') {ids vars : List EntityId}
    (hvars : t.variablesAmong? ids = some vars) : t'.variablesAmong? ids = some vars := by
  induction ids generalizing vars with
  | nil => exact hvars
  | cons id rest ih =>
    unfold variablesAmong? at hvars ⊢
    obtain ⟨e, he, hvars⟩ := Option.bind_eq_some_iff.1 hvars
    obtain ⟨others, hothers, hvars⟩ := Option.bind_eq_some_iff.1 hvars
    exact Option.bind_eq_some_iff.2 ⟨e, h.entity he,
      Option.bind_eq_some_iff.2 ⟨others, ih hothers, hvars⟩⟩

theorem variables?_mono (h : t.Extends t') {f : FrameId} (hf : t'.frame? f = t.frame? f)
    {vars : List EntityId} (hvars : t.variables? f = some vars) :
    t'.variables? f = some vars := by
  unfold variables? at hvars ⊢
  obtain ⟨frame, hframe, hvars⟩ := Option.bind_eq_some_iff.1 hvars
  exact Option.bind_eq_some_iff.2 ⟨frame, hf.trans hframe, variablesAmong?_mono h hvars⟩

/-! ## Casts -/

variable {cast cast' : EntityId → EntityId → Option Cast}

theorem allSame?_mono (h : ∀ a b c, cast a b = some c → cast' a b = some c)
    {pairs : List (EntityId × EntityId)} {same : Bool} (hsame : allSame? cast pairs = some same) :
    allSame? cast' pairs = some same := by
  induction pairs with
  | nil => exact hsame
  | cons pair rest ih =>
    obtain ⟨a, b⟩ := pair
    unfold allSame? at hsame ⊢
    obtain ⟨c, hc, hsame⟩ := Option.bind_eq_some_iff.1 hsame
    refine Option.bind_eq_some_iff.2 ⟨c, h a b c hc, ?_⟩
    split at hsame
    · rw [if_pos ‹_›]
      exact ih hsame
    · rw [if_neg ‹_›]
      exact hsame

theorem listsSame?_mono (h : ∀ a b c, cast a b = some c → cast' a b = some c)
    {as bs : List EntityId} {same : Bool} (hsame : listsSame? cast as bs = some same) :
    listsSame? cast' as bs = some same := by
  unfold listsSame? at hsame ⊢
  split at hsame
  · rw [if_pos ‹_›]
    exact allSame?_mono h hsame
  · rw [if_neg ‹_›]
    exact hsame

/-- How two different types convert, by `cast` between their parts. -/
def castParts? (t : Tree) (cast : EntityId → EntityId → Option Cast) :
    EntityKind → EntityKind → Option Cast
  | .void, .void => some .same
  | .atom a, .atom b => some (.ofAtoms a b)
  | .function params result, .function params' result' =>
    if params.length ≠ params'.length then some .impossible
    else (cast result result').bind fun c =>
      if c ≠ .same then some .impossible
      else (listsSame? cast params params').bind fun same => some (.ofSame same)
  | .struct a, .struct b =>
    (t.variables? a).bind fun as => (t.variables? b).bind fun bs =>
      (listsSame? cast as bs).bind fun same => some (.ofSame same)
  | .enum a, .enum b =>
    (t.variables? a).bind fun as => (t.variables? b).bind fun bs =>
      (listsSame? cast as bs).bind fun same => some (.ofSame same)
  | _, _ => some .impossible

theorem castWithin?_succ (t : Tree) (n : Nat) (source target : EntityId) :
    t.castWithin? (n + 1) source target =
      (t.entityType? source).bind fun source => (t.entityType? target).bind fun target =>
        if source = target then some .same
        else (t.entity? source).bind fun e => (t.entity? target).bind fun f =>
          t.castParts? (t.castWithin? n) e.kind f.kind := by
  rw [castWithin?]
  refine Option.bind_congr fun a _ => Option.bind_congr fun b _ => if_congr Iff.rfl rfl ?_
  refine Option.bind_congr fun e _ => Option.bind_congr fun f _ => ?_
  cases e.kind <;> cases f.kind <;> rfl

/-- Records keep their frames, so that the parts of both types are the same in the larger tree. -/
theorem castParts?_mono (h : t.Evolves t') (hrecords : t.HasRecords)
    (hcast : ∀ a b c, cast a b = some c → cast' a b = some c) {source target : EntityId}
    {e f : Entity} (he : t.entity? source = some e) (hf : t.entity? target = some f) {c : Cast}
    (hparts : t.castParts? cast e.kind f.kind = some c) :
    t'.castParts? cast' e.kind f.kind = some c := by
  have hvariables : ∀ {id : EntityId} {x : Entity} {frame : FrameId} {vars : List EntityId},
      t.entity? id = some x → x.recordFrame? = some frame → t.variables? frame = some vars →
        t'.variables? frame = some vars := fun hx hframe hvars =>
    variables?_mono h.toExtends (h.record _ (hrecords _ _ _ hx hframe)) hvars
  have hrecord : ∀ {a b : FrameId}, e.recordFrame? = some a → f.recordFrame? = some b →
      ((t.variables? a).bind fun as => (t.variables? b).bind fun bs =>
        (listsSame? cast as bs).bind fun same => some (Cast.ofSame same)) = some c →
      ((t'.variables? a).bind fun as => (t'.variables? b).bind fun bs =>
        (listsSame? cast' as bs).bind fun same => some (Cast.ofSame same)) = some c := by
    intro a b ha hb hparts
    obtain ⟨as, has, hparts⟩ := Option.bind_eq_some_iff.1 hparts
    obtain ⟨bs, hbs, hparts⟩ := Option.bind_eq_some_iff.1 hparts
    obtain ⟨same, hsame, hparts⟩ := Option.bind_eq_some_iff.1 hparts
    refine Option.bind_eq_some_iff.2 ⟨as, hvariables he ha has, ?_⟩
    refine Option.bind_eq_some_iff.2 ⟨bs, hvariables hf hb hbs, ?_⟩
    exact Option.bind_eq_some_iff.2 ⟨same, listsSame?_mono hcast hsame, hparts⟩
  obtain ⟨ename, ekind⟩ := e
  obtain ⟨fname, fkind⟩ := f
  cases ekind <;> cases fkind <;> try exact hparts
  case function.function params result params' result' =>
    simp only [castParts?] at hparts ⊢
    split at hparts
    · rw [if_pos ‹_›]
      exact hparts
    · rw [if_neg ‹_›]
      obtain ⟨d, hd, hparts⟩ := Option.bind_eq_some_iff.1 hparts
      refine Option.bind_eq_some_iff.2 ⟨d, hcast _ _ _ hd, ?_⟩
      split at hparts
      · rw [if_pos ‹_›]
        exact hparts
      · rw [if_neg ‹_›]
        obtain ⟨same, hsame, hparts⟩ := Option.bind_eq_some_iff.1 hparts
        exact Option.bind_eq_some_iff.2 ⟨same, listsSame?_mono hcast hsame, hparts⟩
  case struct.struct => exact hrecord rfl rfl hparts
  case enum.enum => exact hrecord rfl rfl hparts

/-- By induction on the steps: a cast that is known within some is known within more, and in
a larger tree. -/
theorem castWithin?_mono (h : t.Evolves t') (hrecords : t.HasRecords) (hle : n ≤ m)
    {source target : EntityId} {c : Cast} (hcast : t.castWithin? n source target = some c) :
    t'.castWithin? m source target = some c := by
  induction n generalizing m source target c with
  | zero => cases hcast
  | succ n ih =>
    obtain ⟨m, rfl⟩ : ∃ k, m = k + 1 := ⟨m - 1, by omega⟩
    rw [castWithin?_succ] at hcast ⊢
    obtain ⟨a, ha, hcast⟩ := Option.bind_eq_some_iff.1 hcast
    obtain ⟨b, hb, hcast⟩ := Option.bind_eq_some_iff.1 hcast
    rw [entityType?_mono h.toExtends ha, entityType?_mono h.toExtends hb, Option.bind_some,
      Option.bind_some]
    split at hcast
    · rw [if_pos ‹_›]
      exact hcast
    · rw [if_neg ‹_›]
      obtain ⟨e, he, hcast⟩ := Option.bind_eq_some_iff.1 hcast
      obtain ⟨f, hf, hcast⟩ := Option.bind_eq_some_iff.1 hcast
      rw [h.entity he, h.entity hf]
      exact castParts?_mono h hrecords (fun _ _ _ => ih (by omega)) he hf hcast

theorem cast?_mono (h : t.Evolves t') (hrecords : t.HasRecords) {source target : EntityId}
    {c : Cast} (hcast : t.cast? source target = some c) : t'.cast? source target = some c := by
  have hle := h.toExtends.entities_le
  exact castWithin?_mono h hrecords (Nat.succ_le_succ (Nat.mul_le_mul hle hle)) hcast

theorem converts_mono (h : t.Evolves t') (hrecords : t.HasRecords) {source target : EntityId}
    (hconverts : Grammar.Converts t source target) : Grammar.Converts t' source target := by
  obtain ⟨c, hc, himplicit⟩ := hconverts
  exact ⟨c, cast?_mono h hrecords hc, himplicit⟩

/-! ## Types of expressions -/

/-- The search goes through the built-in types, which are the same. -/
theorem compose?_eq (h : t.Extends t') (hb : t.HasBuiltins) (reading : Reading) (size : Nat) :
    t'.compose? reading size = t.compose? reading size := by
  have hatom : t'.isAtom reading.dominant size ∘ Builtin.handle =
      t.isAtom reading.dominant size ∘ Builtin.handle := by
    funext b
    simp only [Function.comp, isAtom, hb b, h.entity (hb b)]
  unfold compose?
  rw [List.find?_map, List.find?_map, hatom]

/-- By induction on the steps, as for casts. -/
theorem exprTypeWithin?_mono (h : t.Extends t') (hb : t.HasBuiltins) (hle : n ≤ m) {id : ExprId}
    {type : EntityId} (htype : t.exprTypeWithin? n id = some type) :
    t'.exprTypeWithin? m id = some type := by
  induction n generalizing m id with
  | zero => cases htype
  | succ n ih =>
    obtain ⟨m, rfl⟩ : ∃ k, m = k + 1 := ⟨m - 1, by omega⟩
    unfold exprTypeWithin? at htype ⊢
    obtain ⟨⟨node, span⟩, he, htype⟩ := Option.bind_eq_some_iff.1 htype
    refine Option.bind_eq_some_iff.2 ⟨_, h.expr he, ?_⟩
    cases node with
    | group inner => exact ih (by omega) htype
    | name _ entity =>
      cases entity with
      | none => exact htype
      | some entity => exact entityType?_mono h htype
    | definition | typedef | member | function => exact entityType?_mono h htype
    | int | float => simpa only [compose?_eq h hb] using htype
    | call _ function _ =>
      obtain ⟨e, he, htype⟩ := Option.bind_eq_some_iff.1 htype
      exact Option.bind_eq_some_iff.2 ⟨e, h.entity he, htype⟩
    | _ => exact htype

theorem exprType?_mono (h : t.Extends t') (hb : t.HasBuiltins) {id : ExprId} {type : EntityId}
    (htype : t.exprType? id = some type) : t'.exprType? id = some type :=
  exprTypeWithin?_mono h hb (Nat.succ_le_succ h.exprs_le) htype

end OnePass.Tree

import Mathlib.Data.Finset.Card
import Mathlib.Data.List.Zip
import Mathlib.Logic.Relation
import OnePass.Proofs.Answers

/-!
# The algebra of casts

Comparing two types the other way around takes the same steps, with larger and smaller swapped
(`castWithin?_flip`). A type that is the same as another converts as the other does
(`castWithin?_same_left`), by following both comparisons into the parts of the three types; the
short cut for equal handles agrees with the comparison that it saves. From these two, being the
same is an equivalence relation, a cast depends only on what its types are the same as, and
converting without being told to is an equivalence relation as well (`CastLaws`).

The laws need casts that answer, which they do on a founded tree. It has finitely many entities,
so what an entity is made of, directly or not, is a rank for the steps of a cast
(`Founded.exists_rank`). The tree of an accepted source is founded; there the age of an entity
is such a rank already (`types_well_founded`).
-/

namespace OnePass

/-! ## Ways of conversion -/

namespace Cast

/-- The way back. -/
def flip : Cast → Cast
  | .same => .same
  | .widened => .narrowed
  | .narrowed => .widened
  | .reread => .reread
  | .impossible => .impossible

theorem flip_flip (c : Cast) : c.flip.flip = c := by cases c <;> rfl

theorem flip_ofSame (same : Bool) : (ofSame same).flip = ofSame same := by cases same <;> rfl

theorem isImplicit_flip (c : Cast) : c.flip.isImplicit = c.isImplicit := by cases c <;> rfl

theorem ofSame_eq_same {same : Bool} : ofSame same = .same ↔ same = true := by
  cases same <;> simp [ofSame]

/-- Atoms widen one way just if they narrow the other way. -/
theorem ofAtoms_flip (a b : Atom) : (ofAtoms a b).flip = ofAtoms b a := by
  unfold ofAtoms
  by_cases hreading : a.reading.dominant = b.reading.dominant
  · rw [if_neg (not_not.2 hreading), if_neg (not_not.2 hreading.symm)]
    rcases Nat.lt_trichotomy a.size b.size with hlt | heq | hlt
    · rw [if_neg (Nat.lt_asymm hlt), if_pos hlt, if_pos hlt]
      rfl
    · simp [heq, flip]
    · rw [if_pos hlt, if_neg (Nat.lt_asymm hlt), if_pos hlt]
      rfl
  · rw [if_pos hreading, if_pos (Ne.symm hreading)]
    rfl

theorem ofAtoms_self (a : Atom) : ofAtoms a a = .same := by simp [ofAtoms]

theorem ofAtoms_eq_same {a b : Atom} (h : ofAtoms a b = .same) :
    a.reading.dominant = b.reading.dominant ∧ a.size = b.size := by
  unfold ofAtoms at h
  split at h
  · cases h
  · split at h
    · cases h
    · split at h
      · cases h
      · exact ⟨not_not.1 ‹_›, by omega⟩

/-- Between atoms of one reading no conversion has to be told. -/
theorem isImplicit_ofAtoms {a b : Atom} :
    (ofAtoms a b).isImplicit = true ↔ a.reading.dominant = b.reading.dominant := by
  unfold ofAtoms
  by_cases hreading : a.reading.dominant = b.reading.dominant
  · rw [if_neg (not_not.2 hreading)]
    refine iff_of_true ?_ hreading
    split
    · rfl
    · split <;> rfl
  · rw [if_pos hreading]
    exact iff_of_false (by decide) hreading

end Cast

namespace Tree

variable {t : Tree} {a b c : EntityId} {x y : Cast} {n : Nat}

/-! ## The other way around -/

section

variable {cast : EntityId → EntityId → Option Cast}

theorem allSame?_flip (h : ∀ a b, cast b a = (cast a b).map Cast.flip)
    (pairs : List (EntityId × EntityId)) :
    allSame? cast (pairs.map Prod.swap) = allSame? cast pairs := by
  induction pairs with
  | nil => rfl
  | cons pair rest ih =>
    obtain ⟨a, b⟩ := pair
    rw [List.map_cons, Prod.swap_prod_mk, allSame?, allSame?, h a b, ih]
    cases cast a b with
    | none => rfl
    | some c => cases c <;> rfl

theorem listsSame?_flip (h : ∀ a b, cast b a = (cast a b).map Cast.flip) (as bs : List EntityId) :
    listsSame? cast bs as = listsSame? cast as bs := by
  unfold listsSame?
  rw [← List.zip_swap as bs, allSame?_flip h]
  exact if_congr eq_comm rfl rfl

theorem castParts?_flip (t : Tree) (h : ∀ a b, cast b a = (cast a b).map Cast.flip)
    (source target : EntityKind) :
    t.castParts? cast target source = (t.castParts? cast source target).map Cast.flip := by
  have hofSame : ∀ r : Option Bool,
      (r.bind fun same => some (Cast.ofSame same)).map Cast.flip =
        r.bind fun same => some (Cast.ofSame same) := by
    intro r
    cases r with
    | none => rfl
    | some same => exact congrArg some (Cast.flip_ofSame same)
  have hrecord : ∀ a b : FrameId,
      ((t.variables? b).bind fun bs => (t.variables? a).bind fun as =>
        (listsSame? cast bs as).bind fun same => some (Cast.ofSame same)) =
      ((t.variables? a).bind fun as => (t.variables? b).bind fun bs =>
        (listsSame? cast as bs).bind fun same => some (Cast.ofSame same)).map Cast.flip := by
    intro a b
    cases t.variables? a with
    | none => cases t.variables? b <;> rfl
    | some as =>
      cases t.variables? b with
      | none => rfl
      | some bs =>
        simp only [Option.bind_some]
        rw [listsSame?_flip h as bs, hofSame]
  cases source <;> cases target <;> try rfl
  case function.function params result params' result' =>
    simp only [castParts?]
    by_cases hlength : params.length = params'.length
    · rw [if_neg (not_not.2 hlength), if_neg (not_not.2 hlength.symm), h result result']
      cases cast result result' with
      | none => rfl
      | some d =>
        simp only [Option.map_some, Option.bind_some, listsSame?_flip h params params']
        cases d <;> first | exact (hofSame _).symm | rfl
    · rw [if_pos hlength, if_pos (Ne.symm hlength)]
      rfl
  case atom.atom a b => exact congrArg some (Cast.ofAtoms_flip a b).symm
  case struct.struct a b => exact hrecord a b
  case enum.enum a b => exact hrecord a b

end

/-- Converting back is converting forth with larger and smaller swapped. -/
theorem castWithin?_flip (t : Tree) (n : Nat) (a b : EntityId) :
    t.castWithin? n b a = (t.castWithin? n a b).map Cast.flip := by
  induction n generalizing a b with
  | zero => rfl
  | succ n ih =>
    rw [castWithin?_succ, castWithin?_succ]
    cases t.entityType? a with
    | none => cases t.entityType? b <;> rfl
    | some source =>
      cases t.entityType? b with
      | none => rfl
      | some target =>
        simp only [Option.bind_some]
        by_cases heq : source = target
        · rw [if_pos heq, if_pos heq.symm]
          rfl
        · rw [if_neg heq, if_neg (Ne.symm heq)]
          cases t.entity? source with
          | none => cases t.entity? target <;> rfl
          | some e =>
            cases t.entity? target with
            | none => rfl
            | some f => exact castParts?_flip t ih e.kind f.kind

theorem cast?_flip (t : Tree) (a b : EntityId) : t.cast? b a = (t.cast? a b).map Cast.flip :=
  castWithin?_flip t _ a b

/-- The way of a cast is known from the way back. -/
theorem cast?_eq_flip : t.cast? b a = some x ↔ t.cast? a b = some x.flip := by
  rw [cast?_flip t a b, Option.map_eq_some_iff]
  constructor
  · rintro ⟨y, hy, rfl⟩
    rwa [Cast.flip_flip]
  · exact fun h => ⟨_, h, Cast.flip_flip x⟩

/-! ## Types that are the same -/

section

variable {cast : EntityId → EntityId → Option Cast}

/-- What is the same as another thing converts as the other does. -/
def Congruent (cast : EntityId → EntityId → Option Cast) : Prop :=
  ∀ a b c x, cast a b = some .same → cast b c = some x → cast a c = some x

theorem allSame?_cons {pairs : List (EntityId × EntityId)} {same : Bool} :
    allSame? cast ((a, b) :: pairs) = some same ↔
      ∃ x, cast a b = some x ∧
        if x = .same then allSame? cast pairs = some same else same = false := by
  rw [allSame?]
  constructor
  · intro h
    obtain ⟨x, hx, h⟩ := Option.bind_eq_some_iff.1 h
    refine ⟨x, hx, ?_⟩
    split at h
    · rwa [if_pos ‹_›]
    · rw [if_neg ‹_›]
      exact (Option.some.inj h).symm
  · rintro ⟨x, hx, h⟩
    refine Option.bind_eq_some_iff.2 ⟨x, hx, ?_⟩
    split at h
    · rwa [if_pos ‹_›]
    · rw [if_neg ‹_›, h]
      rfl

theorem allSame?_left (h : Congruent cast) {as bs cs : List EntityId} {same : Bool}
    (hlength : as.length = bs.length) (hsame : allSame? cast (as.zip bs) = some true)
    (hcast : allSame? cast (bs.zip cs) = some same) :
    allSame? cast (as.zip cs) = some same := by
  induction as generalizing bs cs with
  | nil =>
    obtain rfl := List.length_eq_zero_iff.1 hlength.symm
    exact hcast
  | cons a as ih =>
    cases bs with
    | nil => cases hlength
    | cons b bs =>
      cases cs with
      | nil => exact hcast
      | cons c cs =>
        obtain ⟨x, hx, hsame⟩ := allSame?_cons.1 hsame
        obtain ⟨y, hy, hcast⟩ := allSame?_cons.1 hcast
        split at hsame
        · subst x
          refine allSame?_cons.2 ⟨y, h a b c y hx hy, ?_⟩
          split at hcast
          · rw [if_pos ‹_›]
            exact ih (Nat.succ.inj hlength) hsame hcast
          · rwa [if_neg ‹_›]
        · cases hsame

theorem listsSame?_left (h : Congruent cast) {as bs cs : List EntityId} {same : Bool}
    (hsame : listsSame? cast as bs = some true) (hcast : listsSame? cast bs cs = some same) :
    listsSame? cast as cs = some same := by
  unfold listsSame? at hsame hcast ⊢
  split at hsame
  · rename_i hlength
    rw [hlength]
    split at hcast
    · rw [if_pos ‹_›]
      exact allSame?_left h hlength hsame hcast
    · rwa [if_neg ‹_›]
  · cases hsame

/-- How two records of one form convert. -/
theorem castParts?_struct {f g : FrameId} :
    t.castParts? cast (.struct f) (.struct g) = some x ↔
      ∃ as bs same, t.variables? f = some as ∧ t.variables? g = some bs ∧
        listsSame? cast as bs = some same ∧ x = .ofSame same := by
  unfold castParts?
  simp only [Option.bind_eq_some_iff, Option.some.injEq]
  constructor
  · rintro ⟨as, has, bs, hbs, same, hsame, rfl⟩
    exact ⟨as, bs, same, has, hbs, hsame, rfl⟩
  · rintro ⟨as, bs, same, has, hbs, hsame, rfl⟩
    exact ⟨as, has, bs, hbs, same, hsame, rfl⟩

theorem castParts?_enum {f g : FrameId} :
    t.castParts? cast (.enum f) (.enum g) = t.castParts? cast (.struct f) (.struct g) := rfl

/-- How two functions convert. -/
theorem castParts?_function {params params' : List EntityId} {result result' : EntityId} :
    t.castParts? cast (.function params result) (.function params' result') = some x ↔
      if params.length = params'.length then
        ∃ y, cast result result' = some y ∧
          if y = .same then ∃ same, listsSame? cast params params' = some same ∧ x = .ofSame same
          else x = .impossible
      else x = .impossible := by
  simp only [castParts?]
  by_cases hlength : params.length = params'.length
  · rw [if_neg (not_not.2 hlength), if_pos hlength, Option.bind_eq_some_iff]
    refine exists_congr fun y => and_congr_right fun _ => ?_
    by_cases hy : y = .same
    · rw [if_neg (not_not.2 hy), if_pos hy, Option.bind_eq_some_iff]
      exact exists_congr fun same => and_congr_right fun _ => Option.some_inj.trans eq_comm
    · rw [if_pos hy, if_neg hy, Option.some.injEq, eq_comm]
  · rw [if_pos hlength, if_neg hlength, Option.some.injEq, eq_comm]

theorem castParts?_left (h : Congruent cast) {k k' k'' : EntityKind}
    (hsame : t.castParts? cast k k' = some .same) (hcast : t.castParts? cast k' k'' = some x) :
    t.castParts? cast k k'' = some x := by
  have hrecord : ∀ {f g i : FrameId},
      t.castParts? cast (.struct f) (.struct g) = some .same →
      t.castParts? cast (.struct g) (.struct i) = some x →
      t.castParts? cast (.struct f) (.struct i) = some x := by
    intro f g i hsame hcast
    obtain ⟨as, bs, same, has, hbs, hlists, hx⟩ := castParts?_struct.1 hsame
    obtain rfl := Cast.ofSame_eq_same.1 hx.symm
    obtain ⟨bs', cs, same, hbs', hcs, hlists', rfl⟩ := castParts?_struct.1 hcast
    obtain rfl := Option.some.inj (hbs.symm.trans hbs')
    exact castParts?_struct.2 ⟨as, cs, same, has, hcs, listsSame?_left h hlists hlists', rfl⟩
  cases k <;> cases k' <;> try cases hsame
  case void.void.refl => exact hcast
  case atom.atom a b =>
    obtain ⟨hreading, hsize⟩ := Cast.ofAtoms_eq_same (Option.some.inj hsame)
    cases k'' with
    | atom c =>
      rw [← hcast]
      simp only [castParts?, Cast.ofAtoms, hreading, hsize]
    | _ => exact hcast
  case function.function params result params' result' =>
    cases k'' with
    | function params'' result'' =>
      rw [castParts?_function] at hsame hcast ⊢
      split at hsame
      · rename_i hlength
        rw [hlength]
        obtain ⟨y, hy, hsame⟩ := hsame
        split at hsame
        · subst y
          obtain ⟨same, hlists, hx⟩ := hsame
          obtain rfl := Cast.ofSame_eq_same.1 hx.symm
          split at hcast
          · rw [if_pos ‹_›]
            obtain ⟨z, hz, hcast⟩ := hcast
            refine ⟨z, h _ _ _ z hy hz, ?_⟩
            split at hcast
            · rw [if_pos ‹_›]
              obtain ⟨same, hlists', rfl⟩ := hcast
              exact ⟨same, listsSame?_left h hlists hlists', rfl⟩
            · rwa [if_neg ‹_›]
          · rwa [if_neg ‹_›]
        · cases hsame
      · cases hsame
    | _ => exact hcast
  case struct.struct =>
    cases k'' with
    | struct => exact hrecord hsame hcast
    | _ => exact hcast
  case enum.enum =>
    cases k'' with
    | enum => exact hrecord hsame hcast
    | _ => exact hcast

end

/-- A type that is the same as another converts as the other does. -/
theorem castWithin?_same_left (t : Tree) (n : Nat) : Congruent (t.castWithin? n) := by
  induction n with
  | zero => exact fun _ _ _ _ h _ => nomatch h
  | succ n ih =>
    intro a b c x hsame hcast
    rw [castWithin?_succ] at hsame hcast ⊢
    obtain ⟨source, hsource, hsame⟩ := Option.bind_eq_some_iff.1 hsame
    obtain ⟨middle, hmiddle, hsame⟩ := Option.bind_eq_some_iff.1 hsame
    rw [hmiddle, Option.bind_some] at hcast
    obtain ⟨target, htarget, hcast⟩ := Option.bind_eq_some_iff.1 hcast
    rw [hsource, htarget, Option.bind_some, Option.bind_some]
    by_cases hab : source = middle
    · rwa [hab]
    rw [if_neg hab] at hsame
    obtain ⟨e, he, hsame⟩ := Option.bind_eq_some_iff.1 hsame
    obtain ⟨f, hf, hsame⟩ := Option.bind_eq_some_iff.1 hsame
    by_cases hbc : middle = target
    · rw [if_pos hbc] at hcast
      rw [if_neg (hbc ▸ hab), he, ← hbc, hf, ← hcast]
      exact hsame
    rw [if_neg hbc, hf, Option.bind_some] at hcast
    obtain ⟨g, hg, hcast⟩ := Option.bind_eq_some_iff.1 hcast
    by_cases hac : source = target
    · -- the way back from `b` to `a` is the same, and so is the short cut
      rw [if_pos hac]
      obtain rfl : e = g := Option.some.inj (he.symm.trans (hac ▸ hg))
      have hback := castParts?_flip t (castWithin?_flip t n) e.kind f.kind
      rw [hsame, hcast] at hback
      exact hback.symm
    · rw [if_neg hac, he, hg]
      exact castParts?_left ih hsame hcast

/-! ## Atoms -/

/-- The type of an entity is an atom. -/
def DenotesAtom (t : Tree) (id : EntityId) (atom : Atom) : Prop :=
  ∃ type e, t.entityType? id = some type ∧ t.entity? type = some e ∧ e.kind = .atom atom

theorem DenotesAtom.unique {p q : Atom} (hp : t.DenotesAtom a p) (hq : t.DenotesAtom a q) :
    p = q := by
  obtain ⟨type, e, htype, he, hp⟩ := hp
  obtain ⟨type', e', htype', he', hq⟩ := hq
  obtain rfl := Option.some.inj (htype.symm.trans htype')
  obtain rfl := Option.some.inj (he.symm.trans he')
  exact EntityKind.atom.inj (hp.symm.trans hq)

theorem castWithin?_atoms {p q : Atom} (ha : t.DenotesAtom a p) (hb : t.DenotesAtom b q) :
    t.castWithin? (n + 1) a b = some (.ofAtoms p q) := by
  obtain ⟨source, e, hsource, he, hp⟩ := ha
  obtain ⟨target, f, htarget, hf, hq⟩ := hb
  rw [castWithin?_succ, hsource, htarget, Option.bind_some, Option.bind_some]
  by_cases heq : source = target
  · subst heq
    obtain rfl := Option.some.inj (he.symm.trans hf)
    obtain rfl := EntityKind.atom.inj (hp.symm.trans hq)
    rw [if_pos rfl, Cast.ofAtoms_self]
  · rw [if_neg heq, he, hf, Option.bind_some, Option.bind_some, hp, hq]
    rfl

/-- Only atoms convert into one another without being the same. -/
theorem denotesAtom_of_castWithin? (h : t.castWithin? n a b = some x) (hsame : x ≠ .same)
    (himpossible : x ≠ .impossible) : ∃ p q, t.DenotesAtom a p ∧ t.DenotesAtom b q := by
  cases n with
  | zero => cases h
  | succ n =>
    have hofSame : ∀ same, x ≠ Cast.ofSame same := by
      intro same
      cases same
      · exact himpossible
      · exact hsame
    rw [castWithin?_succ] at h
    obtain ⟨source, hsource, h⟩ := Option.bind_eq_some_iff.1 h
    obtain ⟨target, htarget, h⟩ := Option.bind_eq_some_iff.1 h
    split at h
    · exact absurd (Option.some.inj h).symm hsame
    · obtain ⟨⟨ename, ekind⟩, he, h⟩ := Option.bind_eq_some_iff.1 h
      obtain ⟨⟨fname, fkind⟩, hf, h⟩ := Option.bind_eq_some_iff.1 h
      cases ekind <;> cases fkind <;> try exact absurd (Option.some.inj h).symm himpossible
      case void.void => exact absurd (Option.some.inj h).symm hsame
      case atom.atom => exact ⟨_, _, ⟨_, _, hsource, he, rfl⟩, ⟨_, _, htarget, hf, rfl⟩⟩
      case function.function =>
        rw [castParts?_function] at h
        split at h
        · obtain ⟨y, _, h⟩ := h
          split at h
          · obtain ⟨same, _, hx⟩ := h
            exact absurd hx (hofSame same)
          · exact absurd h himpossible
        · exact absurd h himpossible
      case struct.struct =>
        obtain ⟨_, _, same, _, _, _, hx⟩ := castParts?_struct.1 h
        exact absurd hx (hofSame same)
      case enum.enum =>
        rw [castParts?_enum] at h
        obtain ⟨_, _, same, _, _, _, hx⟩ := castParts?_struct.1 h
        exact absurd hx (hofSame same)

/-! ## Ranks -/

open Classical in
/-- The places of what an entity is made of, directly or not. -/
noncomputable def makings (t : Tree) (a : EntityId) : Finset Nat :=
  (Finset.range t.entities.size).filter fun i => Relation.TransGen t.MadeOf a ⟨i⟩

theorem mem_makings : b.index ∈ t.makings a ↔ t.HasEntity b ∧ Relation.TransGen t.MadeOf a b := by
  classical
  unfold makings
  rw [Finset.mem_filter, Finset.mem_range]
  exact Iff.rfl

theorem makings_subset (t : Tree) (a : EntityId) :
    t.makings a ⊆ Finset.range t.entities.size := by
  classical
  exact Finset.filter_subset _ _

namespace Founded

theorem not_made_of_self (h : t.Founded) (a : EntityId) : ¬Relation.TransGen t.MadeOf a a := by
  intro hcircle
  have hwf : WellFounded (Relation.TransGen fun b a => t.MadeOf a b) := h.wellFounded.transGen
  have hback := Relation.transGen_swap.2 hcircle
  exact hwf.asymmetric _ _ hback hback

/-- What a type is made of is made of fewer entities. -/
theorem card_makings_lt (h : t.Founded) (hmade : t.MadeOf a b) :
    (t.makings b).card < (t.makings a).card := by
  refine Finset.card_lt_card (Finset.ssubset_iff_of_subset ?_ |>.2 ⟨b.index, ?_, ?_⟩)
  · intro i hi
    obtain ⟨hentity, hchain⟩ := mem_makings.1 (show (EntityId.mk i).index ∈ t.makings b from hi)
    exact mem_makings.2 ⟨hentity, .head hmade hchain⟩
  · exact mem_makings.2 ⟨h.refers hmade.1, .single hmade⟩
  · exact fun hself => h.not_made_of_self b (mem_makings.1 hself).2

/-- No type is made of all entities, since it is not made of itself. -/
theorem card_makings_lt_size (h : t.Founded) (ha : t.HasEntity a) :
    (t.makings a).card < t.entities.size := by
  rw [← Finset.card_range t.entities.size]
  refine Finset.card_lt_card (Finset.ssubset_iff_of_subset ?_ |>.2 ⟨a.index, ?_, ?_⟩)
  · exact t.makings_subset a
  · exact Finset.mem_range.2 ha
  · exact fun hself => h.not_made_of_self a (mem_makings.1 hself).2

/-- Any two entities can be compared. -/
theorem cast? (h : t.Founded) (ha : t.HasEntity a) (hb : t.HasEntity b) :
    ∃ x, t.cast? a b = some x := by
  refine h.castWithin? (fun id => (t.makings id).card) h.card_makings_lt ?_ ha hb
  have hsize := h.card_makings_lt_size ha
  have hsquare := Nat.le_mul_self t.entities.size
  omega

end Founded

/-! ## Laws -/

theorem cast?_same_left (hsame : t.cast? a b = some .same) (hcast : t.cast? b c = some x) :
    t.cast? a c = some x :=
  castWithin?_same_left t _ a b c x hsame hcast

theorem cast?_same_right (hcast : t.cast? a b = some x) (hsame : t.cast? b c = some .same) :
    t.cast? a c = some x := by
  have hback : t.cast? c b = some .same := cast?_eq_flip.2 hsame
  have hflip : t.cast? b a = some x.flip := by rw [cast?_flip t a b, hcast, Option.map_some]
  rw [cast?_flip t c a, cast?_same_left hback hflip, Option.map_some, Cast.flip_flip]

theorem cast?_self (ha : t.HasEntity a) : t.cast? a a = some .same := by
  obtain ⟨type, htype⟩ : ∃ type, t.entityType? a = some type := by
    obtain ⟨⟨name, kind⟩, he⟩ := hasEntity_iff.1 ha
    unfold entityType?
    rw [he]
    cases kind <;> exact ⟨_, rfl⟩
  unfold Tree.cast?
  rw [castWithin?_succ, htype, Option.bind_some, Option.bind_some, if_pos rfl]

/-- Atoms that convert without being told to have one reading. -/
theorem converts_trans (hab : Grammar.Converts t a b) (hbc : Grammar.Converts t b c) :
    Grammar.Converts t a c := by
  obtain ⟨x, hx, himplicit⟩ := hab
  obtain ⟨y, hy, himplicit'⟩ := hbc
  by_cases hsame : x = .same
  · subst hsame
    exact ⟨y, cast?_same_left hx hy, himplicit'⟩
  by_cases hsame' : y = .same
  · subst hsame'
    exact ⟨x, cast?_same_right hx hy, himplicit⟩
  -- both steps are between atoms, and then so is the whole way
  obtain ⟨p, q, hp, hq⟩ := denotesAtom_of_castWithin? hx hsame (by rintro rfl; cases himplicit)
  obtain ⟨q', r, hq', hr⟩ := denotesAtom_of_castWithin? hy hsame' (by rintro rfl; cases himplicit')
  obtain rfl : q = q' := hq.unique hq'
  obtain rfl := Option.some.inj (hx.symm.trans (castWithin?_atoms hp hq))
  obtain rfl := Option.some.inj (hy.symm.trans (castWithin?_atoms hq hr))
  refine ⟨.ofAtoms p r, castWithin?_atoms hp hr, Cast.isImplicit_ofAtoms.2 ?_⟩
  exact (Cast.isImplicit_ofAtoms.1 himplicit).trans (Cast.isImplicit_ofAtoms.1 himplicit')

/-- What holds of casts between entities that are there. -/
structure CastLaws (t : Tree) : Prop where
  total : ∀ a b, t.HasEntity a → t.HasEntity b → ∃ x, t.cast? a b = some x
  /-- One way is wider just if the other way is narrower. -/
  wider : ∀ a b, t.cast? a b = some .widened ↔ t.cast? b a = some .narrowed
  /-- Everything else is the same both ways. -/
  symm : ∀ a b, ∀ x ∈ [Cast.same, .reread, .impossible],
    t.cast? a b = some x ↔ t.cast? b a = some x
  same : Equivalence fun a b : { id // t.HasEntity id } => t.cast? a b = some .same
  congr : ∀ a a' b b', t.cast? a a' = some .same → t.cast? b b' = some .same →
    t.cast? a b = t.cast? a' b'
  implicit : Equivalence fun a b : { id // t.HasEntity id } => Grammar.Converts t a b

theorem Founded.castLaws (h : t.Founded) : t.CastLaws where
  total _ _ := h.cast?
  wider _ _ := cast?_eq_flip
  symm a b x hx := by
    have hflip : x.flip = x := by
      simp only [List.mem_cons, List.not_mem_nil, or_false] at hx
      rcases hx with rfl | rfl | rfl <;> rfl
    rw [cast?_eq_flip, hflip]
  same :=
    { refl := fun a => cast?_self a.2
      symm := fun hsame => cast?_eq_flip.2 hsame
      trans := fun hab hbc => cast?_same_left hab hbc }
  congr a a' b b' ha hb := by
    have ha' : t.cast? a' a = some .same := cast?_eq_flip.2 ha
    have hb' : t.cast? b' b = some .same := cast?_eq_flip.2 hb
    refine Option.ext fun x => ⟨fun hx => ?_, fun hx => ?_⟩
    · exact cast?_same_left ha' (cast?_same_right hx hb)
    · exact cast?_same_left ha (cast?_same_right hx hb')
  implicit :=
    { refl := fun a => ⟨.same, cast?_self a.2, rfl⟩
      symm := fun ⟨x, hx, himplicit⟩ =>
        ⟨x.flip, cast?_eq_flip.2 (by rw [Cast.flip_flip]; exact hx),
          (Cast.isImplicit_flip x).trans himplicit⟩
      trans := converts_trans }

end Tree

open OnePass.Tree

namespace Grammar

/-- In the tree of an accepted source every entity refers to older entities only, and the frame
of a record is there with all its members. So any two entities can be compared, and the
comparison goes no deeper than its source is old: more steps change nothing. -/
theorem types_well_founded {source : String} {tree : Tree} (h : parseSource source = .ok tree) :
    (∀ a b, tree.Refers a b → tree.HasEntity b ∧ b.index < a.index) ∧
    (∀ a e frame, tree.entity? a = some e → e.recordFrame? = some frame →
      tree.HasFrame frame) ∧
    ∀ a b, tree.HasEntity a → tree.HasEntity b → ∃ c, tree.cast? a b = some c ∧
      ∀ n, a.index < n → tree.castWithin? n a b = some c := by
  obtain ⟨tokens, _, hparse⟩ := parseSource_ok h
  have hs := sound_of_parse hparse
  refine ⟨fun a b href => ⟨hs.refers_hasEntity href, hs.refers href⟩, ?_, ?_⟩
  · intro a e frame ha hframe
    exact hs.founded.frame ha hframe
  · intro a b ha hb
    -- the fewest steps that are enough, and from there on nothing changes
    obtain ⟨c, hc⟩ := hs.castWithin? (Nat.lt_succ_self a.index) ha hb
    have hmore : ∀ n, a.index < n → tree.castWithin? n a b = some c := fun n hn =>
      castWithin?_mono .refl hs.hasRecords hn hc
    refine ⟨c, hmore _ ?_, hmore⟩
    have hsize : a.index < tree.entities.size := ha
    have hsquare := Nat.le_mul_self tree.entities.size
    omega

/-- A record in a record, and another one of the same make. -/
def nestedSource : String :=
  "A :: struct \x7b x : s8 \x7d\nB :: struct \x7b y : A \x7d\nC :: struct \x7b z : A \x7d\n"

theorem nestedSource_accepted : ∃ tree, parseSource nestedSource = .ok tree ∧
    tree.HasEntity ⟨19⟩ ∧ tree.HasEntity ⟨21⟩ ∧ tree.cast? ⟨19⟩ ⟨21⟩ = some .same := by
  have hrun : (parseSource nestedSource).toOption.any (fun tree =>
      decide (tree.entities.size = 22 ∧ tree.cast? ⟨19⟩ ⟨21⟩ = some .same)) = true := by
    decide +kernel
  obtain ⟨tree, hparse, hcheck⟩ := exists_parse hrun
  obtain ⟨hsize, hsame⟩ := of_decide_eq_true hcheck
  have hthere : ∀ n < 22, tree.HasEntity ⟨n⟩ := fun n hn => Nat.lt_of_lt_of_eq hn hsize.symm
  exact ⟨tree, hparse, hthere 19 (by decide), hthere 21 (by decide), hsame⟩

/-- The two records are found the same in twenty steps, and no more are asked for. -/
theorem types_well_founded_nested : ∃ tree, parseSource nestedSource = .ok tree ∧
    ∀ n, 19 < n → tree.castWithin? n ⟨19⟩ ⟨21⟩ = some .same := by
  obtain ⟨tree, hparse, ha, hb, hsame⟩ := nestedSource_accepted
  obtain ⟨c, hc, hmore⟩ := (types_well_founded hparse).2.2 ⟨19⟩ ⟨21⟩ ha hb
  obtain rfl := Option.some.inj (hsame.symm.trans hc)
  exact ⟨tree, hparse, hmore⟩

/-- The laws of casts hold in every tree whose types are not made of themselves, and the tree of
an accepted source is one. -/
theorem casts_lawful : (∀ t : Tree, t.Founded → t.CastLaws) ∧
    ∀ (source : String) (tree : Tree), parseSource source = .ok tree → tree.Founded := by
  refine ⟨fun t h => h.castLaws, ?_⟩
  intro source tree h
  obtain ⟨tokens, _, hparse⟩ := parseSource_ok h
  exact (sound_of_parse hparse).founded

/-- The record that the other one is the same as converts into it in turn, and anything converts
into both in one way. -/
theorem casts_lawful_nested : ∃ tree, parseSource nestedSource = .ok tree ∧
    tree.cast? ⟨19⟩ ⟨21⟩ = some .same ∧ tree.cast? ⟨21⟩ ⟨19⟩ = some .same ∧
      ∀ a, tree.HasEntity a → tree.cast? a ⟨19⟩ = tree.cast? a ⟨21⟩ := by
  obtain ⟨tree, hparse, -, -, hsame⟩ := nestedSource_accepted
  have hlaws := casts_lawful.1 tree (casts_lawful.2 nestedSource tree hparse)
  refine ⟨tree, hparse, hsame, (hlaws.symm _ _ .same (by decide)).1 hsame, ?_⟩
  exact fun a ha => hlaws.congr a a _ _ (hlaws.same.refl ⟨a, ha⟩) hsame

end Grammar

end OnePass

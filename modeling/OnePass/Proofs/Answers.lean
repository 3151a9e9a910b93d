import OnePass.Proofs.Soundness
import OnePass.Types.Signature

/-!
# Answers

On a sound tree every question about types has an answer. The type of an expression was one;
the others are the names of types and signatures, the variables of a frame, and casts. The
steps of a cast are enough because a type is made of older types, and more generally because
types are not made of themselves.
-/

namespace OnePass.Tree

variable {t : Tree}

namespace Sound

theorem typeName? (h : t.Sound) {id : EntityId} (hid : t.HasEntity id) :
    ∃ name, t.typeName? id = some name := by
  obtain ⟨type, htype, ⟨e, he, _⟩, _⟩ := h.entityType? hid
  unfold Tree.typeName?
  rw [htype, Option.bind_eq_bind, Option.bind_some, he]
  exact ⟨_, rfl⟩

theorem paramText? (h : t.Sound) {id : EntityId} (hid : t.HasEntity id) :
    ∃ text, t.paramText? id = some text := by
  obtain ⟨e, he⟩ := hasEntity_iff.1 hid
  obtain ⟨name, hname⟩ := h.typeName? hid
  unfold Tree.paramText?
  rw [he, hname]
  exact ⟨_, rfl⟩

theorem paramTexts? (h : t.Sound) {params : List EntityId} (hparams : ∀ p ∈ params, t.HasEntity p) :
    ∃ texts, params.mapM t.paramText? = some texts := by
  induction params with
  | nil => exact ⟨[], rfl⟩
  | cons p rest ih =>
    obtain ⟨text, htext⟩ := h.paramText? (hparams p List.mem_cons_self)
    obtain ⟨texts, htexts⟩ := ih fun q hq => hparams q (List.mem_cons_of_mem _ hq)
    rw [List.mapM_cons, htext, htexts]
    exact ⟨_, rfl⟩

theorem signatureName? (h : t.Sound) {params : List EntityId} {result : EntityId}
    (hparams : ∀ p ∈ params, t.HasEntity p) (hresult : t.HasEntity result) :
    ∃ name, t.signatureName? params result = some name := by
  obtain ⟨texts, htexts⟩ := h.paramTexts? hparams
  obtain ⟨type, htype, _⟩ := h.entityType? hresult
  obtain ⟨name, hname⟩ := h.typeName? hresult
  unfold Tree.signatureName?
  rw [htexts, htype, hname]
  by_cases hvoid : type = Builtin.void.handle <;> simp [hvoid]

theorem variables? (h : t.Sound) {frame : FrameId} (hframe : t.HasFrame frame) :
    ∃ vars, t.variables? frame = some vars := by
  obtain ⟨f, hf⟩ := hasFrame_iff.1 hframe
  obtain ⟨vars, hvars⟩ := variablesAmong?_some (h.names hf)
  unfold Tree.variables?
  rw [hf]
  exact ⟨vars, hvars⟩

end Sound

/-! ## Casts -/

section

variable {cast : EntityId → EntityId → Option Cast}

theorem allSame?_some {pairs : List (EntityId × EntityId)}
    (h : ∀ pair ∈ pairs, ∃ c, cast pair.1 pair.2 = some c) :
    ∃ same, allSame? cast pairs = some same := by
  induction pairs with
  | nil => exact ⟨true, rfl⟩
  | cons pair rest ih =>
    obtain ⟨c, hc⟩ := h pair List.mem_cons_self
    unfold allSame?
    rw [hc, Option.bind_eq_bind, Option.bind_some]
    split
    · exact ih fun q hq => h q (List.mem_cons_of_mem _ hq)
    · exact ⟨false, rfl⟩

theorem listsSame?_some {as bs : List EntityId}
    (h : ∀ a ∈ as, ∀ b ∈ bs, ∃ c, cast a b = some c) :
    ∃ same, listsSame? cast as bs = some same := by
  unfold listsSame?
  split
  · refine allSame?_some fun pair hpair => ?_
    obtain ⟨ha, hb⟩ := List.of_mem_zip hpair
    exact h _ ha _ hb
  · exact ⟨false, rfl⟩

/-- Two types can be compared if whatever the first is made of can be compared. -/
theorem castParts?_some (ht : t.Founded) {source target : EntityId} {e f : Entity}
    (he : t.entity? source = some e) (hf : t.entity? target = some f)
    (hcast : ∀ a b, t.MadeOf source a → t.HasEntity b → ∃ c, cast a b = some c) :
    ∃ c, t.castParts? cast e.kind f.kind = some c := by
  have hrecord : ∀ {a b : FrameId}, e.recordFrame? = some a → f.recordFrame? = some b →
      ∃ c, ((t.variables? a).bind fun as => (t.variables? b).bind fun bs =>
        (listsSame? cast as bs).bind fun same => some (Cast.ofSame same)) = some c := by
    intro a b ha hb
    obtain ⟨as, has, hsource⟩ := ht.variables? he ha
    obtain ⟨bs, hbs, htarget⟩ := ht.variables? hf hb
    obtain ⟨same, hsame⟩ := listsSame?_some fun m hm n hn =>
      hcast m n (hsource m hm) (ht.refers (htarget n hn).1)
    rw [has, Option.bind_some, hbs, Option.bind_some, hsame]
    exact ⟨_, rfl⟩
  obtain ⟨ename, ekind⟩ := e
  obtain ⟨fname, fkind⟩ := f
  cases ekind <;> cases fkind <;> try exact ⟨_, rfl⟩
  case function.function params result params' result' =>
    obtain ⟨hparams, hresult⟩ := Founded.function he
    obtain ⟨hparams', hresult'⟩ := Founded.function hf
    simp only [castParts?]
    split
    · exact ⟨_, rfl⟩
    · obtain ⟨c, hc⟩ := hcast result result' hresult (ht.refers hresult'.1)
      rw [hc, Option.bind_some]
      split
      · exact ⟨_, rfl⟩
      · obtain ⟨same, hsame⟩ := listsSame?_some fun p hp q hq =>
          hcast p q (hparams p hp) (ht.refers (hparams' q hq).1)
        rw [hsame]
        exact ⟨_, rfl⟩
  case struct.struct => exact hrecord rfl rfl
  case enum.enum => exact hrecord rfl rfl

end

/-- Where what an entity is made of has a lower rank, as many steps as the source has rank are
enough for a cast. -/
theorem Founded.castWithin? (h : t.Founded) (rank : EntityId → Nat)
    (hrank : ∀ {a b}, t.MadeOf a b → rank b < rank a) {n : Nat} {source target : EntityId}
    (hn : rank source < n) (hsource : t.HasEntity source) (htarget : t.HasEntity target) :
    ∃ c, t.castWithin? n source target = some c := by
  induction n generalizing source target with
  | zero => exact absurd hn (Nat.not_lt_zero _)
  | succ n ih =>
    obtain ⟨a, ha, hasource, hmade⟩ := h.entityType? hsource
    obtain ⟨b, hb, hbtarget, _⟩ := h.entityType? htarget
    have hle : rank a ≤ rank source := by
      rcases hmade with rfl | hmade
      · exact Nat.le_refl _
      · exact Nat.le_of_lt (hrank hmade)
    rw [castWithin?_succ, ha, hb, Option.bind_some, Option.bind_some]
    split
    · exact ⟨_, rfl⟩
    · obtain ⟨e, he⟩ := hasEntity_iff.1 hasource
      obtain ⟨f, hf⟩ := hasEntity_iff.1 hbtarget
      rw [he, hf, Option.bind_some, Option.bind_some]
      refine castParts?_some h he hf fun x y hx hy => ih ?_ (h.refers hx.1) hy
      have hlt := hrank hx
      omega

namespace Sound

/-- As many steps as an entity is old are enough for a cast. -/
theorem castWithin? (h : t.Sound) {n : Nat} {source target : EntityId} (hn : source.index < n)
    (hsource : t.HasEntity source) (htarget : t.HasEntity target) :
    ∃ c, t.castWithin? n source target = some c :=
  h.founded.castWithin? EntityId.index (fun hmade => h.refers hmade.1) hn hsource htarget

/-- Any two entities can be compared. -/
theorem cast? (h : t.Sound) {source target : EntityId} (hsource : t.HasEntity source)
    (htarget : t.HasEntity target) : ∃ c, t.cast? source target = some c := by
  refine h.castWithin? ?_ hsource htarget
  have hsize : source.index < t.entities.size := hsource
  have hsquare : t.entities.size ≤ t.entities.size * t.entities.size := Nat.le_mul_self _
  omega

end Sound

end OnePass.Tree

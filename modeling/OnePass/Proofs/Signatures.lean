import Mathlib.Data.List.Forall2
import OnePass.Proofs.Course
import OnePass.Proofs.Respacing
import OnePass.Proofs.Steady
import OnePass.Types.Signature

/-!
# Names of signatures

The name of a signature is one text, in which the names of other signatures may stand, and the
arrow is left out where nothing is returned. It can still be read in one way only: after the name
of a type there is a comma, a closing parenthesis or nothing (`Ends`), so that its end is found
again (`TypeName.delimited`), and the colon ends the name of a parameter. All entities of a tree
that is read are called by names of this form (`Grammar.Course.titled`).
`signature_names_unambiguous` says both.
-/

namespace OnePass

/-! ## Identifiers -/

namespace Lexicon

/-- The text is described as a name. -/
def Identifier (name : List Char) : Prop :=
  (Pattern.followed letter (.many letterOrDigit)).Matches name

/-- What names consist of. -/
def nameChars : CharClass := .within [('a', 'z'), ('A', 'Z'), ('_', '_'), ('0', '9')]

variable {name s s' rest rest' : List Char}

theorem Identifier.exists_cons (h : Identifier name) :
    ∃ c rest, name = c :: rest ∧ nameChars.contains c = true := by
  obtain ⟨s, t, rfl, hs, -⟩ := Pattern.matches_followed.1 h
  cases hs with
  | @one _ c hc =>
    refine ⟨c, t, rfl, ?_⟩
    simp only [CharClass.contains, CharClass.within, nameChars, List.any_cons, List.any_nil] at hc ⊢
    grind

theorem Identifier.contains (h : Identifier name) : ∀ c ∈ name, nameChars.contains c = true := by
  obtain ⟨c, rest, rfl, hc⟩ := h.exists_cons
  obtain ⟨s, t, heq, hs, ht⟩ := Pattern.matches_followed.1 h
  cases hs with
  | @one _ d hd =>
    obtain ⟨rfl, rfl⟩ := List.cons.inj heq
    intro x hx
    rcases List.mem_cons.1 hx with rfl | hx
    · exact hc
    · exact Pattern.matches_many_one.1 ht x hx

/-- An identifier does not begin with another character. -/
theorem Identifier.append_ne_cons {c : Char} (h : Identifier name)
    (hc : nameChars.contains c = false) : name ++ rest ≠ c :: rest' := by
  obtain ⟨d, t, rfl, hd⟩ := h.exists_cons
  intro heq
  rw [(List.cons.inj heq).1, hc] at hd
  cases hd

/-- The end of an identifier is found again before a character that is none of a name. -/
theorem Identifier.append_inj (h : Identifier s) (h' : Identifier s')
    (hrest : ∀ c ∈ rest.head?, nameChars.contains c = false)
    (hrest' : ∀ c ∈ rest'.head?, nameChars.contains c = false) (heq : s ++ rest = s' ++ rest') :
    s = s' ∧ rest = rest' := by
  have htake {s rest : List Char} (h : Identifier s)
      (hrest : ∀ c ∈ rest.head?, nameChars.contains c = false) :
      (s ++ rest).takeWhile nameChars.contains = s := by
    rw [List.takeWhile_append_of_pos h.contains]
    cases rest with
    | nil => exact List.append_nil s
    | cons c rest => rw [List.takeWhile_cons_of_neg (by simp [hrest c rfl]), List.append_nil]
  have hname : s = s' := by rw [← htake h hrest, heq, htake h' hrest']
  subst hname
  exact ⟨rfl, List.append_cancel_left heq⟩

theorem Describes.identifier (h : Describes name (.token .name)) : Identifier name := by
  have hrules : ∀ rule ∈ rules, rule.role = .token .name →
      rule.pattern = .followed letter (.many letterOrDigit) := by decide
  obtain ⟨rule, hrule, hrole, hmatch⟩ := h
  rwa [hrules rule hrule hrole] at hmatch

/-- The names among the tokens of a source are identifiers. -/
theorem identifier_of_tokenize {source : List Char} {tokens : TokenList}
    (h : tokenize source = .ok tokens) {name : String} (hname : tokens.Names name) :
    Identifier name.toList := by
  obtain ⟨token, htoken, hkind, rfl⟩ := hname
  rcases List.mem_append.1 htoken with htoken | htoken
  · have hdescribed := (words_of_tokenize h token htoken).described
    rw [hkind] at hdescribed
    exact hdescribed.identifier
  · rw [List.mem_singleton.1 htoken, (tokenize_eof h).2] at hkind
    cases hkind

end Lexicon

open Lexicon (Identifier)

/-! ## Names of types -/

/-- The name of a parameter and that of its type, as they are written. -/
def paramChars (p : List Char × List Char) : List Char := p.1 ++ ':' :: ' ' :: p.2

/-- Parameters in parentheses, and an arrow and the result if something is returned. -/
def signatureChars (params : List (List Char × List Char)) (result : Option (List Char)) :
    List Char :=
  '(' :: ([',', ' '].intercalate (params.map paramChars) ++
    ')' :: result.elim [] ([' ', '-', '>', ' '] ++ ·))

/-- The text is an identifier, or a signature of such names. -/
inductive TypeName : List Char → Prop where
  | identifier {name : List Char} (h : Identifier name) : TypeName name
  | signature {params : List (List Char × List Char)} {result : Option (List Char)}
      (hnames : ∀ p ∈ params, Identifier p.1) (htypes : ∀ p ∈ params, TypeName p.2)
      (hresult : ∀ r ∈ result, TypeName r) : TypeName (signatureChars params result)

/-- What may stand after the name of a type. -/
def Ends (rest : List Char) : Prop := ∀ c ∈ rest.head?, c = ',' ∨ c = ')'

/-- The end of the text is found again in what it begins. -/
def Delimited (s : List Char) : Prop :=
  ∀ {s' rest rest' : List Char}, TypeName s' → Ends rest → Ends rest' →
    s ++ rest = s' ++ rest' → s = s' ∧ rest = rest'

section Delimited

variable {params params' : List (List Char × List Char)} {result result' : Option (List Char)}
  {p p' : List Char × List Char} {s rest rest' : List Char}

theorem Ends.not_name (h : Ends rest) :
    ∀ c ∈ rest.head?, Lexicon.nameChars.contains c = false := by
  intro c hc
  rcases h c hc with rfl | rfl <;> decide

theorem param_append_inj (hname : Identifier p.1) (htype : Delimited p.2) (hname' : Identifier p'.1)
    (htype' : TypeName p'.2) (hrest : Ends rest) (hrest' : Ends rest')
    (h : paramChars p ++ rest = paramChars p' ++ rest') : p = p' ∧ rest = rest' := by
  unfold paramChars at h
  rw [List.append_assoc, List.append_assoc] at h
  have hcolon {t : List Char} : ∀ c ∈ (':' :: t).head?, Lexicon.nameChars.contains c = false := by
    rintro c ⟨⟩
    decide
  obtain ⟨hnames, hcolons⟩ := hname.append_inj hname' hcolon hcolon h
  obtain ⟨htypes, hends⟩ := htype htype' hrest hrest' (List.cons.inj (List.cons.inj hcolons).2).2
  exact ⟨Prod.ext hnames htypes, hends⟩

/-- Parameters after the first one. -/
def moreChars (params : List (List Char × List Char)) : List Char :=
  params.flatMap fun p => ',' :: ' ' :: paramChars p

theorem intercalate_params (p : List Char × List Char) (params : List (List Char × List Char)) :
    [',', ' '].intercalate ((p :: params).map paramChars) = paramChars p ++ moreChars params := by
  induction params generalizing p with
  | nil => simp [moreChars]
  | cons q params ih =>
    rw [List.map_cons, List.map_cons, List.intercalate_cons_cons, ← List.map_cons, ih]
    simp [moreChars]

theorem ends_more (params : List (List Char × List Char)) (rest : List Char) :
    Ends (moreChars params ++ ')' :: rest) := by
  cases params with
  | nil =>
    rintro c ⟨⟩
    exact .inr rfl
  | cons p params =>
    rintro c ⟨⟩
    exact .inl rfl

theorem more_append_inj (hnames : ∀ p ∈ params, Identifier p.1)
    (htypes : ∀ p ∈ params, Delimited p.2) (hnames' : ∀ p ∈ params', Identifier p.1)
    (htypes' : ∀ p ∈ params', TypeName p.2)
    (h : moreChars params ++ ')' :: rest = moreChars params' ++ ')' :: rest') :
    params = params' ∧ rest = rest' := by
  induction params generalizing params' with
  | nil =>
    cases params' with
    | nil => exact ⟨rfl, (List.cons.inj h).2⟩
    | cons p' params' => exact absurd (List.cons.inj h).1 (by decide)
  | cons p params ih =>
    cases params' with
    | nil => exact absurd (List.cons.inj h).1 (by decide)
    | cons p' params' =>
      rw [List.forall_mem_cons] at hnames htypes hnames' htypes'
      have hparams : paramChars p ++ (moreChars params ++ ')' :: rest) =
          paramChars p' ++ (moreChars params' ++ ')' :: rest') := by
        simpa [moreChars] using h
      obtain ⟨rfl, hmore⟩ := param_append_inj hnames.1 htypes.1 hnames'.1 htypes'.1
        (ends_more _ _) (ends_more _ _) hparams
      obtain ⟨rfl, hends⟩ := ih hnames.2 htypes.2 hnames'.2 htypes'.2 hmore
      exact ⟨rfl, hends⟩

theorem params_append_inj (hnames : ∀ p ∈ params, Identifier p.1)
    (htypes : ∀ p ∈ params, Delimited p.2) (hnames' : ∀ p ∈ params', Identifier p.1)
    (htypes' : ∀ p ∈ params', TypeName p.2)
    (h : [',', ' '].intercalate (params.map paramChars) ++ ')' :: rest =
      [',', ' '].intercalate (params'.map paramChars) ++ ')' :: rest') :
    params = params' ∧ rest = rest' := by
  have hempty {p : List Char × List Char} {params : List (List Char × List Char)}
      {rest rest' : List Char} (hname : Identifier p.1) :
      ')' :: rest ≠ [',', ' '].intercalate ((p :: params).map paramChars) ++ ')' :: rest' := by
    rw [intercalate_params, paramChars, List.append_assoc, List.append_assoc]
    exact (hname.append_ne_cons (by decide)).symm
  cases params with
  | nil =>
    cases params' with
    | nil => exact ⟨rfl, (List.cons.inj h).2⟩
    | cons p' params' => exact absurd h (hempty (hnames' p' List.mem_cons_self))
  | cons p params =>
    cases params' with
    | nil => exact absurd h.symm (hempty (hnames p List.mem_cons_self))
    | cons p' params' =>
      rw [List.forall_mem_cons] at hnames htypes hnames' htypes'
      rw [intercalate_params, intercalate_params, List.append_assoc, List.append_assoc] at h
      obtain ⟨rfl, hmore⟩ := param_append_inj hnames.1 htypes.1 hnames'.1 htypes'.1
        (ends_more _ _) (ends_more _ _) h
      obtain ⟨rfl, hends⟩ := more_append_inj hnames.2 htypes.2 hnames'.2 htypes'.2 hmore
      exact ⟨rfl, hends⟩

/-- The parts of a signature and its end are found again. -/
theorem signature_append_inj (hnames : ∀ p ∈ params, Identifier p.1)
    (htypes : ∀ p ∈ params, Delimited p.2) (hresult : ∀ r ∈ result, Delimited r)
    (hnames' : ∀ p ∈ params', Identifier p.1) (htypes' : ∀ p ∈ params', TypeName p.2)
    (hresult' : ∀ r ∈ result', TypeName r) (hrest : Ends rest) (hrest' : Ends rest')
    (h : signatureChars params result ++ rest = signatureChars params' result' ++ rest') :
    params = params' ∧ result = result' ∧ rest = rest' := by
  have harrow {r rest : List Char} : ¬Ends (' ' :: '-' :: '>' :: ' ' :: r ++ rest) := fun h =>
    absurd (h ' ' rfl) (by decide)
  unfold signatureChars at h
  rw [List.cons_append, List.cons_append, List.append_assoc, List.append_assoc] at h
  obtain ⟨rfl, htail⟩ := params_append_inj hnames htypes hnames' htypes' (List.cons.inj h).2
  refine ⟨rfl, ?_⟩
  cases result with
  | none =>
    cases result' with
    | none => exact ⟨rfl, htail⟩
    | some r' =>
      have htail : rest = ' ' :: '-' :: '>' :: ' ' :: r' ++ rest' := htail
      rw [htail] at hrest
      exact absurd hrest harrow
  | some r =>
    cases result' with
    | none =>
      have htail : ' ' :: '-' :: '>' :: ' ' :: r ++ rest = rest' := htail
      rw [← htail] at hrest'
      exact absurd hrest' harrow
    | some r' =>
      have hresults : r ++ rest = r' ++ rest' := by simpa using htail
      obtain ⟨rfl, hends⟩ := hresult r rfl (hresult' r' rfl) hrest hrest' hresults
      exact ⟨rfl, hends⟩

/-- The name of a type is told from what stands after it. -/
theorem TypeName.delimited (h : TypeName s) : Delimited s := by
  have hparen : Lexicon.nameChars.contains '(' = false := by decide
  induction h with
  | identifier h =>
    intro s' rest rest' h' hrest hrest' heq
    cases h' with
    | identifier h' => exact h.append_inj h' hrest.not_name hrest'.not_name heq
    | signature => exact absurd heq (h.append_ne_cons hparen)
  | signature hnames _ _ htypes hresult =>
    intro s' rest rest' h' hrest hrest' heq
    cases h' with
    | identifier h' => exact absurd heq.symm (h'.append_ne_cons hparen)
    | signature hnames' htypes' hresult' =>
      obtain ⟨rfl, rfl, hends⟩ := signature_append_inj hnames htypes hresult hnames' htypes'
        hresult' hrest hrest' heq
      exact ⟨rfl, hends⟩

/-- The parts of a signature are found again in its name. -/
theorem signatureChars_inj (hnames : ∀ p ∈ params, Identifier p.1)
    (htypes : ∀ p ∈ params, TypeName p.2) (hresult : ∀ r ∈ result, TypeName r)
    (hnames' : ∀ p ∈ params', Identifier p.1) (htypes' : ∀ p ∈ params', TypeName p.2)
    (hresult' : ∀ r ∈ result', TypeName r)
    (h : signatureChars params result = signatureChars params' result') :
    params = params' ∧ result = result' := by
  have hnil : Ends [] := nofun
  obtain ⟨hparams, hresults, -⟩ := signature_append_inj hnames (fun p hp => (htypes p hp).delimited)
    (fun r hr => (hresult r hr).delimited) hnames' htypes' hresult' hnil hnil (by rw [h])
  exact ⟨hparams, hresults⟩

end Delimited

/-! ## Signatures in a tree -/

namespace Tree

variable {t t' : Tree} {params params' : List EntityId} {result result' : EntityId} {name : String}

/-- The parameter has this name, and its type has that one. -/
def HasParam (t : Tree) (param : EntityId) (p : List Char × List Char) : Prop :=
  ∃ e type, t.entity? param = some e ∧ t.typeName? param = some type ∧
    p = (e.name.toList, type.toList)

/-- The result has a type of this name, or there is none. -/
def HasResult (t : Tree) (result : EntityId) : Option (List Char) → Prop
  | none => t.entityType? result = some Builtin.void.handle
  | some r => t.entityType? result ≠ some Builtin.void.handle ∧
    ∃ type, t.typeName? result = some type ∧ r = type.toList

/-- Parameters are called by identifiers, and all types by names of types. -/
structure WellNamed (t : Tree) (params : List EntityId) (result : EntityId) : Prop where
  param : ∀ p ∈ params, ∀ e, t.entity? p = some e → Identifier e.name.toList
  type : ∀ p ∈ params, ∀ type, t.typeName? p = some type → TypeName type.toList
  result : ∀ type, t.typeName? result = some type → TypeName type.toList

theorem exists_params {texts : List String} (h : params.mapM t.paramText? = some texts)
    (hnames : ∀ p ∈ params, ∀ e, t.entity? p = some e → Identifier e.name.toList)
    (htypes : ∀ p ∈ params, ∀ type, t.typeName? p = some type → TypeName type.toList) :
    ∃ ps, List.Forall₂ t.HasParam params ps ∧ texts.map String.toList = ps.map paramChars ∧
      (∀ p ∈ ps, Identifier p.1) ∧ ∀ p ∈ ps, TypeName p.2 := by
  induction params generalizing texts with
  | nil =>
    cases h
    exact ⟨[], .nil, rfl, nofun, nofun⟩
  | cons param params ih =>
    rw [List.forall_mem_cons] at hnames htypes
    rw [List.mapM_cons] at h
    obtain ⟨text, htext, h⟩ := Option.bind_eq_some_iff.1 h
    obtain ⟨others, hothers, h⟩ := Option.bind_eq_some_iff.1 h
    cases h
    obtain ⟨e, he, htext⟩ := Option.bind_eq_some_iff.1 htext
    obtain ⟨type, htype, htext⟩ := Option.bind_eq_some_iff.1 htext
    cases htext
    obtain ⟨ps, hps, hmap, hidentifiers, htypeNames⟩ := ih hothers hnames.2 htypes.2
    refine ⟨(e.name.toList, type.toList) :: ps, .cons ⟨e, type, he, htype, rfl⟩ hps, ?_,
      List.forall_mem_cons.2 ⟨hnames.1 e he, hidentifiers⟩,
      List.forall_mem_cons.2 ⟨htypes.1 type htype, htypeNames⟩⟩
    rw [List.map_cons, List.map_cons, hmap]
    simp [paramChars]

/-- The name of a signature is written of the names of its parts. -/
theorem WellNamed.exists_parts (hnamed : t.WellNamed params result)
    (h : t.signatureName? params result = some name) :
    ∃ ps r, List.Forall₂ t.HasParam params ps ∧ t.HasResult result r ∧
      name.toList = signatureChars ps r ∧
      (∀ p ∈ ps, Identifier p.1) ∧ (∀ p ∈ ps, TypeName p.2) ∧ ∀ x ∈ r, TypeName x := by
  unfold signatureName? at h
  obtain ⟨texts, htexts, h⟩ := Option.bind_eq_some_iff.1 h
  obtain ⟨type, htype, h⟩ := Option.bind_eq_some_iff.1 h
  obtain ⟨ps, hps, hmap, hidentifiers, htypeNames⟩ :=
    exists_params htexts hnamed.param hnamed.type
  by_cases hvoid : type = Builtin.void.handle
  · rw [if_pos hvoid] at h
    cases h
    rw [hvoid] at htype
    refine ⟨ps, none, hps, htype, ?_, hidentifiers, htypeNames, nofun⟩
    simp [signatureChars, String.toList_intercalate, hmap]
  · rw [if_neg hvoid] at h
    obtain ⟨text, htext, h⟩ := Option.bind_eq_some_iff.1 h
    cases h
    refine ⟨ps, some text.toList, hps, ⟨?_, text, htext, rfl⟩, ?_, hidentifiers, htypeNames, ?_⟩
    · rw [htype]
      exact fun heq => hvoid (Option.some.inj heq)
    · simp [signatureChars, String.toList_intercalate, hmap]
    · rintro x ⟨⟩
      exact hnamed.result text htext

/-- Its name is the name of a type. -/
theorem WellNamed.typeName (hnamed : t.WellNamed params result)
    (h : t.signatureName? params result = some name) : TypeName name.toList := by
  obtain ⟨ps, r, -, -, hname, hidentifiers, htypeNames, hresult⟩ := hnamed.exists_parts h
  rw [hname]
  exact .signature hidentifiers htypeNames hresult

/-- The parameters have the same name, and so do their types. -/
def SameParam (t t' : Tree) (p p' : EntityId) : Prop :=
  ∃ e e' type, t.entity? p = some e ∧ t'.entity? p' = some e' ∧ e.name = e'.name ∧
    t.typeName? p = some type ∧ t'.typeName? p' = some type

/-- Nothing is returned, or results of types with the same name. -/
def SameResult (t t' : Tree) (result result' : EntityId) : Prop :=
  t.entityType? result = some Builtin.void.handle ∧
      t'.entityType? result' = some Builtin.void.handle ∨
    t.entityType? result ≠ some Builtin.void.handle ∧
      t'.entityType? result' ≠ some Builtin.void.handle ∧
      ∃ type, t.typeName? result = some type ∧ t'.typeName? result' = some type

theorem sameParams {ps : List (List Char × List Char)} (h : List.Forall₂ t.HasParam params ps)
    (h' : List.Forall₂ t'.HasParam params' ps) : List.Forall₂ (t.SameParam t') params params' := by
  induction h generalizing params' with
  | nil =>
    cases h'
    exact .nil
  | cons hparam _ ih =>
    cases h' with
    | cons hparam' h' =>
      obtain ⟨e, type, he, htype, hp⟩ := hparam
      obtain ⟨e', type', he', htype', hp'⟩ := hparam'
      obtain ⟨hname, htypes⟩ := Prod.mk.inj (hp.symm.trans hp')
      refine .cons ⟨e, e', type, he, he', String.toList_inj.1 hname, htype, ?_⟩ (ih h')
      rw [htype', String.toList_inj.1 htypes]

theorem sameResult {r : Option (List Char)} (h : t.HasResult result r)
    (h' : t'.HasResult result' r) : t.SameResult t' result result' := by
  cases r with
  | none => exact .inl ⟨h, h'⟩
  | some r =>
    obtain ⟨hvalue, type, htype, hr⟩ := h
    obtain ⟨hvalue', type', htype', hr'⟩ := h'
    refine .inr ⟨hvalue, hvalue', type, htype, ?_⟩
    rw [htype', String.toList_inj.1 (hr.symm.trans hr')]

/-! ## Names in a tree that is read -/

/-- Variables are called by identifiers, and all entities by names of types. -/
def Titled (t : Tree) : Prop := ∀ id e, t.entity? id = some e →
  TypeName e.name.toList ∧ (e.isVar = true → Identifier e.name.toList)

namespace Titled

theorem congr (h : t.Titled) (hentities : t'.entities = t.entities) : t'.Titled := by
  intro id e he
  refine h id e ?_
  unfold Tree.entity? at he ⊢
  rwa [← hentities]

theorem pushEntity (h : t.Titled) {entity : Entity} (hname : TypeName entity.name.toList)
    (hvar : entity.isVar = true → Identifier entity.name.toList) :
    (t.pushEntity entity).2.Titled := by
  intro id e he
  rw [Tree.entity?_pushEntity] at he
  split at he
  · cases he
    exact ⟨hname, hvar⟩
  · exact h id e he

/-- Signatures of variables are well named. -/
theorem wellNamed (h : t.Titled)
    (hparams : ∀ p ∈ params, ∃ e, t.entity? p = some e ∧ e.isVar = true) (result : EntityId) :
    t.WellNamed params result := by
  have htype {id : EntityId} {type : String} (htype : t.typeName? id = some type) :
      TypeName type.toList := by
    obtain ⟨denoted, -, hname⟩ := Option.bind_eq_some_iff.1 htype
    obtain ⟨e, he, hname⟩ := Option.bind_eq_some_iff.1 hname
    cases hname
    exact (h _ e he).1
  refine ⟨fun p hp e he => ?_, fun p _ type => htype, fun type => htype⟩
  obtain ⟨e', he', hvar⟩ := hparams p hp
  cases he.symm.trans he'
  exact (h p e he).2 hvar

end Titled

end Tree

namespace Grammar

variable {s s' : State}

/-- Whatever is defined on a course is called by a name of the source, or by its signature. -/
theorem Course.titled (h : Course s s')
    (hnames : ∀ name, s.cursor.tokens.Names name → Identifier name.toList)
    (hs : s.tree.Titled) : s'.tree.Titled := by
  induction h with
  | refl => exact hs
  | trans h _ ih ih' => exact ih' (h.tokens ▸ hnames) (ih hnames hs)
  | still _ htree => exact htree ▸ hs
  | add => exact hs.congr rfl
  | @install s entity hname =>
    have hidentifier := hnames _ hname
    exact (hs.pushEntity (.identifier hidentifier) fun _ => hidentifier).congr rfl
  | within hopen _ hclose ih | house hopen _ hclose _ ih =>
    exact (ih (hopen.2.1 ▸ hnames) (hs.congr hopen.entities)).congr hclose.entities
  | @function s s₀ s₁ s₂ s₃ s₄ word name header params? result frame _ bodySpan params members tree
      span hheader _ hparams _ hword hname hnamed henter hbody hclose hbind ih ih' =>
    have hs₀ := ih hnames hs
    obtain ⟨f, hf, hfound⟩ := Option.bind_eq_some_iff.1 hparams
    have hvars : ∀ p ∈ params, ∃ e, s₀.tree.entity? p = some e ∧ e.isVar = true := fun p hp =>
      (((Tree.variablesAmong?_spec hfound).2 p).1 hp).2
    have hcanonical := (hs₀.wellNamed hvars result).typeName hname
    have hadded : (s₀.addEntity ⟨name, .function params result⟩).tree.Titled :=
      hs₀.pushEntity hcanonical nofun
    have hs₁ : s₁.tree.Titled := hadded.congr (by rw [hnamed]; rfl)
    have hs₂ := hs₁.congr (henter.entities.trans (State.bindNew_entities _ _ _))
    obtain ⟨_, htrail⟩ := @Trail.named _ _ _ _ name hnamed
    have htokens : s₂.cursor.tokens = s.cursor.tokens :=
      (htrail.snoc (.enters henter)).forward.tokens.trans hheader.tokens
    have hs₄ : s₄.tree.Titled := (ih' (htokens ▸ hnames) hs₂).congr hclose.entities
    obtain rfl := Tree.bindBody_ok hbind
    exact hs₄.congr rfl

theorem titled_withBuiltins : Tree.withBuiltins.Titled := by
  have hnames : ∀ e ∈ Tree.withBuiltins.entities, Lexicon.munch? e.name.toList =
      some (e.name.toList.length, .token .name) := by decide +kernel
  intro id e he
  have hidentifier : Identifier e.name.toList :=
    (Lexicon.word_of_munch? (hnames e (Array.mem_of_getElem? he))).described.identifier
  exact ⟨.identifier hidentifier, fun _ => hidentifier⟩

/-- The name of a signature can be read in one way only. If parameters are called by identifiers,
and all types by identifiers or names of such signatures, then signatures of one name, which is such
a name again, have as many parameters, of the same names and with types of the same names, and
return nothing or types of the same name. In a source that is accepted all signatures of variables
are so. -/
theorem signature_names_unambiguous :
    (∀ (t t' : Tree) (params params' : List EntityId) (result result' : EntityId) (name : String),
      t.WellNamed params result → t'.WellNamed params' result' →
      t.signatureName? params result = some name → t'.signatureName? params' result' = some name →
      TypeName name.toList ∧
        List.Forall₂ (t.SameParam t') params params' ∧ t.SameResult t' result result') ∧
    ∀ (source : String) (tree : Tree), parseSource source = .ok tree →
      ∀ (params : List EntityId) (result : EntityId),
        (∀ p ∈ params, ∃ e, tree.entity? p = some e ∧ e.isVar = true) →
        tree.WellNamed params result := by
  constructor
  · intro t t' params params' result result' name hnamed hnamed' h h'
    obtain ⟨ps, r, hps, hr, hchars, hnames, htypes, hresult⟩ := hnamed.exists_parts h
    obtain ⟨ps', r', hps', hr', hchars', hnames', htypes', hresult'⟩ := hnamed'.exists_parts h'
    obtain ⟨rfl, rfl⟩ := signatureChars_inj hnames htypes hresult hnames' htypes' hresult'
      (hchars.symm.trans hchars')
    exact ⟨hnamed.typeName h, Tree.sameParams hps hps', Tree.sameResult hr hr'⟩
  · intro source tree h params result hparams
    obtain ⟨tokens, htokens, hparse⟩ := parseSource_ok h
    obtain ⟨s, members, span, hcourse, -, htree⟩ := course_of_parse hparse
    have htitled : s.tree.Titled :=
      hcourse.titled (fun _ => Lexicon.identifier_of_tokenize htokens) titled_withBuiltins
    have hentities : tree.entities = s.tree.entities := by
      rw [htree]
      rfl
    exact (htitled.congr hentities).wellNamed hparams result

/-- Two functions that take a function and return one. -/
def nestedSignatures : String :=
  "f :: (n : s32) \x7b \x7d\ng :: (h : f) -> f \x7b \x7d\nk :: (h : f) -> f \x7b \x7d\n"

/-- Both are called by the name in which that of the inner signature stands twice. -/
theorem signature_names_unambiguous_nested : ∃ tree, parseSource nestedSignatures = .ok tree ∧
    tree.signatureName? [⟨18⟩] ⟨17⟩ = some "(h: (n: s32)) -> (n: s32)" ∧
    tree.signatureName? [⟨20⟩] ⟨17⟩ = some "(h: (n: s32)) -> (n: s32)" ∧
    List.Forall₂ (tree.SameParam tree) [⟨18⟩] [⟨20⟩] ∧ tree.SameResult tree ⟨17⟩ ⟨17⟩ := by
  have hrun : (parseSource nestedSignatures).toOption.any (fun tree =>
      decide (tree.signatureName? [⟨18⟩] ⟨17⟩ = some "(h: (n: s32)) -> (n: s32)" ∧
        tree.signatureName? [⟨20⟩] ⟨17⟩ = some "(h: (n: s32)) -> (n: s32)" ∧
        (tree.entity? ⟨18⟩).map Entity.isVar = some true ∧
        (tree.entity? ⟨20⟩).map Entity.isVar = some true)) = true := by
    decide +kernel
  obtain ⟨tree, hparse, hcheck⟩ := exists_parse hrun
  obtain ⟨hname, hname', hvar, hvar'⟩ := of_decide_eq_true hcheck
  have hvars {p : EntityId} (hvar : (tree.entity? p).map Entity.isVar = some true) :
      ∀ q ∈ [p], ∃ e, tree.entity? q = some e ∧ e.isVar = true := by
    intro q hq
    rw [List.mem_singleton.1 hq]
    exact Option.map_eq_some_iff.1 hvar
  obtain ⟨-, hparams, hresult⟩ := signature_names_unambiguous.1 tree tree [⟨18⟩] [⟨20⟩] ⟨17⟩ ⟨17⟩ _
    (signature_names_unambiguous.2 _ _ hparse _ _ (hvars hvar))
    (signature_names_unambiguous.2 _ _ hparse _ _ (hvars hvar')) hname hname'
  exact ⟨tree, hparse, hname, hname', hparams, hresult⟩

end Grammar

end OnePass

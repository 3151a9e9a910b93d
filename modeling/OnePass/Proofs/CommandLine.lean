import Mathlib.Data.List.Induction
import OnePass.Options

/-!
# The order of arguments

Whether something is wrong with an argument depends on the arguments before it only in that there
is one path (`Options.objection?`). The first argument with which something is wrong decides what is
reported, and if there is none, the arguments say the same in any order (`options_order_free`).

What has been read of the arguments before is in the three values that reading hands on (`Taken`).
An argument with which nothing is wrong changes them (`Taken.step`) and any other one ends the
reading (`Taken.refuses`), so that arguments without objections are passed through
(`Unobjected.run`).
-/

namespace OnePass.Options

variable {arguments before : List String} {argument : String} {path : Option String}
  {frames quiet : Bool} {o : Options} {e : OptionsError}

/-! ## Objections -/

/-- What may stand anywhere, and as often as one likes. -/
def flags : List String := ["--frames", "-q", "--quiet"]

/-- What asks for help. -/
def helpFlags : List String := ["-h", "--help"]

/-- The argument begins with a dash. -/
def dashed (argument : String) : Bool := argument.toList.head? = some '-'

/-- The arguments without a dash. -/
def paths (arguments : List String) : List String := arguments.filter (!dashed ·)

/-- What is wrong with an argument after some others. -/
def objection? (before : List String) (argument : String) : Option OptionsError :=
  if argument ∈ helpFlags then some .help
  else if dashed argument then
    if argument ∈ flags then none else some (.unknownOption argument)
  else if paths before = [] then none
  else some (.unexpected argument)

/-- Nothing is wrong with any of the arguments. -/
def Unobjected (arguments : List String) : Prop :=
  ∀ before argument after, arguments = before ++ argument :: after →
    objection? before argument = none

/-- The first argument with which something is wrong. -/
def FirstObjection (arguments : List String) (e : OptionsError) : Prop :=
  ∃ before argument after, arguments = before ++ argument :: after ∧ Unobjected before ∧
    objection? before argument = some e

theorem unobjected_nil : Unobjected [] := by
  intro before argument after h
  simp at h

theorem unobjected_concat :
    Unobjected (before ++ [argument]) ↔ Unobjected before ∧ objection? before argument = none := by
  constructor
  · intro h
    refine ⟨?_, h _ _ [] rfl⟩
    rintro front x back rfl
    exact h front x (back ++ [argument]) (by simp)
  · rintro ⟨hbefore, hlast⟩ front x back h
    rcases List.eq_nil_or_concat back with rfl | ⟨middle, y, rfl⟩
    · obtain ⟨rfl, hx⟩ := List.append_inj' h rfl
      cases hx
      exact hlast
    · have h' : before ++ [argument] = (front ++ x :: middle) ++ [y] := by simpa using h
      obtain ⟨rfl, -⟩ := List.append_inj' h' rfl
      exact hbefore front x middle rfl

theorem FirstObjection.append (h : FirstObjection before e) (more : List String) :
    FirstObjection (before ++ more) e := by
  obtain ⟨front, x, back, rfl, hfront, hx⟩ := h
  exact ⟨front, x, back ++ more, by simp, hfront, hx⟩

/-- Something is wrong with a first argument or with none. -/
theorem unobjected_or_first (arguments : List String) :
    Unobjected arguments ∨ ∃ e, FirstObjection arguments e := by
  induction arguments using List.reverseRecOn with
  | nil => exact .inl unobjected_nil
  | append_singleton before argument ih =>
    rcases ih with hbefore | ⟨e, hfirst⟩
    · cases hobjection : objection? before argument with
      | none => exact .inl (unobjected_concat.2 ⟨hbefore, hobjection⟩)
      | some e => exact .inr ⟨e, before, argument, [], rfl, hbefore, hobjection⟩
    · exact .inr ⟨e, hfirst.append _⟩

theorem paths_concat : paths (before ++ [argument]) =
    paths before ++ if dashed argument then [] else [argument] := by
  unfold paths
  rw [List.filter_append]
  cases hdashed : dashed argument <;> simp [hdashed]

theorem dashed_of_mem_helpFlags (h : argument ∈ helpFlags) :
    dashed argument = true ∧ argument ∉ flags := by
  have hall : ∀ a ∈ helpFlags, dashed a = true ∧ a ∉ flags := by decide +kernel
  exact hall argument h

theorem dashed_of_mem_flags (h : argument ∈ flags) :
    dashed argument = true ∧ argument ∉ helpFlags := by
  have hall : ∀ a ∈ flags, dashed a = true ∧ a ∉ helpFlags := by decide +kernel
  exact hall argument h

/-- Nothing is wrong with a flag, nor with the first path. -/
theorem objection?_eq_none_iff : objection? before argument = none ↔
    if dashed argument then argument ∈ flags else paths before = [] := by
  unfold objection?
  by_cases hhelp : argument ∈ helpFlags
  · obtain ⟨hdashed, hflag⟩ := dashed_of_mem_helpFlags hhelp
    simp [hhelp, hdashed, hflag]
  · cases hdashed : dashed argument <;> simp [hhelp]

/-- Nothing is wrong if all that begins with a dash are flags and there is one path at most. -/
theorem unobjected_iff : Unobjected arguments ↔
    (∀ a ∈ arguments, dashed a = true → a ∈ flags) ∧ (paths arguments).length ≤ 1 := by
  induction arguments using List.reverseRecOn with
  | nil => simp [unobjected_nil, paths]
  | append_singleton before argument ih =>
    rw [unobjected_concat, ih, objection?_eq_none_iff, paths_concat]
    cases hdashed : dashed argument with
    | true => simp [or_imp, forall_and, hdashed, and_right_comm]
    | false =>
      simp only [Bool.false_eq_true, if_false, List.length_append, List.length_singleton,
        List.mem_append, List.mem_singleton, or_imp, forall_and, forall_eq, hdashed,
        false_imp_iff, and_true, ← List.length_eq_zero_iff, and_assoc]
      exact and_congr_right fun _ => by omega

/-! ## Reading -/

/-- What the values that reading hands on say of the arguments read. -/
structure Taken (before : List String) (path : Option String) (frames quiet : Bool) : Prop where
  path : paths before = path.toList
  frames : frames = true ↔ "--frames" ∈ before
  quiet : quiet = true ↔ "-q" ∈ before ∨ "--quiet" ∈ before

theorem taken_nil : Taken [] none false false := ⟨rfl, by simp, by simp⟩

/-- An argument with which nothing is wrong is taken. -/
theorem Taken.step (h : Taken before path frames quiet)
    (hnone : objection? before argument = none) :
    ∃ path' frames' quiet', Taken (before ++ [argument]) path' frames' quiet' ∧ ∀ rest,
      parseFrom path frames quiet (argument :: rest) = parseFrom path' frames' quiet' rest := by
  rw [objection?_eq_none_iff] at hnone
  cases hdashed : dashed argument with
  | true =>
    rw [hdashed, if_pos rfl] at hnone
    have hpaths : paths (before ++ [argument]) = path.toList := by
      rw [paths_concat, hdashed, if_pos rfl, List.append_nil, h.path]
    simp only [flags, List.mem_cons, List.not_mem_nil, or_false] at hnone
    rcases hnone with rfl | rfl | rfl
    · exact ⟨path, true, quiet, ⟨hpaths, by simp, by simp [h.quiet]⟩, fun rest => rfl⟩
    · exact ⟨path, frames, true, ⟨hpaths, by simp [h.frames], by simp⟩, fun rest => rfl⟩
    · exact ⟨path, frames, true, ⟨hpaths, by simp [h.frames], by simp⟩, fun rest => rfl⟩
  | false =>
    -- a path, and the first one
    rw [hdashed, if_neg Bool.false_ne_true, h.path] at hnone
    obtain rfl : path = none := by simpa using hnone
    have hother (a : String) (ha : dashed a = true) : argument ≠ a := by
      rintro rfl
      exact Bool.false_ne_true (hdashed.symm.trans ha)
    have hframes := hother "--frames" (by decide +kernel)
    have hq := hother "-q" (by decide +kernel)
    have hquiet := hother "--quiet" (by decide +kernel)
    have hh := hother "-h" (by decide +kernel)
    have hhelp := hother "--help" (by decide +kernel)
    refine ⟨some argument, frames, quiet, ⟨?_, ?_, ?_⟩, fun rest => ?_⟩
    · rw [paths_concat, hdashed, h.path]
      rfl
    · simp [h.frames, hframes.symm]
    · simp [h.quiet, hq.symm, hquiet.symm]
    · have hhead : argument.toList.head? ≠ some '-' := of_decide_eq_false hdashed
      rw [parseFrom, if_neg (by simp [hh, hhelp]), if_neg hframes, if_neg (by simp [hq, hquiet]),
        if_neg hhead]
      rfl

/-- An argument with which something is wrong ends the reading. -/
theorem Taken.refuses (h : Taken before path frames quiet)
    (hobjection : objection? before argument = some e) (rest : List String) :
    parseFrom path frames quiet (argument :: rest) = .error e := by
  unfold objection? at hobjection
  rw [parseFrom]
  split at hobjection
  · rename_i hhelp
    cases hobjection
    exact if_pos (by simpa [helpFlags] using hhelp)
  · rename_i hhelp
    rw [if_neg (by simpa [helpFlags] using hhelp)]
    split at hobjection
    · rename_i hdashed
      split at hobjection
      · cases hobjection
      · rename_i hflag
        cases hobjection
        simp only [flags, List.mem_cons, List.not_mem_nil, or_false, not_or] at hflag
        rw [if_neg hflag.1, if_neg (by simp [hflag]), if_pos (of_decide_eq_true hdashed)]
    · rename_i hdashed
      split at hobjection
      · cases hobjection
      · rename_i hpaths
        cases hobjection
        have hflag : argument ∉ flags := fun hflag => hdashed (dashed_of_mem_flags hflag).1
        simp only [flags, List.mem_cons, List.not_mem_nil, or_false, not_or] at hflag
        have hhead : argument.toList.head? ≠ some '-' := fun hhead => hdashed (decide_eq_true hhead)
        have hsome : path.isSome = true := by
          rw [h.path] at hpaths
          cases path with
          | none => exact absurd rfl hpaths
          | some => rfl
        rw [if_neg hflag.1, if_neg (by simp [hflag]), if_neg hhead, if_pos hsome]

/-- Arguments without objections are passed through. -/
theorem Unobjected.run (h : Unobjected arguments) :
    ∃ path frames quiet, Taken arguments path frames quiet ∧
      ∀ rest, parse (arguments ++ rest) = parseFrom path frames quiet rest := by
  induction arguments using List.reverseRecOn with
  | nil => exact ⟨none, false, false, taken_nil, fun rest => rfl⟩
  | append_singleton before argument ih =>
    obtain ⟨hbefore, hlast⟩ := unobjected_concat.1 h
    obtain ⟨path, frames, quiet, htaken, hrun⟩ := ih hbefore
    obtain ⟨path', frames', quiet', htaken', hstep⟩ := htaken.step hlast
    refine ⟨path', frames', quiet', htaken', fun rest => ?_⟩
    rw [List.append_assoc, hrun]
    exact hstep rest

/-- The first argument with which something is wrong is reported. -/
theorem FirstObjection.parse_eq (h : FirstObjection arguments e) : parse arguments = .error e := by
  obtain ⟨before, argument, after, rfl, hbefore, hobjection⟩ := h
  obtain ⟨path, frames, quiet, htaken, hrun⟩ := hbefore.run
  rw [hrun]
  exact htaken.refuses hobjection after

/-- Without objections the path is missing, or the options are those that the arguments give. -/
theorem Unobjected.parse_cases (h : Unobjected arguments) :
    paths arguments = [] ∧ parse arguments = .error .missingPath ∨
      ∃ o, parse arguments = .ok o ∧ paths arguments = [o.path] ∧
        (o.frames = true ↔ "--frames" ∈ arguments) ∧
        (o.quiet = true ↔ "-q" ∈ arguments ∨ "--quiet" ∈ arguments) := by
  obtain ⟨path, frames, quiet, htaken, hrun⟩ := h.run
  have hparse := hrun []
  rw [List.append_nil] at hparse
  cases path with
  | none => exact .inl ⟨htaken.path, hparse⟩
  | some path => exact .inr ⟨_, hparse, htaken.path, htaken.frames, htaken.quiet⟩

/-- What options come of is without objections, and says what they are. -/
theorem unobjected_of_parse (h : parse arguments = .ok o) :
    Unobjected arguments ∧ paths arguments = [o.path] ∧
      (o.frames = true ↔ "--frames" ∈ arguments) ∧
      (o.quiet = true ↔ "-q" ∈ arguments ∨ "--quiet" ∈ arguments) := by
  rcases unobjected_or_first arguments with hclean | ⟨e, hfirst⟩
  · rcases hclean.parse_cases with ⟨-, hmissing⟩ | ⟨o', hparse, hsays⟩
    · cases h.symm.trans hmissing
    · cases h.symm.trans hparse
      exact ⟨hclean, hsays⟩
  · cases h.symm.trans hfirst.parse_eq

/-- What arguments say does not depend on their order. -/
theorem parse_perm {arguments' : List String} (hperm : arguments.Perm arguments')
    (h : parse arguments = .ok o) : parse arguments' = .ok o := by
  obtain ⟨hclean, hpath, hframes, hquiet⟩ := unobjected_of_parse h
  obtain ⟨hflags, hone⟩ := unobjected_iff.1 hclean
  have hpaths : (paths arguments).Perm (paths arguments') := hperm.filter _
  have hclean' : Unobjected arguments' :=
    unobjected_iff.2 ⟨fun a ha => hflags a (hperm.mem_iff.2 ha), hpaths.length_eq ▸ hone⟩
  rw [hpath] at hpaths
  have hpath' : paths arguments' = [o.path] := List.perm_singleton.1 hpaths.symm
  rcases hclean'.parse_cases with ⟨hnone, -⟩ | ⟨o', hparse, hsame, hframes', hquiet'⟩
  · cases hnone.symm.trans hpath'
  · obtain ⟨path, frames, quiet⟩ := o
    obtain ⟨path', frames', quiet'⟩ := o'
    obtain rfl : path' = path := (List.cons.inj (hsame.symm.trans hpath')).1
    obtain rfl : frames' = frames :=
      Bool.eq_iff_iff.2 (hframes'.trans (hperm.mem_iff.symm.trans hframes.symm))
    have hflag : ∀ a, a ∈ arguments ↔ a ∈ arguments' := fun _ => hperm.mem_iff
    rw [hflag, hflag, ← hquiet'] at hquiet
    obtain rfl : quiet' = quiet := Bool.eq_iff_iff.2 hquiet.symm
    exact hparse

/-- Arguments give options just if all of them that begin with a dash are flags and one of them
does not, which is the path; the flags that occur are set, whatever the order. Otherwise the first
argument that asks for help, is no flag or is a second path is reported, and if there is none, that
the path is missing. -/
theorem options_order_free (arguments : List String) :
    ((∃ o, parse arguments = .ok o) ↔
      (∀ a ∈ arguments, dashed a = true → a ∈ flags) ∧ ∃ path, paths arguments = [path]) ∧
    (∀ o, parse arguments = .ok o → paths arguments = [o.path] ∧
      (o.frames = true ↔ "--frames" ∈ arguments) ∧
      (o.quiet = true ↔ "-q" ∈ arguments ∨ "--quiet" ∈ arguments) ∧
      ∀ arguments', arguments.Perm arguments' → parse arguments' = .ok o) ∧
    ∀ e, parse arguments = .error e ↔
      FirstObjection arguments e ∨
        Unobjected arguments ∧ paths arguments = [] ∧ e = .missingPath := by
  refine ⟨⟨?_, ?_⟩, ?_, fun e => ⟨?_, ?_⟩⟩
  · rintro ⟨o, h⟩
    obtain ⟨hclean, hpath, -⟩ := unobjected_of_parse h
    exact ⟨(unobjected_iff.1 hclean).1, _, hpath⟩
  · rintro ⟨hflags, path, hpath⟩
    have hclean : Unobjected arguments := unobjected_iff.2 ⟨hflags, by rw [hpath]; simp⟩
    rcases hclean.parse_cases with ⟨hnone, -⟩ | ⟨o, hparse, -⟩
    · cases hnone.symm.trans hpath
    · exact ⟨o, hparse⟩
  · intro o h
    obtain ⟨-, hpath, hframes, hquiet⟩ := unobjected_of_parse h
    exact ⟨hpath, hframes, hquiet, fun _ hperm => parse_perm hperm h⟩
  · intro h
    rcases unobjected_or_first arguments with hclean | ⟨e', hfirst⟩
    · rcases hclean.parse_cases with ⟨hnone, hmissing⟩ | ⟨o, hparse, -⟩
      · cases h.symm.trans hmissing
        exact .inr ⟨hclean, hnone, rfl⟩
      · cases h.symm.trans hparse
    · cases h.symm.trans hfirst.parse_eq
      exact .inl hfirst
  · rintro (hfirst | ⟨hclean, hnone, rfl⟩)
    · exact hfirst.parse_eq
    · rcases hclean.parse_cases with ⟨-, hmissing⟩ | ⟨o, -, hpath, -⟩
      · exact hmissing
      · cases hnone.symm.trans hpath

/-- Flags before and after the path, and a second path before a call for help. -/
theorem options_order_free_mixed :
    parse ["-q", "main.bee", "--frames"] = .ok ⟨"main.bee", true, true⟩ ∧
      parse ["a", "b", "--help"] = .error (.unexpected "b") := by
  constructor
  · have hsorted : parse ["main.bee", "--frames", "-q"] = .ok ⟨"main.bee", true, true⟩ := rfl
    refine ((options_order_free _).2.1 _ hsorted).2.2.2 _ ?_
    decide
  · refine ((options_order_free _).2.2 _).2 (.inl ⟨["a"], "b", ["--help"], rfl, ?_, ?_⟩)
    · exact unobjected_iff.2 (by decide +kernel)
    · decide +kernel

end OnePass.Options

import OnePass.Proofs.Couplings

/-!
# Readings that follow one another

A reading that answers is followed by another one: as long as their cursors are abreast, the second
one answers the same. It may be lost on the way, and then nothing is said of the second one. What it
takes of the cursors to be abreast, or lost, is left open (`Tracks`). That one reading leads another
one (`Leads`) is a coupling (`leading`), so that Proofs/Parallel applies to it. Faults say nothing
here, and a reading has to answer to lead another one.
-/

namespace OnePass.Grammar

variable {α β : Type} {P : Places}

/-- When two cursors are abreast, and when the first one is lost. It is held up if it counts as lost
only for readings that have to end in good order. -/
structure Tracks (P : Places) where
  Abreast : Cursor → Cursor → Prop
  /-- For readings that may end held up (`true`), or that may not (`false`). -/
  Lost : Bool → Cursor → Prop
  weaken : ∀ {c}, Lost false c → Lost true c
  place : ∀ {c c'}, Abreast c c' → P.alike c.current.span c'.current.span
  previous : ∀ {c c'}, Abreast c c' → P.alike c.previousSpan c'.previousSpan
  atEnd : ∀ {c c'}, Abreast c c' → c'.atEnd = c.atEnd
  isAt : ∀ {c c'} {wanted : TokenSet}, wanted.Impartial → Abreast c c' →
    c'.isAt wanted = c.isAt wanted
  isAtAny : ∀ {c c'} {wanted : TokenSet}, Abreast c c' →
    Lost true c ∨ c'.isAt wanted = c.isAt wanted
  isAtFree : ∀ {u c} {wanted : TokenSet}, wanted.Free → Lost u c → c.isAt wanted = true →
    Lost false c
  advance : ∀ {c c'} {wanted : TokenSet}, Abreast c c' → c.isAt wanted = true →
    Lost false c.advance ∨
      c'.isAt wanted = true ∧ c.current.Alike P c'.current ∧ Abreast c.advance c'.advance
  advanceLost : ∀ {u c} {wanted : TokenSet}, Lost u c → c.isAt wanted = true →
    Lost false c.advance
  newlines : ∀ {c c'}, Abreast c c' →
    Lost true (c.skip {.newline}) ∨ Abreast (c.skip {.newline}) (c'.skip {.newline})
  newlinesLost : ∀ {c}, Lost true c → Lost true (c.skip {.newline})

variable {K : Tracks P} {u v w : Bool} {s s' : State} {x y : Parse α}

theorem Tracks.Lost.mono {c : Cursor} (h : K.Lost u c) (huv : u = true → v = true) :
    K.Lost v c := by
  cases u with
  | false =>
    cases v with
    | false => exact h
    | true => exact K.weaken h
  | true =>
    obtain rfl := huv rfl
    exact h

/-- Two states that are alike, with cursors that are abreast. -/
structure Tracks.Follows (K : Tracks P) (s s' : State) : Prop where
  cursor : K.Abreast s.cursor s'.cursor
  tree : s.tree.Alike P s'.tree
  constructs : s'.constructs = s.constructs

/-- Where the first part answers, the second one answers the same, unless the first one is lost. -/
structure Leads (K : Tracks P) (u v : Bool) (x y : Parse α) : Prop where
  lost : ∀ {s a s₁}, K.Lost u s.cursor → x s = .ok a s₁ → K.Lost v s₁.cursor
  follows : ∀ {s s' a s₁}, K.Follows s s' → x s = .ok a s₁ →
    K.Lost v s₁.cursor ∨ ∃ s₁', y s' = .ok a s₁' ∧ K.Follows s₁ s₁'

/-! ## Parts that are put together -/

theorem leads_weaken {u' v' : Bool} (h : Leads K u v x y) (hu : u' = true → u = true)
    (hv : v = true → v' = true) : Leads K u' v' x y where
  lost hlost hrun := (h.lost (hlost.mono hu) hrun).mono hv
  follows hs hrun := (h.follows hs hrun).imp_left (·.mono hv)

theorem leads_of_fails (h : Fails x) : Leads K u v x y := by
  have hrun {s a s₁} : x s ≠ .ok a s₁ := by
    obtain ⟨fault, s', hfault⟩ := h s
    rw [hfault]
    nofun
  exact ⟨fun _ h => absurd h hrun, fun _ h => absurd h hrun⟩

theorem leads_bind {x y : Parse β} {f g : β → Parse α} (hx : Leads K u w x y)
    (hf : ∀ b, Leads K w v (f b) (g b)) : Leads K u v (x >>= f) (y >>= g) where
  lost hlost hrun := by
    obtain ⟨b, s₁, hfirst, hrest⟩ := bind_ok.1 hrun
    exact (hf b).lost (hx.lost hlost hfirst) hrest
  follows hs hrun := by
    obtain ⟨b, s₁, hfirst, hrest⟩ := bind_ok.1 hrun
    rcases hx.follows hs hfirst with hlost | ⟨s₁', hfirst', hs₁⟩
    · exact .inl ((hf b).lost hlost hrest)
    · rw [bind_eq hfirst']
      exact (hf b).follows hs₁ hrest

theorem leads_still (h : Still P x y) : Leads K u u x y where
  lost {s a s₁} hlost hrun := by
    have hstays := h.stays s
    rw [hrun] at hstays
    rwa [show s₁.cursor = s.cursor from hstays]
  follows {s s' a s₁} hs hrun := by
    have hstays := h.stays s
    have hagree := h.agree hs.tree hs.constructs
    rw [hrun] at hstays hagree
    obtain ⟨s₁', hrun', hcursor', htree, hconstructs⟩ := hagree
    refine .inr ⟨s₁', hrun', ?_, htree, hconstructs⟩
    rw [show s₁.cursor = s.cursor from hstays, hcursor']
    exact hs.cursor

/-! ## Questions -/

/-- A question about states to which both have answers that correspond. -/
theorem leads_part {γ : Type} {R : γ → γ → Prop} {q : State → γ} {f g : γ → Parse α}
    (hR : ∀ c, ∃ c', R c c') (hq : ∀ {s s'}, K.Follows s s' → R (q s) (q s'))
    (hf : ∀ {c c'}, R c c' → Leads K u v (f c) (g c')) :
    Leads K u v (get >>= fun s => f (q s)) (get >>= fun s => g (q s)) where
  lost {s _ _} hlost hrun := by
    obtain ⟨c', hc'⟩ := hR (q s)
    exact (hf hc').lost hlost hrun
  follows hs hrun := (hf (hq hs)).follows hs hrun

/-- A question about states that has the same answer for both. -/
theorem leads_ask {q : State → β} {f g : β → Parse α} (hq : ∀ {s s'}, K.Follows s s' → q s' = q s)
    (hf : ∀ b, Leads K u v (f b) (g b)) :
    Leads K u v (get >>= fun s => f (q s)) (get >>= fun s => g (q s)) := by
  refine leads_part (R := fun b b' => b' = b) (fun b => ⟨b, rfl⟩) hq ?_
  rintro b _ rfl
  exact hf _

section

variable {wanted : TokenSet}

theorem leads_isAtAny {f g : Bool → Parse α} (hf : ∀ b, Leads K true true (f b) (g b)) :
    Leads K u true (isAt wanted >>= f) (isAt wanted >>= g) where
  lost {s _ _} hlost hrun := (hf (s.cursor.isAt wanted)).lost (hlost.mono fun _ => rfl) hrun
  follows {s s' a s₁} hs hrun := by
    have hat : K.Lost true s.cursor ∨ s'.cursor.isAt wanted = s.cursor.isAt wanted :=
      K.isAtAny hs.cursor
    rcases hat with hlost | hsame
    · exact .inl ((hf _).lost hlost hrun)
    · rw [isAt_bind, hsame]
      exact (hf _).follows hs hrun

theorem leads_isAtFree {f g : Bool → Parse α} (hwanted : wanted.Free)
    (htrue : Leads K false v (f true) (g true)) (hfalse : Leads K u v (f false) (g false)) :
    Leads K u v (isAt wanted >>= f) (isAt wanted >>= g) where
  lost {s _ _} hlost hrun := by
    rw [isAt_bind] at hrun
    cases hat : s.cursor.isAt wanted with
    | true =>
      rw [hat] at hrun
      exact htrue.lost (K.isAtFree hwanted hlost hat) hrun
    | false =>
      rw [hat] at hrun
      exact hfalse.lost hlost hrun
  follows {s s' a s₁} hs hrun := by
    rw [isAt_bind] at hrun
    rw [isAt_bind, K.isAt hwanted.impartial hs.cursor]
    cases hat : s.cursor.isAt wanted with
    | true =>
      rw [hat] at hrun
      exact htrue.follows hs hrun
    | false =>
      rw [hat] at hrun
      exact hfalse.follows hs hrun

/-! ## Reading tokens -/

/-- Where no token is read, the first part fails or both see that there is none. -/
theorem leads_accept {f g : Option Token → Parse α}
    (hsome : ∀ {token token'}, token.Alike P token' →
      Leads K false v (f (some token)) (g (some token')))
    (hnone : Leads K u v (f none) (g none)) (h : wanted.Free ∨ Fails (f none)) :
    Leads K u v (accept? wanted >>= f) (accept? wanted >>= g) where
  lost {s _ _} hlost hrun := by
    rcases accept?_bind.1 hrun with ⟨hat, hrest⟩ | ⟨-, hrest⟩
    · obtain ⟨token', htoken⟩ := s.cursor.current.exists_alike P
      exact (hsome htoken).lost (K.advanceLost hlost hat) hrest
    · exact hnone.lost hlost hrest
  follows {s s' a s₁} hs hrun := by
    rcases accept?_bind.1 hrun with ⟨hat, hrest⟩ | ⟨hat, hrest⟩
    · rcases K.advance hs.cursor hat with hlost | ⟨hat', htoken, hadvance⟩
      · obtain ⟨token', htoken⟩ := s.cursor.current.exists_alike P
        exact .inl ((hsome htoken).lost hlost hrest)
      · have haccept : accept? wanted s' = .ok (some s'.cursor.current) s'.next := by
          rw [accept?_run, if_pos hat']
        have hnext : K.Follows s.next s'.next := ⟨hadvance, hs.tree, hs.constructs⟩
        rw [bind_eq haccept]
        exact (hsome htoken).follows hnext hrest
    · rcases h with hfree | hfails
      · have haccept : accept? wanted s' = .ok none s' := by
          rw [accept?_run, K.isAt hfree.impartial hs.cursor, hat]
          rfl
        rw [bind_eq haccept]
        exact hnone.follows hs hrest
      · obtain ⟨fault, s₂, hfault⟩ := hfails s
        rw [hfault] at hrest
        cases hrest

theorem leads_skipNewlines : Leads K u true skipNewlines skipNewlines where
  lost {s a s₁} hlost hrun := by
    have hskip : skipNewlines s = .ok () (s.past {.newline}) := rfl
    rw [hskip] at hrun
    cases hrun
    exact K.newlinesLost (hlost.mono fun _ => rfl)
  follows {s s' a s₁} hs hrun := by
    have hskip : skipNewlines s = .ok () (s.past {.newline}) := rfl
    rw [hskip] at hrun
    cases hrun
    exact (K.newlines hs.cursor).imp_right fun habreast =>
      ⟨s'.past {.newline}, rfl, habreast, hs.tree, hs.constructs⟩

end

/-! ## The coupling -/

/-- Readings that lead others. -/
def leading (K : Tracks P) : Coupling P where
  Rel u v x y := Leads K u v x y
  weaken := leads_weaken
  still := leads_still
  bind := leads_bind
  fail _ := leads_of_fails fails_fail
  excluded _ := leads_of_fails fun _ => ⟨_, _, rfl⟩
  part hR hq hf := leads_part hR (fun hs => hq hs.tree) hf
  constructs hf := leads_ask (fun hs => congrArg _ hs.constructs) hf
  place hf := leads_part (R := fun token token' => P.alike token.span token'.span)
    (fun token => (Token.exists_alike P token).imp fun _ h => h.span)
    (fun hs => K.place hs.cursor) hf
  previousSpan hf := leads_part P.total (fun hs => K.previous hs.cursor) hf
  blame hfails _ := leads_of_fails (.after hfails)
  atEnd hf := leads_ask (q := fun s => s.cursor.atEnd) (fun hs => K.atEnd hs.cursor) hf
  isAt hwanted hf := leads_ask (q := fun s => s.cursor.isAt _)
    (fun hs => K.isAt hwanted hs.cursor) hf
  isAtAny := leads_isAtAny
  isAtFree := leads_isAtFree
  accept hwanted hsome hnone := leads_accept hsome hnone (.inl hwanted)
  expect hfails hsome hnone := leads_accept hsome hnone (.inr hfails)
  skipNewlines := leads_skipNewlines

end OnePass.Grammar

import OnePass.Proofs.Couplings

/-!
# Two readings at once

Two lists of tokens that are alike up to some place are read alike up to that place. `Twin`
says that two parts of a reading, begun in states that are alike, answer the same or end with
the same cause, as long as the first of them does not pass the place. The parts also never move
back, since a part that is followed by another has to end before the place if the other one
does.

Twins are a coupling (`twins`). Up to the place the two readings see the same separators, so that
neither is ever held up.
-/

namespace OnePass

variable {P : Places} {k : Nat}

/-- The tokens at the first places, up to place `k`, are alike. -/
def TokenList.Alike (P : Places) (k : Nat) (tokens tokens' : TokenList) : Prop :=
  ∀ i ≤ k, (tokens.get i).Alike P (tokens'.get i)

/-! ## Skipping -/

/-- All tokens from place `i` up to place `e` are wanted, and that at `e` is not. -/
structure TokenList.Stretch (tokens : TokenList) (wanted : TokenSet) (i e : Nat) : Prop where
  le : i ≤ e
  past : ∀ j, i ≤ j → j < e → wanted.contains (tokens.get j).kind = true
  stop : wanted.contains (tokens.get e).kind = false

namespace Cursor

/-- All tokens that are skipped are wanted. -/
theorem skipWithin_passes {wanted : TokenSet} {steps i : Nat} {c : Cursor}
    (hi : c.position ≤ i) (hlt : i < (skipWithin wanted steps c).position) :
    wanted.contains (c.tokens.get i).kind = true := by
  induction steps generalizing c with
  | zero => exact absurd hlt (Nat.not_lt.2 hi)
  | succ steps ih =>
    unfold skipWithin at hlt
    split at hlt
    · rename_i hat
      have htokens : c.advance.tokens = c.tokens := forward_advance.tokens
      rcases Nat.eq_or_lt_of_le hi with rfl | hi
      · exact hat
      · have hadvance : c.advance.position ≤ c.position + 1 := by
          unfold Cursor.advance
          split
          · exact Nat.le_succ _
          · exact Nat.le_refl _
        rw [← htokens]
        exact ih (by omega) hlt
    · exact absurd hlt (Nat.not_lt.2 hi)

/-- What is skipped is a stretch of wanted tokens. -/
theorem Closed.stretch_skip {wanted : TokenSet} {c : Cursor} (h : c.Closed)
    (heof : wanted.contains .eof = false) :
    c.tokens.Stretch wanted c.position (c.skip wanted).position := by
  have hforward : c.Forward (c.skip wanted) := forward_skip
  refine ⟨hforward.position, fun _ hi hlt => skipWithin_passes hi hlt, ?_⟩
  rw [← hforward.tokens]
  exact h.isAt_skip heof

/-- A cursor skips the stretch of wanted tokens in front of which it stands. -/
theorem Closed.skip_eq {wanted : TokenSet} {c : Cursor} {e : Nat} (h : c.Closed)
    (heof : wanted.contains .eof = false) (hs : c.tokens.Stretch wanted c.position e) :
    c.skip wanted = ⟨c.tokens, e⟩ := by
  have hskip := h.stretch_skip heof
  -- neither end can be passed on the way to the other
  have hposition : (c.skip wanted).position = e := by
    rcases Nat.lt_trichotomy (c.skip wanted).position e with hlt | heq | hlt
    · have hpast := hs.past _ hskip.le hlt
      rw [hskip.stop] at hpast
      cases hpast
    · exact heq
    · have hpast := hskip.past _ hs.le hlt
      rw [hs.stop] at hpast
      cases hpast
  have htokens : (c.skip wanted).tokens = c.tokens := forward_skip.tokens
  exact congr (congrArg Cursor.mk htokens) hposition

end Cursor

namespace Grammar

variable {α β : Type} {s s' : State}

/-! ## States that are alike -/

/-- Two states in front of the same place, in tokens and trees that are alike. -/
structure State.Alike (P : Places) (k : Nat) (s s' : State) : Prop where
  tokens : s.cursor.tokens.Alike P k s'.cursor.tokens
  closed : s.cursor.Closed
  closed' : s'.cursor.Closed
  position : s'.cursor.position = s.cursor.position
  tree : s.tree.Alike P s'.tree
  constructs : s'.constructs = s.constructs

namespace State.Alike

theorem current (h : s.Alike P k s') (hk : s.cursor.position ≤ k) :
    s.cursor.current.Alike P s'.cursor.current := by
  unfold Cursor.current
  rw [h.position]
  exact h.tokens _ hk

theorem isAt (h : s.Alike P k s') (hk : s.cursor.position ≤ k) (wanted : TokenSet) :
    s'.cursor.isAt wanted = s.cursor.isAt wanted := by
  unfold Cursor.isAt
  rw [(h.current hk).kind]

theorem atEnd (h : s.Alike P k s') (hk : s.cursor.position ≤ k) :
    s'.cursor.atEnd = s.cursor.atEnd := by
  unfold Cursor.atEnd
  rw [(h.current hk).kind]

theorem previousSpan (h : s.Alike P k s') (hk : s.cursor.position ≤ k) :
    P.alike s.cursor.previousSpan s'.cursor.previousSpan := by
  unfold Cursor.previousSpan
  rw [h.position]
  exact (h.tokens _ (by omega)).span

/-- With cursors that have moved to the same place. -/
theorem withCursor (h : s.Alike P k s') {c c' : Cursor} (hc : c.tokens = s.cursor.tokens)
    (hc' : c'.tokens = s'.cursor.tokens) (hposition : c'.position = c.position) :
    State.Alike P k { s with cursor := c } { s' with cursor := c' } := by
  refine ⟨?_, ?_, ?_, hposition, h.tree, h.constructs⟩
  · rw [hc, hc']
    exact h.tokens
  · unfold Cursor.Closed
    rw [hc]
    exact h.closed
  · unfold Cursor.Closed
    rw [hc']
    exact h.closed'

theorem next (h : s.Alike P k s') (hk : s.cursor.position ≤ k) : s.next.Alike P k s'.next := by
  refine h.withCursor Cursor.forward_advance.tokens Cursor.forward_advance.tokens ?_
  unfold Cursor.advance
  rw [h.atEnd hk]
  split
  · exact h.position
  · exact congrArg (· + 1) h.position

/-- Both cursors skip to the same place, if the first skips to a place in front of `k`. -/
theorem past (h : s.Alike P k s') {wanted : TokenSet} (heof : wanted.contains .eof = false)
    (hk : (s.past wanted).cursor.position ≤ k) : (s.past wanted).Alike P k (s'.past wanted) := by
  have hkind (i : Nat) (hi : i ≤ (s.cursor.skip wanted).position) :
      (s'.cursor.tokens.get i).kind = (s.cursor.tokens.get i).kind :=
    (h.tokens i (Nat.le_trans hi hk)).kind
  have hskip := h.closed.stretch_skip heof
  have hskip' : s'.cursor.skip wanted = ⟨s'.cursor.tokens, (s.cursor.skip wanted).position⟩ := by
    refine h.closed'.skip_eq heof (h.position ▸ ⟨hskip.le, fun i hi hlt => ?_, ?_⟩)
    · rw [hkind i (Nat.le_of_lt hlt)]
      exact hskip.past i hi hlt
    · rw [hkind _ (Nat.le_refl _)]
      exact hskip.stop
  have hposition : (s'.cursor.skip wanted).position = (s.cursor.skip wanted).position := by
    rw [hskip']
  exact h.withCursor Cursor.forward_skip.tokens Cursor.forward_skip.tokens hposition

end State.Alike

/-! ## Twins -/

/-- The second run has ended like the first one, unless that has ended with a cause that is not
allowed. -/
def Same (P : Places) (k : Nat) :
    EStateM.Result Fault State α → EStateM.Result Fault State α → Prop
  | .ok a s, r' => ∃ s', r' = .ok a s' ∧ s.Alike P k s'
  | .error f s, r' => f.cause.Allowed True →
      ∃ f' s', r' = .error f' s' ∧ f.Alike P f' ∧ s'.cursor.position = s.cursor.position

/-- Two parts of a reading of which the first never moves back, and which end in the same way
unless the first one has passed place `k`. -/
structure Twin (P : Places) (k : Nat) (x y : Parse α) : Prop where
  forward : ∀ s, s.cursor.position ≤ (finish (x s)).cursor.position
  same : ∀ {s s'}, s.Alike P k s' → (finish (x s)).cursor.position ≤ k → Same P k (x s) (y s')

section

variable {x y : Parse α} {f g : β → Parse α} {wanted : TokenSet}

theorem twin_bind {x y : Parse β} (hx : Twin P k x y) (hf : ∀ b, Twin P k (f b) (g b)) :
    Twin P k (x >>= f) (y >>= g) where
  forward s := by
    have hforward := hx.forward s
    rw [bind_run]
    cases hrun : x s with
    | ok b s₁ =>
      rw [hrun] at hforward
      exact Nat.le_trans hforward ((hf b).forward s₁)
    | error e s₁ =>
      rw [hrun] at hforward
      exact hforward
  same {s s'} h := by
    have hsame := hx.same h
    rw [bind_run, bind_run]
    cases hrun : x s with
    | ok b s₁ =>
      rw [hrun] at hsame
      intro hk
      obtain ⟨s₁', hrun', h₁⟩ := hsame (Nat.le_trans ((hf b).forward s₁) hk)
      rw [hrun']
      exact (hf b).same h₁ hk
    | error e s₁ =>
      rw [hrun] at hsame
      intro hk hallowed
      obtain ⟨f', s₁', hrun', halike⟩ := hsame hk hallowed
      rw [hrun']
      exact ⟨f', s₁', rfl, halike⟩

/-- Parts that read no token are twins if they come to the same on trees that are alike. -/
theorem twin_still (h : Still P x y) : Twin P k x y where
  forward s := Nat.le_of_eq (congrArg Cursor.position (h.stays s)).symm
  same {s s'} halike _ := by
    have hstays := h.stays s
    have hagree := h.agree halike.tree halike.constructs
    cases hrun : x s with
    | ok a s₁ =>
      rw [hrun] at hstays hagree
      obtain ⟨s₁', hrun', hcursor', htree, hconstructs⟩ := hagree
      have hcursor : s₁.cursor = s.cursor := hstays
      refine ⟨s₁', hrun', ?_, ?_, ?_, ?_, htree, hconstructs⟩
      · rw [hcursor, hcursor']
        exact halike.tokens
      · rw [hcursor]
        exact halike.closed
      · rw [hcursor']
        exact halike.closed'
      · rw [hcursor, hcursor']
        exact halike.position
    | error fault s₁ =>
      rw [hrun] at hstays hagree
      intro hallowed
      obtain ⟨fault', s₁', hrun', hfault, hcursor'⟩ := hagree hallowed
      have hcursor : s₁.cursor = s.cursor := hstays
      exact ⟨fault', s₁', hrun', hfault, by rw [hcursor, hcursor']; exact halike.position⟩

/-- Anything is a twin of a part that ends with a cause that is not allowed. -/
theorem twin_throw {fault : Fault} (h : ¬fault.cause.Allowed True) :
    Twin P k (throw fault : Parse α) y where
  forward _ := Nat.le_refl _
  same _ _ hallowed := absurd hallowed h

/-! ## Questions -/

/-- A question about states that has the same answer for both. -/
theorem twin_ask {q : State → β}
    (hq : ∀ {s s'}, s.Alike P k s' → s.cursor.position ≤ k → q s' = q s)
    (hf : ∀ b, Twin P k (f b) (g b)) :
    Twin P k (get >>= fun s => f (q s)) (get >>= fun s => g (q s)) where
  forward s := (hf (q s)).forward s
  same {s s'} h hk := by
    show Same P k (f (q s) s) (g (q s') s')
    rw [hq h (Nat.le_trans ((hf (q s)).forward s) hk)]
    exact (hf (q s)).same h hk

theorem twin_isAt {f g : Bool → Parse α} (hf : ∀ b, Twin P k (f b) (g b)) :
    Twin P k (isAt wanted >>= f) (isAt wanted >>= g) :=
  twin_ask (q := fun s => s.cursor.isAt wanted) (fun h hk => h.isAt hk wanted) hf

theorem twin_atEnd {f g : Bool → Parse α} (hf : ∀ b, Twin P k (f b) (g b)) :
    Twin P k (atEnd >>= f) (atEnd >>= g) :=
  twin_ask (q := fun s => s.cursor.atEnd) (fun h hk => h.atEnd hk) hf

/-! ## Tokens and places -/

/-- A question about states to which both have answers that correspond. -/
theorem twin_part {γ : Type} {R : γ → γ → Prop} {q : State → γ} {f g : γ → Parse α}
    (hR : ∀ c, ∃ c', R c c')
    (hq : ∀ {s s'}, s.Alike P k s' → s.cursor.position ≤ k → R (q s) (q s'))
    (hf : ∀ {c c'}, R c c' → Twin P k (f c) (g c')) :
    Twin P k (get >>= fun s => f (q s)) (get >>= fun s => g (q s)) where
  forward s := by
    obtain ⟨c', hc'⟩ := hR (q s)
    exact (hf hc').forward s
  same {s s'} h hk := by
    obtain ⟨c', hc'⟩ := hR (q s)
    exact (hf (hq h (Nat.le_trans ((hf hc').forward s) hk))).same h hk

theorem twin_current {f g : Token → Parse α}
    (hf : ∀ {token token'}, token.Alike P token' → Twin P k (f token) (g token')) :
    Twin P k (current >>= f) (current >>= g) :=
  twin_part (q := fun s => s.cursor.current) (Token.exists_alike P) (fun h hk => h.current hk) hf

theorem twin_previousSpan {f g : Span → Parse α}
    (hf : ∀ {span span'}, P.alike span span' → Twin P k (f span) (g span')) :
    Twin P k (previousSpan >>= f) (previousSpan >>= g) :=
  twin_part (q := fun s => s.cursor.previousSpan) P.total (fun h hk => h.previousSpan hk) hf

theorem twin_accept {f g : Option Token → Parse α}
    (hsome : ∀ {token token'}, token.Alike P token' → Twin P k (f (some token)) (g (some token')))
    (hnone : Twin P k (f none) (g none)) :
    Twin P k (accept? wanted >>= f) (accept? wanted >>= g) where
  forward s := by
    obtain ⟨token', htoken⟩ := s.cursor.current.exists_alike P
    rw [bind_run, accept?_run]
    cases s.cursor.isAt wanted with
    | true =>
      exact Nat.le_trans Cursor.forward_advance.position ((hsome htoken).forward s.next)
    | false => exact hnone.forward s
  same {s s'} h := by
    obtain ⟨token', htoken⟩ := s.cursor.current.exists_alike P
    rw [bind_run, bind_run, accept?_run, accept?_run]
    cases hat : s.cursor.isAt wanted with
    | true =>
      intro hk
      have hstart : s.cursor.position ≤ k := Nat.le_trans
        (Nat.le_trans Cursor.forward_advance.position ((hsome htoken).forward s.next)) hk
      rw [h.isAt hstart, hat]
      exact (hsome (h.current hstart)).same (h.next hstart) hk
    | false =>
      intro hk
      rw [h.isAt (Nat.le_trans (hnone.forward s) hk), hat]
      exact hnone.same h hk

theorem twin_skip (heof : wanted.contains .eof = false) : Twin P k (skip wanted) (skip wanted) where
  forward _ := Cursor.forward_skip.position
  same h hk := ⟨_, rfl, h.past heof hk⟩

/-! ## The coupling -/

/-- Twins up to place `k`. -/
def twins (P : Places) (k : Nat) : Coupling P where
  Rel _ _ x y := Twin P k x y
  weaken h _ _ := h
  still := twin_still
  bind := twin_bind
  fail h := twin_still (still_fail h)
  excluded := twin_throw
  part hR hq hf := twin_part hR (fun h _ => hq h.tree) hf
  constructs hf := twin_ask (fun h _ => congrArg _ h.constructs) hf
  place hf := twin_current fun h => hf h.span
  previousSpan := twin_previousSpan
  blame _ hf := twin_current hf
  atEnd := twin_atEnd
  isAt _ hf := twin_isAt hf
  isAtAny := twin_isAt
  isAtFree _ htrue hfalse := twin_isAt (Bool.forall_bool.2 ⟨hfalse, htrue⟩)
  accept _ := twin_accept
  expect _ := twin_accept
  skipNewlines := twin_skip (by decide)

end

end Grammar

end OnePass

import OnePass.Proofs.Names
import OnePass.Proofs.Upkeep

/-!
# The order of names

The names of a frame stay in the order in which they were bound first. `bindAll f log names` goes
on from some names with all that a log binds in the frame `f`, and this is what a frame has after
a trail (`Trail.namesIn`). Names that the log does not bind again stay in front
(`bindAll_front`), so that what two parts of a reading bind in a frame stands one after the other
if the second finds all its names free (`boundIn_append`).
-/

namespace OnePass

/-- The names of a frame with what they stand for, in the order in which they were bound first. -/
def Tree.namesIn (t : Tree) (f : FrameId) : List (String × EntityId) :=
  ((t.frame? f).map Frame.entries).getD []

namespace Grammar

variable {s s₁ s' : State} {t t₁ t' : Tree} {log log' : List Binding} {b c : Binding}
  {f : FrameId} {names front : List (String × EntityId)} {v : EntityId}

/-! ## The names that a log binds -/

/-- The names after all that the log binds in a frame. -/
def bindAll (f : FrameId) : List Binding → List (String × EntityId) → List (String × EntityId)
  | [], names => names
  | b :: rest, names =>
    bindAll f rest (if b.frame = f then Assoc.replace b.name b.entity names else names)

/-- The entities that the log binds in a frame, in the order of their names. -/
def boundIn (f : FrameId) (log : List Binding) : List EntityId := (bindAll f log []).map Prod.snd

theorem bindAll_append (log log' : List Binding) (names : List (String × EntityId)) :
    bindAll f (log ++ log') names = bindAll f log' (bindAll f log names) := by
  induction log generalizing names with
  | nil => rfl
  | cons b rest ih => exact ih _

theorem mem_bindAll {e : String × EntityId} (h : e ∈ bindAll f log names) :
    e ∈ names ∨ ∃ b ∈ log, b.frame = f ∧ (b.name, b.entity) = e := by
  induction log generalizing names with
  | nil => exact .inl h
  | cons b rest ih =>
    rcases ih h with hnames | ⟨c, hc, hbinding⟩
    · split at hnames
      · rename_i hframe
        exact (Assoc.mem_replace hnames).imp_right fun heq =>
          ⟨b, List.mem_cons_self, hframe, heq.symm⟩
      · exact .inl hnames
    · exact .inr ⟨c, List.mem_cons_of_mem _ hc, hbinding⟩

theorem mem_boundIn (h : v ∈ boundIn f log) : ∃ b ∈ log, b.frame = f ∧ b.entity = v := by
  obtain ⟨e, he, rfl⟩ := List.mem_map.1 h
  obtain ⟨b, hb, hframe, rfl⟩ := (mem_bindAll he).resolve_left nofun
  exact ⟨b, hb, hframe, rfl⟩

/-- Names that are not bound again stay in front. -/
theorem bindAll_front (h : ∀ b ∈ log, b.frame = f → b.name ∉ front.map Prod.fst) :
    bindAll f log (front ++ names) = front ++ bindAll f log names := by
  induction log generalizing names with
  | nil => rfl
  | cons b rest ih =>
    have hrest : ∀ c ∈ rest, c.frame = f → c.name ∉ front.map Prod.fst := fun c hc =>
      h c (List.mem_cons_of_mem _ hc)
    unfold bindAll
    split
    · rename_i hframe
      rw [Assoc.replace_front (h b List.mem_cons_self hframe)]
      exact ih hrest
    · exact ih hrest

/-- The last binding holds at the end. -/
theorem mem_boundIn_last (log : List Binding) (b : Binding) :
    b.entity ∈ boundIn b.frame (log ++ [b]) := by
  unfold boundIn
  rw [bindAll_append, bindAll, bindAll, if_pos rfl]
  exact List.mem_map_of_mem (Assoc.mem_replace_self _ _ _)

/-- What binds other names than a log before binds its entities after those of that log. -/
theorem boundIn_append (h : ∀ c ∈ log', ∀ b ∈ log, ¬b.Same c) :
    boundIn f (log ++ log') = boundIn f log ++ boundIn f log' := by
  have hfront : ∀ c ∈ log', c.frame = f → c.name ∉ (bindAll f log []).map Prod.fst := by
    intro c hc hframe hmem
    obtain ⟨e, he, hname⟩ := List.mem_map.1 hmem
    obtain ⟨b, hb, hbframe, rfl⟩ := (mem_bindAll he).resolve_left nofun
    exact h c hc b hb ⟨hbframe.trans hframe.symm, hname⟩
  unfold boundIn
  rw [bindAll_append, ← List.map_append, ← bindAll_front hfront, List.append_nil]

theorem nodup_keys_bindAll (h : (names.map Prod.fst).Nodup) :
    ((bindAll f log names).map Prod.fst).Nodup := by
  induction log generalizing names with
  | nil => exact h
  | cons b rest ih =>
    unfold bindAll
    split
    · exact ih (Assoc.nodup_keys_replace h)
    · exact ih h

/-- The entities that a log binds under their own names occur once. -/
theorem nodup_boundIn {p : EntityId → Bool} (nameOf : EntityId → String)
    (h : ∀ b ∈ log, p b.entity = true → nameOf b.entity = b.name) :
    ((boundIn f log).filter p).Nodup := by
  have hnames : ∀ e ∈ bindAll f log [], p e.2 = true → nameOf e.2 = e.1 := by
    intro e he
    obtain ⟨b, hb, _, rfl⟩ := (mem_bindAll he).resolve_left nofun
    exact h b hb
  have hkeys : ((bindAll f log []).map Prod.fst).Nodup := nodup_keys_bindAll List.nodup_nil
  unfold boundIn
  generalize bindAll f log [] = entries at hnames hkeys
  induction entries with
  | nil => exact List.nodup_nil
  | cons e entries ih =>
    rw [List.map_cons, List.nodup_cons] at hkeys
    have hrest := ih (fun e he => hnames e (List.mem_cons_of_mem _ he)) hkeys.2
    rw [List.map_cons, List.filter_cons]
    split
    · rename_i hp
      refine List.nodup_cons.2 ⟨?_, hrest⟩
      intro hmem
      obtain ⟨hmem, _⟩ := List.mem_filter.1 hmem
      obtain ⟨e', he', hsame⟩ := List.mem_map.1 hmem
      have hname' := hnames e' (List.mem_cons_of_mem _ he') (hsame ▸ hp)
      have hname := hnames e List.mem_cons_self hp
      refine hkeys.1 (List.mem_map.2 ⟨e', he', ?_⟩)
      rw [← hname', ← hname, hsame]
    · exact hrest

/-! ## The names of a frame -/

theorem namesIn_bind (ht : t.HasFrame t.currentFrame) (name : String) (entity : EntityId) :
    (t.bind name entity).namesIn f = if t.currentFrame = f then
      Assoc.replace name entity (t.namesIn f) else t.namesIn f := by
  obtain ⟨x, hx⟩ := Tree.hasFrame_iff.1 ht
  unfold Tree.namesIn Tree.bind
  rw [Tree.frame?_modifyFrame]
  split
  · rename_i hf
    rw [← hf, hx]
    rfl
  · rfl

theorem namesIn_setBody (id : FrameId) (function : EntityId) (body : ExprId) :
    (t.modifyFrame id (·.setBody function body)).namesIn f = t.namesIn f :=
  Tree.asked_modifyFrame (f := (·.setBody function body)) (fun x => (x.map Frame.entries).getD [])
    (fun _ => rfl) id f

theorem namesIn_withChild : t.withChild.namesIn f = t.namesIn f :=
  Tree.asked_withChild (fun x => (x.map Frame.entries).getD []) (fun _ _ => rfl) f

theorem Step.namesIn (h : Step s log s') (hs : s.tree.Framed) (f : FrameId) :
    s'.tree.namesIn f = bindAll f log (s.tree.namesIn f) := by
  cases h with
  | next | past | inside | outside | add | addEntity => rfl
  | bind => exact namesIn_bind hs.current _ _
  | bindBody hbind =>
    obtain rfl := Tree.bindBody_ok hbind
    exact namesIn_setBody _ _ _
  | opens hopen =>
    obtain ⟨rfl, hsize, rfl⟩ := hopen.eq
    exact namesIn_withChild
  | enters henter =>
    obtain ⟨_, hsize, rfl⟩ := henter.eq
    rfl
  | closes hclose =>
    obtain ⟨_, rfl⟩ := hclose.eq
    rfl

theorem Trail.namesIn (h : Trail s log s') (hs : s.tree.Framed) (f : FrameId) :
    s'.tree.namesIn f = bindAll f log (s.tree.namesIn f) := by
  induction h with
  | refl => rfl
  | cons hstep _ ih => rw [ih (hstep.framed hs), hstep.namesIn hs, bindAll_append]

/-- The values of the names of a frame that was opened before. -/
theorem Opens.boundIn (hopen : Opens s f s₁) (h : Trail s₁ log s') (hs : s.tree.Framed) {x : Frame}
    (hx : s'.tree.frame? f = some x) : x.names.values = boundIn f log := by
  have hnames := h.namesIn ((Step.opens hopen).framed hs) f
  obtain ⟨rfl, hsize, rfl⟩ := hopen.eq
  have hnone : s.tree.frame? ⟨s.tree.frames.size⟩ = none := Array.getElem?_eq_none (Nat.le_refl _)
  have hempty : s.tree.withChild.namesIn ⟨s.tree.frames.size⟩ = [] := by
    rw [namesIn_withChild]
    unfold Tree.namesIn
    rw [hnone]
    rfl
  have hentries : x.entries = bindAll ⟨s.tree.frames.size⟩ log [] := by
    rw [← hempty]
    refine Eq.trans ?_ hnames
    unfold Tree.namesIn
    rw [hx]
    rfl
  exact congrArg (List.map Prod.snd) hentries

end Grammar

end OnePass

import Mathlib.Data.Finset.Card
import Mathlib.Data.List.Induction
import OnePass.Tree.Frame

/-!
# Names bound again

A frame has one table for its names. A name that is bound again keeps its place in the table and
stands for the later entity. So after any bindings the table has each name once, in the order in
which the names were bound first, with what it was bound to last (`Frame.Records`). The entities
are those of the table, each once, in the order in which they come there first, under however
many names.

The same bindings can be kept twice: in a map that is asked for names, where the later binding
replaces the earlier, and in a list that has the order, where it changes the earlier in place
(`Twofold`). The map then answers as the frame does, and the list is its table (`Twofold.Shows`).
Both are followed from one binding to the next (`Frame.Records.bind`, `Twofold.Shows.bind`), and
`Frame.map_and_order_agree` puts them together.
-/

namespace OnePass

/-! ## First occurrences -/

section

variable {α : Type} [DecidableEq α]

theorem eraseDups_concat (xs : List α) (x : α) :
    (xs ++ [x]).eraseDups = if x ∈ xs then xs.eraseDups else xs.eraseDups ++ [x] := by
  rw [List.eraseDups_append]
  split
  · rename_i hx
    simp [List.removeAll, hx]
  · rename_i hx
    simp [List.removeAll, hx, List.eraseDups_cons]

theorem nodup_eraseDups (xs : List α) : xs.eraseDups.Nodup := by
  induction xs using List.reverseRecOn with
  | nil => exact List.nodup_nil
  | append_singleton xs x ih =>
    rw [eraseDups_concat]
    split
    · exact ih
    · rename_i hx
      have hnew : x ∉ xs.eraseDups := fun hmem => hx (List.mem_eraseDups.1 hmem)
      simpa using List.Nodup.concat hnew ih

theorem eraseDups_sublist (xs : List α) : xs.eraseDups.Sublist xs := by
  induction xs using List.reverseRecOn with
  | nil => exact .refl _
  | append_singleton xs x ih =>
    rw [eraseDups_concat]
    split
    · exact ih.trans (List.sublist_append_left _ _)
    · exact ih.append (.refl _)

theorem length_eraseDups (xs : List α) : xs.eraseDups.length = xs.toFinset.card := by
  rw [← List.toFinset_card_of_nodup (nodup_eraseDups xs)]
  congr 1
  ext x
  simp

/-- The members of `xs`, each once, in the order in which they occur first: the place of each is
the number of different ones before it. -/
structure FirstOccurrences (xs ys : List α) : Prop where
  once : ys.Nodup
  mem_iff : ∀ x, x ∈ ys ↔ x ∈ xs
  place : ∀ before x after, xs = before ++ x :: after → x ∉ before →
    ys[before.toFinset.card]? = some x

theorem firstOccurrences_eraseDups (xs : List α) : FirstOccurrences xs xs.eraseDups := by
  refine ⟨nodup_eraseDups xs, fun x => List.mem_eraseDups, ?_⟩
  rintro before x after rfl hx
  have hfirst : (x :: after).removeAll before = x :: after.removeAll before := by
    simp [List.removeAll, hx]
  rw [List.eraseDups_append, hfirst, List.eraseDups_cons, ← length_eraseDups]
  simp

end

namespace Frame

variable {f : Frame} {name : String} {entity : EntityId} {bindings : List (String × EntityId)}

/-! ## Frames after bindings -/

/-- The frame after names are bound one after the other. -/
def bindAll (f : Frame) (bindings : List (String × EntityId)) : Frame :=
  bindings.foldl (fun f b => f.bind b.1 b.2) f

/-- A new frame in which names have been bound one after the other. -/
def ofBindings (parent : Option FrameId) (depth : Nat) (bindings : List (String × EntityId)) :
    Frame := (new parent depth).bindAll bindings

/-- The last binding of the name was to the entity. -/
def BoundLast (name : String) (entity : EntityId) (bindings : List (String × EntityId)) : Prop :=
  ∃ before after, bindings = before ++ (name, entity) :: after ∧ name ∉ after.map Prod.fst

theorem not_boundLast_nil : ¬BoundLast name entity [] := by
  rintro ⟨before, after, h, -⟩
  simp at h

theorem boundLast_concat (other : String) (v : EntityId) :
    BoundLast name entity (bindings ++ [(other, v)]) ↔
      if other = name then v = entity else BoundLast name entity bindings := by
  constructor
  · rintro ⟨before, after, h, hlast⟩
    rcases List.eq_nil_or_concat after with rfl | ⟨after, b, rfl⟩
    -- nothing comes after it, so that it is the new binding itself
    · obtain ⟨-, h⟩ := List.append_inj' h rfl
      obtain ⟨rfl, rfl⟩ : other = name ∧ v = entity := by simpa using h
      rw [if_pos rfl]
    -- the new binding comes after it, and is of another name
    · rw [List.concat_eq_append, ← List.cons_append, ← List.append_assoc] at h
      obtain ⟨rfl, h⟩ := List.append_inj' h rfl
      obtain rfl : (other, v) = b := by simpa using h
      simp only [List.concat_eq_append, List.map_append, List.mem_append, not_or] at hlast
      rw [if_neg fun heq => hlast.2 (by simp [heq])]
      exact ⟨before, after, rfl, hlast.1⟩
  · intro h
    split at h
    · rename_i hname
      exact ⟨bindings, [], by rw [hname, h], nofun⟩
    · rename_i hname
      obtain ⟨before, after, rfl, hlast⟩ := h
      refine ⟨before, after ++ [(other, v)], by simp, ?_⟩
      rw [List.map_append, List.mem_append, not_or]
      exact ⟨hlast, by simpa using Ne.symm hname⟩

/-- What a frame has after bindings: each of the names once, in the order in which they were bound
first, and each stands for what was bound to it last. -/
structure Records (f : Frame) (bindings : List (String × EntityId)) : Prop where
  keys : f.names.keys = (bindings.map Prod.fst).eraseDups
  last : ∀ name entity, f.find? name = some entity ↔ BoundLast name entity bindings

theorem records_new (parent : Option FrameId) (depth : Nat) : (new parent depth).Records [] :=
  ⟨rfl, fun _ _ => ⟨nofun, fun h => absurd h not_boundLast_nil⟩⟩

theorem Records.bind (h : f.Records bindings) (name : String) (entity : EntityId) :
    (f.bind name entity).Records (bindings ++ [(name, entity)]) := by
  constructor
  · rw [keys_bind, h.keys, List.map_append, List.map_singleton, eraseDups_concat]
    simp only [List.mem_eraseDups]
  · intro other v
    rw [find?_bind, boundLast_concat]
    split
    · exact Option.some_inj
    · exact h.last other v

/-- The run of `Records.bind`: bindings that come later are put behind those there are. -/
theorem Records.bindAll (h : f.Records bindings) (more : List (String × EntityId)) :
    (f.bindAll more).Records (bindings ++ more) := by
  induction more generalizing f bindings with
  | nil => simpa [Frame.bindAll] using h
  | cons b more ih =>
    have hrest := ih (h.bind b.1 b.2)
    rwa [List.append_assoc, List.singleton_append] at hrest

theorem records_ofBindings (parent : Option FrameId) (depth : Nat)
    (bindings : List (String × EntityId)) : (ofBindings parent depth bindings).Records bindings :=
  (records_new parent depth).bindAll bindings

namespace Records

theorem names (h : f.Records bindings) :
    FirstOccurrences (bindings.map Prod.fst) (f.entries.map Prod.fst) := by
  have hkeys : f.entries.map Prod.fst = (bindings.map Prod.fst).eraseDups := h.keys
  rw [hkeys]
  exact firstOccurrences_eraseDups _

theorem mem_entries (h : f.Records bindings) :
    (name, entity) ∈ f.entries ↔ f.find? name = some entity :=
  ⟨Assoc.lookup_of_mem h.names.once, Assoc.mem_of_lookup⟩

theorem size (h : f.Records bindings) : f.size = (bindings.map Prod.fst).toFinset.card := by
  rw [← length_eraseDups, ← h.keys]
  exact (List.length_map Prod.fst).symm

theorem find?_eq_none (h : f.Records bindings) :
    f.find? name = none ↔ name ∉ bindings.map Prod.fst := by
  rw [← h.names.mem_iff, Option.eq_none_iff_forall_ne_some, List.mem_map]
  simp [← h.mem_entries]

end Records

end Frame

/-! ## Names kept twice -/

/-- Names kept twice, in a map and in a list that has their order. -/
structure Twofold where
  map : Std.HashMap String EntityId
  order : List (String × EntityId)

namespace Twofold

variable {n : Twofold} {f : Frame}

/-- No names. -/
def empty : Twofold := ⟨∅, []⟩

/-- Binds a name in both. The first entry of the list with the name is changed in place, and
without one the list gets a new entry at its end. -/
def bind (n : Twofold) (name : String) (entity : EntityId) : Twofold where
  map := n.map.insert name entity
  order :=
    match n.order.findIdx? (·.1 == name) with
    | some place => n.order.modify place fun entry => (entry.1, entity)
    | none => n.order ++ [(name, entity)]

/-- The names after others are bound one after the other. -/
def bindAll (n : Twofold) (bindings : List (String × EntityId)) : Twofold :=
  bindings.foldl (fun n b => n.bind b.1 b.2) n

/-- The map answers as the frame does, and the list is the table of the frame. -/
structure Shows (n : Twofold) (f : Frame) : Prop where
  found : ∀ name, n.map[name]? = f.find? name
  listed : n.order = f.entries

/-- An entry is replaced where a search for its key finds it. -/
theorem replace_eq (name : String) (entity : EntityId) (entries : List (String × EntityId)) :
    Assoc.replace name entity entries =
      match entries.findIdx? (·.1 == name) with
      | some place => entries.modify place fun entry => (entry.1, entity)
      | none => entries ++ [(name, entity)] := by
  induction entries with
  | nil => rfl
  | cons entry rest ih =>
    obtain ⟨k, v⟩ := entry
    by_cases hk : k = name
    · simp [Assoc.replace, List.findIdx?_cons, hk]
    · rw [Assoc.replace, if_neg hk, ih, List.findIdx?_cons, if_neg (by simpa using hk)]
      cases rest.findIdx? (·.1 == name) <;> simp

theorem Shows.bind (h : n.Shows f) (name : String) (entity : EntityId) :
    (n.bind name entity).Shows (f.bind name entity) := by
  constructor
  · intro other
    unfold Twofold.bind
    rw [Frame.find?_bind, ← h.found, Std.HashMap.getElem?_insert]
    simp
  · unfold Twofold.bind
    rw [h.listed]
    exact (replace_eq name entity f.entries).symm

theorem Shows.bindAll (h : n.Shows f) (bindings : List (String × EntityId)) :
    (n.bindAll bindings).Shows (f.bindAll bindings) := by
  induction bindings generalizing n f with
  | nil => exact h
  | cons b bindings ih => exact ih (h.bind b.1 b.2)

theorem shows_new (parent : Option FrameId) (depth : Nat) : empty.Shows (.new parent depth) :=
  ⟨fun _ => Std.HashMap.getElem?_empty, rfl⟩

end Twofold

namespace Frame

/-- The look-up of a frame and its table agree. After any bindings a name is found as what it was
bound to last, the table has each name once, at the place of its first binding, with what is found
for it, and the entities are those of the table, each once, in the order in which they come there
first. A map and a list that are kept apart say the same. -/
theorem map_and_order_agree (parent : Option FrameId) (depth : Nat)
    (bindings : List (String × EntityId)) :
    (∀ name, (Twofold.empty.bindAll bindings).map[name]? =
      (ofBindings parent depth bindings).find? name) ∧
    (Twofold.empty.bindAll bindings).order = (ofBindings parent depth bindings).entries ∧
    (∀ name entity, (ofBindings parent depth bindings).find? name = some entity ↔
      BoundLast name entity bindings) ∧
    (∀ name, (ofBindings parent depth bindings).find? name = none ↔
      name ∉ bindings.map Prod.fst) ∧
    FirstOccurrences (bindings.map Prod.fst)
      ((ofBindings parent depth bindings).entries.map Prod.fst) ∧
    (∀ name entity, (name, entity) ∈ (ofBindings parent depth bindings).entries ↔
      (ofBindings parent depth bindings).find? name = some entity) ∧
    (ofBindings parent depth bindings).size = (bindings.map Prod.fst).toFinset.card ∧
    FirstOccurrences ((ofBindings parent depth bindings).entries.map Prod.snd)
      (ofBindings parent depth bindings).entities := by
  have h := records_ofBindings parent depth bindings
  have hshows := (Twofold.shows_new parent depth).bindAll bindings
  exact ⟨hshows.found, hshows.listed, h.last, fun _ => h.find?_eq_none, h.names,
    fun _ _ => h.mem_entries, h.size, firstOccurrences_eraseDups _⟩

/-- A name bound again keeps its place, and two names may stand for one entity. -/
example : (ofBindings none 0 [("x", ⟨1⟩), ("y", ⟨2⟩), ("x", ⟨3⟩), ("z", ⟨2⟩)]).entries =
      [("x", ⟨3⟩), ("y", ⟨2⟩), ("z", ⟨2⟩)] ∧
    (ofBindings none 0 [("x", ⟨1⟩), ("y", ⟨2⟩), ("x", ⟨3⟩), ("z", ⟨2⟩)]).entities =
      [⟨3⟩, ⟨2⟩] := by decide

end Frame

end OnePass

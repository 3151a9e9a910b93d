/-!
# Ordered tables

A table holds one value per key and remembers the order in which the keys came. Putting a
value under a key that is there already keeps the key's position.
-/

namespace OnePass

/-- Values under keys, in the order in which the keys came. -/
structure Assoc (κ α : Type) where
  entries : List (κ × α)
deriving DecidableEq

namespace Assoc

variable {κ α : Type} [DecidableEq κ]

/-- The table without keys. -/
def empty : Assoc κ α := ⟨[]⟩

instance : Inhabited (Assoc κ α) := ⟨empty⟩

/-- The value under the first entry with a key. -/
def lookup (key : κ) : List (κ × α) → Option α
  | [] => none
  | (k, x) :: rest => if k = key then some x else lookup key rest

/-- The entries with the value under `key` replaced, or put behind all others. -/
def replace (key : κ) (x : α) : List (κ × α) → List (κ × α)
  | [] => [(key, x)]
  | (k, y) :: rest => if k = key then (k, x) :: rest else (k, y) :: replace key x rest

/-- The value under a key. -/
def get? (t : Assoc κ α) (key : κ) : Option α := lookup key t.entries

/-- Puts a value under a key. -/
def put (t : Assoc κ α) (key : κ) (x : α) : Assoc κ α := ⟨replace key x t.entries⟩

/-- Number of keys. -/
def size (t : Assoc κ α) : Nat := t.entries.length

/-- The keys in the order in which they came. -/
def keys (t : Assoc κ α) : List κ := t.entries.map Prod.fst

/-- The values in the order of their keys. -/
def values (t : Assoc κ α) : List α := t.entries.map Prod.snd

section entries

variable {key other : κ} {x y : α} {entries front : List (κ × α)} {e : κ × α}

theorem lookup_replace (key other : κ) (x : α) (entries : List (κ × α)) :
    lookup other (replace key x entries) =
      if key = other then some x else lookup other entries := by
  induction entries with
  | nil => simp [replace, lookup]
  | cons e rest ih =>
    obtain ⟨k, y⟩ := e
    by_cases hk : k = key
    · subst hk
      by_cases ho : k = other <;> simp [replace, lookup, ho]
    · by_cases ho : k = other
      · subst ho
        simp [replace, lookup, hk, Ne.symm hk]
      · simp [replace, lookup, hk, ho, ih]

theorem mem_of_lookup (h : lookup key entries = some x) : (key, x) ∈ entries := by
  induction entries with
  | nil => cases h
  | cons e rest ih =>
    obtain ⟨k, y⟩ := e
    unfold lookup at h
    split at h
    · rename_i hk
      cases h
      exact hk ▸ List.mem_cons_self
    · exact List.mem_cons_of_mem _ (ih h)

theorem mem_values_of_lookup (h : lookup key entries = some x) : x ∈ entries.map Prod.snd :=
  List.mem_map.2 ⟨_, mem_of_lookup h, rfl⟩

/-- Where no key occurs twice, an entry is what is found under its key. -/
theorem lookup_of_mem (hkeys : (entries.map Prod.fst).Nodup) (h : (key, x) ∈ entries) :
    lookup key entries = some x := by
  induction entries with
  | nil => cases h
  | cons e rest ih =>
    rw [List.map_cons, List.nodup_cons] at hkeys
    rcases List.mem_cons.1 h with rfl | h
    · exact if_pos rfl
    · have hne : e.1 ≠ key := fun heq => hkeys.1 (heq ▸ List.mem_map_of_mem h)
      exact (if_neg hne).trans (ih hkeys.2 h)

/-- An entry of a table after a change is an old one or the one that was put there. -/
theorem mem_replace (h : e ∈ replace key x entries) : e ∈ entries ∨ e = (key, x) := by
  induction entries with
  | nil => exact .inr (List.mem_singleton.1 h)
  | cons e rest ih =>
    obtain ⟨k, y⟩ := e
    unfold replace at h
    split at h
    · rename_i hk
      rcases List.mem_cons.1 h with rfl | h
      · exact .inr (by rw [hk])
      · exact .inl (List.mem_cons_of_mem _ h)
    · rcases List.mem_cons.1 h with rfl | h
      · exact .inl List.mem_cons_self
      · exact (ih h).imp (List.mem_cons_of_mem _) id

theorem mem_values_replace (h : y ∈ (replace key x entries).map Prod.snd) :
    y ∈ entries.map Prod.snd ∨ y = x := by
  obtain ⟨e, he, rfl⟩ := List.mem_map.1 h
  rcases mem_replace he with hold | rfl
  · exact .inl (List.mem_map_of_mem hold)
  · exact .inr rfl

theorem mem_replace_self (key : κ) (x : α) (entries : List (κ × α)) :
    (key, x) ∈ replace key x entries :=
  mem_of_lookup ((lookup_replace key key x entries).trans (if_pos rfl))

theorem replace_front (h : key ∉ front.map Prod.fst) :
    replace key x (front ++ entries) = front ++ replace key x entries := by
  induction front with
  | nil => rfl
  | cons e front ih =>
    obtain ⟨k, y⟩ := e
    rw [List.map_cons, List.mem_cons, not_or] at h
    rw [List.cons_append, replace, if_neg (Ne.symm h.1), ih h.2, List.cons_append]

/-- A key that is there keeps its position, and a new one comes behind all others. -/
theorem keys_replace (key : κ) (x : α) (entries : List (κ × α)) :
    (replace key x entries).map Prod.fst =
      if key ∈ entries.map Prod.fst then entries.map Prod.fst
      else entries.map Prod.fst ++ [key] := by
  induction entries with
  | nil => rfl
  | cons e rest ih =>
    obtain ⟨k, y⟩ := e
    by_cases hk : k = key
    · simp [replace, hk]
    · rw [replace, if_neg hk, List.map_cons, ih]
      by_cases hmem : key ∈ rest.map Prod.fst
      · rw [if_pos hmem]
        exact (if_pos (List.mem_cons_of_mem _ hmem)).symm
      · rw [if_neg hmem]
        exact (if_neg (List.not_mem_cons_of_ne_of_not_mem (Ne.symm hk) hmem)).symm

theorem nodup_keys_replace (h : (entries.map Prod.fst).Nodup) :
    ((replace key x entries).map Prod.fst).Nodup := by
  rw [keys_replace]
  split
  · exact h
  · rename_i hkey
    refine List.nodup_append.2 ⟨h, by simp, ?_⟩
    intro k hk other hother heq
    rw [List.mem_singleton.1 hother] at heq
    exact hkey (heq ▸ hk)

end entries

/-- The value put last under a key is found under it, and other keys keep theirs. -/
theorem get?_put (t : Assoc κ α) (key other : κ) (x : α) :
    (t.put key x).get? other = if key = other then some x else t.get? other :=
  lookup_replace key other x t.entries

end Assoc

end OnePass

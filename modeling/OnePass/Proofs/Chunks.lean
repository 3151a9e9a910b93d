import Mathlib.Data.List.Basic
import OnePass.Arena.Chunked

/-!
# Chunks and lists

A chunked arena is a list that is cut into rows. All rows but the last are full (`Packed`), so a
place is found by division (`Packed.getElem?_flatten`). A push looks at the last row only, and keeps
the rows packed whether that has room or not (`Holds.push`); a write changes no length
(`Holds.set`). So after any changes the arena holds what a list holds after the same changes
(`holds_after`), and all that it answers is read off that list (`arena_is_list`).
-/

namespace OnePass.ChunkedArena

variable {α : Type} {chunk n place : Nat} {rows : List (List α)} {row xs : List α} {x : α}
  {a : ChunkedArena α chunk}

/-! ## Rows -/

/-- No row is empty or too long, and all but the last are full. -/
structure Packed (n : Nat) (rows : List (List α)) : Prop where
  pos : ∀ row ∈ rows, 0 < row.length
  le : ∀ row ∈ rows, row.length ≤ n
  full : ∀ k row, rows[k]? = some row → k + 1 < rows.length → row.length = n

namespace Packed

theorem tail (h : Packed n (row :: rows)) : Packed n rows := by
  refine ⟨fun r hr => h.pos r (.tail _ hr), fun r hr => h.le r (.tail _ hr), ?_⟩
  exact fun k r hr hk => h.full (k + 1) r hr (Nat.succ_lt_succ hk)

theorem head (h : Packed n (row :: rows)) (hrows : rows ≠ []) : row.length = n :=
  h.full 0 row rfl (Nat.succ_lt_succ (List.length_pos_iff.2 hrows))

/-- The quotient names the row, and the remainder the place in it. -/
theorem getElem?_flatten (h : Packed n rows) (place : Nat) :
    rows.flatten[place]? = (rows[place / n]?).bind (·[place % n]?) := by
  induction rows generalizing place with
  | nil => rfl
  | cons row rows ih =>
    have hle := h.le row List.mem_cons_self
    have hn : 0 < n := Nat.lt_of_lt_of_le (h.pos row List.mem_cons_self) hle
    rw [List.flatten_cons]
    rcases Nat.lt_or_ge place n with hlt | hge
    · rw [Nat.div_eq_of_lt hlt, Nat.mod_eq_of_lt hlt]
      cases rows with
      | nil => rw [List.flatten_nil, List.append_nil]; rfl
      | cons => exact List.getElem?_append_left (h.head (List.cons_ne_nil _ _) ▸ hlt)
    · rw [Nat.div_eq_sub_div hn hge, Nat.mod_eq_sub_mod hge, List.getElem?_cons_succ, ← ih h.tail,
        List.getElem?_append_right (Nat.le_trans hle hge)]
      cases rows with
      | nil => rfl
      | cons => rw [h.head (List.cons_ne_nil _ _)]

/-- There are as many rows as the values fill, rounded up. -/
theorem length_eq (h : Packed n rows) (hn : 0 < n) :
    rows.length = (rows.flatten.length + n - 1) / n := by
  induction rows with
  | nil => exact (Nat.div_eq_of_lt (by simp; omega)).symm
  | cons row rows ih =>
    have hpos := h.pos row List.mem_cons_self
    have hle := h.le row List.mem_cons_self
    rw [List.length_cons, List.flatten_cons, List.length_append]
    cases rows with
    | nil =>
      have hsum : row.length + ([] : List (List α)).flatten.length + n - 1 =
          row.length - 1 + n := by
        rw [List.flatten_nil, List.length_nil]
        omega
      rw [hsum, Nat.add_div_right _ hn, Nat.div_eq_of_lt (by omega)]
      rfl
    | cons next rows =>
      rw [ih h.tail, h.head (List.cons_ne_nil _ _), ← Nat.add_div_right _ hn]
      congr 1
      omega

theorem head?_flatten (h : Packed n rows) : rows.flatten.head? = rows.head?.bind List.head? := by
  cases rows with
  | nil => rfl
  | cons row rows =>
    have hpos := h.pos row List.mem_cons_self
    rw [List.flatten_cons, List.head?_append_of_ne_nil _ (List.length_pos_iff.1 hpos)]
    rfl

theorem getLast?_flatten (h : Packed n rows) :
    rows.flatten.getLast? = rows.getLast?.bind List.getLast? := by
  rcases List.eq_nil_or_concat rows with rfl | ⟨front, row, rfl⟩
  · rfl
  · have hpos := h.pos row (by simp)
    rw [List.concat_eq_append, List.flatten_concat,
      List.getLast?_append_of_ne_nil _ (List.length_pos_iff.1 hpos), List.getLast?_concat]
    rfl

/-- A row that is begun behind full ones. -/
theorem concat (h : Packed n rows) (hfull : ∀ row ∈ rows.getLast?, row.length = n) (hn : 0 < n) :
    Packed n (rows ++ [[x]]) := by
  refine ⟨?_, ?_, ?_⟩
  · simpa [or_imp, forall_and] using h.pos
  · simpa [or_imp, forall_and, Nat.succ_le_iff, hn] using h.le
  · intro k r hr hk
    have hlt : k < rows.length := by simpa using hk
    rw [List.getElem?_append_left hlt] at hr
    rcases Nat.lt_or_ge (k + 1) rows.length with hlater | hlast
    · exact h.full k r hr hlater
    · refine hfull r ?_
      rw [List.getLast?_eq_getElem?]
      obtain rfl : k = rows.length - 1 := by omega
      exact hr

/-- One more value in a last row that has room. -/
theorem grow (h : Packed n (rows ++ [row])) (hroom : row.length < n) :
    Packed n (rows ++ [row ++ [x]]) := by
  have hpos := h.pos
  have hle := h.le
  simp only [List.mem_append, List.mem_singleton, or_imp, forall_and, forall_eq] at hpos hle
  refine ⟨?_, ?_, ?_⟩
  · simpa [or_imp, forall_and] using hpos.1
  · simpa [or_imp, forall_and, Nat.succ_le_iff, hroom] using hle.1
  · intro k r hr hk
    have hlt : k < rows.length := by simpa using hk
    rw [List.getElem?_append_left hlt] at hr
    exact h.full k r (by rw [List.getElem?_append_left hlt, hr]) (by simpa using hk)

end Packed

/-- The rows after a write. -/
def writeRow (n place : Nat) (x : α) (rows : List (List α)) : List (List α) :=
  rows.modify (place / n) (·.set (place % n) x)

theorem getElem?_writeRow (k : Nat) : (writeRow n place x rows)[k]? =
    (rows[k]?).map fun row => if place / n = k then row.set (place % n) x else row := by
  unfold writeRow
  rw [List.getElem?_modify]
  rfl

theorem Packed.writeRow (h : Packed n rows) : Packed n (writeRow n place x rows) := by
  have hrow : ∀ r ∈ ChunkedArena.writeRow n place x rows, ∃ row ∈ rows, r.length = row.length := by
    intro r hr
    obtain ⟨k, hk⟩ := List.mem_iff_getElem?.1 hr
    rw [getElem?_writeRow] at hk
    obtain ⟨row, hrow, rfl⟩ := Option.map_eq_some_iff.1 hk
    refine ⟨row, List.mem_of_getElem? hrow, ?_⟩
    split <;> simp
  refine ⟨?_, ?_, ?_⟩
  · intro r hr
    obtain ⟨row, hmem, heq⟩ := hrow r hr
    exact heq ▸ h.pos row hmem
  · intro r hr
    obtain ⟨row, hmem, heq⟩ := hrow r hr
    exact heq ▸ h.le row hmem
  · intro k r hr hk
    rw [getElem?_writeRow] at hr
    obtain ⟨row, hrow, rfl⟩ := Option.map_eq_some_iff.1 hr
    have hfull := h.full k row hrow (by simpa [ChunkedArena.writeRow] using hk)
    split <;> simpa

/-- A write in its row is a write in the list. -/
theorem Packed.flatten_writeRow (h : Packed n rows) :
    (ChunkedArena.writeRow n place x rows).flatten = rows.flatten.set place x := by
  refine List.ext_getElem? fun i => ?_
  rw [h.writeRow.getElem?_flatten, getElem?_writeRow, List.getElem?_set', h.getElem?_flatten]
  by_cases hi : place = i
  · subst hi
    cases rows[place / n]? <;> simp [List.getElem?_set']
  · -- another row, or another place in the row
    rw [if_neg hi]
    have hdiff : place / n = i / n → place % n ≠ i % n := by
      intro hdiv hmod
      rw [← Nat.div_add_mod place n, ← Nat.div_add_mod i n, hdiv, hmod] at hi
      exact hi rfl
    cases rows[i / n]? with
    | none => rfl
    | some row =>
      by_cases hdiv : place / n = i / n
      · simp [hdiv, List.getElem?_set_ne (hdiff hdiv)]
      · simp [hdiv]

theorem modify_last {β : Type} (f : β → β) (front : List β) (last : β) :
    (front ++ [last]).modify front.length f = front ++ [f last] := by
  induction front with
  | nil => rfl
  | cons first front ih => exact congrArg (first :: ·) ih

/-! ## Arenas -/

/-- The chunks as lists. -/
def asRows (a : ChunkedArena α chunk) : List (List α) := a.chunks.toList.map Array.toList

theorem getElem?_asRows (k : Nat) : a.asRows[k]? = (a.chunks[k]?).map Array.toList := by
  unfold asRows
  rw [List.getElem?_map, Array.getElem?_toList]

theorem get?_eq (place : Nat) :
    a.get? place = (a.asRows[place / chunk]?).bind (·[place % chunk]?) := by
  unfold get?
  rw [getElem?_asRows]
  cases a.chunks[place / chunk]? <;> simp

/-- The arena holds the values of a list. -/
structure Holds (a : ChunkedArena α chunk) (xs : List α) : Prop where
  size : a.size = xs.length
  packed : Packed chunk a.asRows
  values : a.toList = xs

theorem holds_empty : Holds (empty : ChunkedArena α chunk) [] :=
  ⟨rfl, ⟨nofun, nofun, nofun⟩, rfl⟩

/-- A push puts the value behind the others. -/
theorem Holds.push (h : Holds a xs) (hchunk : 0 < chunk) (x : α) :
    Holds (a.push x).2 (xs ++ [x]) := by
  obtain ⟨hsize, hpacked, rfl⟩ := h
  obtain ⟨⟨chunks⟩, size⟩ := a
  have hlength : size + 1 = ((⟨⟨chunks⟩, size⟩ : ChunkedArena α chunk).toList ++ [x]).length := by
    rw [List.length_append, ← hsize]
    rfl
  rcases List.eq_nil_or_concat chunks with rfl | ⟨front, last, rfl⟩
  · exact ⟨hlength, hpacked.concat nofun hchunk, rfl⟩
  rw [List.concat_eq_append] at hpacked hlength ⊢
  have hrows : (⟨⟨front ++ [last]⟩, size⟩ : ChunkedArena α chunk).asRows =
      front.map Array.toList ++ [last.toList] := by
    simp [asRows]
  rw [hrows] at hpacked
  by_cases hroom : last.size < chunk
  · have hpush : ((⟨⟨front ++ [last]⟩, size⟩ : ChunkedArena α chunk).push x).2.asRows =
        front.map Array.toList ++ [last.toList ++ [x]] := by
      simp [asRows, push, hroom, modify_last]
    refine ⟨hlength, hpush ▸ hpacked.grow hroom, ?_⟩
    show (asRows _).flatten = (asRows _).flatten ++ [x]
    rw [hpush, hrows]
    simp
  · have hpush : ((⟨⟨front ++ [last]⟩, size⟩ : ChunkedArena α chunk).push x).2.asRows =
        front.map Array.toList ++ [last.toList] ++ [[x]] := by
      simp [asRows, push, hroom]
    have hfull : last.toList.length = chunk :=
      Nat.le_antisymm (hpacked.le _ (by simp)) (Nat.le_of_not_lt hroom)
    refine ⟨hlength, hpush ▸ hpacked.concat (by simpa using hfull) hchunk, ?_⟩
    show (asRows _).flatten = (asRows _).flatten ++ [x]
    rw [hpush, hrows]
    simp

/-- A write changes one value. -/
theorem Holds.set (h : Holds a xs) (place : Nat) (x : α) :
    Holds (a.set place x) (xs.set place x) := by
  have hrows : (a.set place x).asRows = writeRow chunk place x a.asRows := by
    refine List.ext_getElem? fun k => ?_
    rw [getElem?_writeRow, getElem?_asRows, getElem?_asRows]
    show ((a.chunks.modify _ _)[k]?).map _ = _
    rw [Array.getElem?_modify]
    cases a.chunks[k]? with
    | none => simp
    | some row => split <;> simp
  refine ⟨?_, ?_, ?_⟩
  · rw [List.length_set]
    exact h.size
  · rw [hrows]
    exact h.packed.writeRow
  · show (a.set place x).asRows.flatten = _
    rw [hrows, h.packed.flatten_writeRow, ← h.values]
    rfl

theorem Holds.get? (h : Holds a xs) (place : Nat) : a.get? place = xs[place]? := by
  rw [get?_eq, ← h.packed.getElem?_flatten]
  exact congrArg (·[place]?) h.values

theorem Holds.front? (h : Holds a xs) : a.front? = xs.head? := by
  rw [← h.values]
  refine Eq.trans ?_ h.packed.head?_flatten.symm
  rw [List.head?_eq_getElem?, getElem?_asRows]
  unfold ChunkedArena.front?
  cases a.chunks[0]? with
  | none => rfl
  | some row => simp [List.head?_eq_getElem?]

theorem Holds.back? (h : Holds a xs) : a.back? = xs.getLast? := by
  rw [← h.values]
  refine Eq.trans ?_ h.packed.getLast?_flatten.symm
  unfold ChunkedArena.back? asRows
  rw [List.getLast?_map, Array.getLast?_toList]
  cases a.chunks.back? <;> simp

theorem Holds.enumerate (h : Holds a xs) (place : Nat) :
    a.enumerate[place]? = xs[place]?.map (place, ·) := by
  unfold ChunkedArena.enumerate
  rw [h.values, List.getElem?_map, List.getElem?_zipIdx]
  cases xs[place]? <;> simp

theorem Holds.chunkCount (h : Holds a xs) (hchunk : 0 < chunk) :
    a.chunkCount = (xs.length + chunk - 1) / chunk := by
  have hrows : a.chunkCount = a.asRows.length := by
    simp [asRows, ChunkedArena.chunkCount]
  rw [hrows, h.packed.length_eq hchunk, ← h.values]
  rfl

/-! ## Runs -/

/-- What changes an arena. -/
inductive Change (α : Type)
  | push (x : α)
  | write (place : Nat) (x : α)

/-- The arena after a change. -/
def change (a : ChunkedArena α chunk) : Change α → ChunkedArena α chunk
  | .push x => (a.push x).2
  | .write place x => a.set place x

/-- A list after the same change. -/
def Change.onList (xs : List α) : Change α → List α
  | .push x => xs ++ [x]
  | .write place x => xs.set place x

/-- Whether the change is a push. -/
def Change.isPush : Change α → Bool
  | .push _ => true
  | .write .. => false

theorem Holds.change (h : Holds a xs) (hchunk : 0 < chunk) (c : Change α) :
    Holds (a.change c) (c.onList xs) := by
  cases c with
  | push x => exact h.push hchunk x
  | write place x => exact h.set place x

/-- The arena that changes make out of the empty one. -/
def after (chunk : Nat) (changes : List (Change α)) : ChunkedArena α chunk :=
  changes.foldl change empty

/-- The list that they make out of the empty one. -/
def listed (changes : List (Change α)) : List α := changes.foldl Change.onList []

theorem Holds.changes (h : Holds a xs) (hchunk : 0 < chunk) (changes : List (Change α)) :
    Holds (changes.foldl ChunkedArena.change a) (changes.foldl Change.onList xs) := by
  induction changes generalizing a xs with
  | nil => exact h
  | cons c changes ih => exact ih (h.change hchunk c)

theorem holds_after (hchunk : 0 < chunk) (changes : List (Change α)) :
    Holds (after chunk changes) (listed changes) :=
  holds_empty.changes hchunk changes

/-- Only pushes make a list longer. -/
theorem length_foldl_onList (changes : List (Change α)) (xs : List α) :
    (changes.foldl Change.onList xs).length = xs.length + changes.countP Change.isPush := by
  induction changes generalizing xs with
  | nil => rfl
  | cons c changes ih =>
    rw [List.foldl_cons, ih, List.countP_cons]
    cases c with
    | push x => simp [Change.onList, Change.isPush]; omega
    | write place x => simp [Change.onList, Change.isPush]

/-- A chunked arena is a list: after any pushes and writes, each push answers how many came before
it, a place has the value that the list has there and a write changes no other, the values come in
the order of the list, and every chunk but the last is full. -/
theorem arena_is_list (hchunk : 0 < chunk) (changes : List (Change α)) :
    (listed changes).length = changes.countP Change.isPush ∧
    (after chunk changes).size = (listed changes).length ∧
    (∀ x, ((after chunk changes).push x).1 = changes.countP Change.isPush) ∧
    (∀ place : Nat, (after chunk changes).get? place = (listed changes)[place]?) ∧
    (∀ place x other, ((after chunk changes).set place x).get? other =
      if other = place ∧ place < (listed changes).length then some x
      else (after chunk changes).get? other) ∧
    (after chunk changes).toList = listed changes ∧
    (∀ place : Nat, (after chunk changes).enumerate[place]? =
      (listed changes)[place]?.map (place, ·)) ∧
    (after chunk changes).front? = (listed changes).head? ∧
    (after chunk changes).back? = (listed changes).getLast? ∧
    (after chunk changes).chunkCount = ((listed changes).length + chunk - 1) / chunk ∧
    ∀ (k : Nat) (row : Array α), (after chunk changes).chunks[k]? = some row →
      0 < row.size ∧ row.size ≤ chunk ∧
        (k + 1 < (after chunk changes).chunkCount → row.size = chunk) := by
  have h := holds_after hchunk changes
  have hpushes : (listed changes).length = changes.countP Change.isPush := by
    simpa [listed] using length_foldl_onList changes []
  refine ⟨hpushes, h.size, fun _ => h.size.trans hpushes, h.get?, ?_, h.values, h.enumerate,
    h.front?, h.back?, h.chunkCount hchunk, ?_⟩
  · intro place x other
    rw [(h.set place x).get?, h.get?, List.getElem?_set]
    grind
  · intro k row hrow
    have hk : (after chunk changes).asRows[k]? = some row.toList := by
      rw [getElem?_asRows, hrow]
      rfl
    have hmem := List.mem_of_getElem? hk
    refine ⟨h.packed.pos _ hmem, h.packed.le _ hmem, fun hlt => ?_⟩
    exact h.packed.full k _ hk (by simpa [asRows, ChunkedArena.chunkCount] using hlt)

/-- Three pushes and a write, in chunks of two. -/
theorem arena_is_list_three : 0 < 2 ∧
    listed [.push 1, .push 2, .push 3, .write 1 5] = [1, 5, 3] ∧
    (after 2 [.push 1, .push 2, .push 3, .write 1 5]).get? 1 = some 5 ∧
    (after 2 [.push 1, .push 2, .push 3, .write 1 5]).chunkCount = 2 := by
  have h := arena_is_list (show 0 < 2 by decide)
    [.push 1, .push 2, .push 3, Change.write 1 5]
  exact ⟨by decide, rfl, h.2.2.2.1 1, h.2.2.2.2.2.2.2.2.2.1⟩

end OnePass.ChunkedArena

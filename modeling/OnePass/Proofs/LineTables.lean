import Mathlib.Data.List.DropRight
import OnePass.Proofs.Scanning
import OnePass.Text.Lines

/-!
# Lines and columns

The starts of the lines are in order, so that halving them tells the starts up to an offset from
those above it (`LineTable.search_spec`). The line of the offset is thus one more than the number of
newlines before it (`line_ofText`). A place between two characters lies in its line, and its column
says how many characters of the line stand before it (`lineColumn_append`). The lines are the pieces
of the text between its newlines (`lineText_piece`). `lines_address_source` puts these together.
-/

namespace OnePass.LineTable

open Text (byteLength slice?)

variable {starts : List Nat} {offset size base n : Nat} {text front piece : List Char}

/-! ## Halving -/

/-- The last one of the numbers that is at most `offset` is among `size` of them from `base` on, or
all are above. -/
structure Narrowed (starts : List Nat) (offset size base : Nat) : Prop where
  inside : base + size ≤ starts.length
  atMost : base = 0 ∨ ∃ x, starts[base]? = some x ∧ x ≤ offset
  above : ∀ i x, base + size ≤ i → starts[i]? = some x → offset < x

theorem lt_of_ordered (hordered : starts.Pairwise (· < ·)) {i j x y : Nat} (hij : i < j)
    (hi : starts[i]? = some x) (hj : starts[j]? = some y) : x < y := by
  obtain ⟨hilt, rfl⟩ := List.getElem?_eq_some_iff.1 hi
  obtain ⟨hjlt, rfl⟩ := List.getElem?_eq_some_iff.1 hj
  exact List.pairwise_iff_getElem.1 hordered i j hilt hjlt hij

theorem le_of_ordered (hordered : starts.Pairwise (· < ·)) {i j x y : Nat} (hij : i ≤ j)
    (hi : starts[i]? = some x) (hj : starts[j]? = some y) : x ≤ y := by
  rcases Nat.eq_or_lt_of_le hij with rfl | hlt
  · exact Nat.le_of_eq (Option.some.inj (hi.symm.trans hj))
  · exact Nat.le_of_lt (lt_of_ordered hordered hlt hi hj)

theorem exists_start {i : Nat} (h : i < starts.length) : ∃ x, starts[i]? = some x :=
  ⟨_, List.getElem?_eq_getElem h⟩

/-- One half is left. -/
theorem Narrowed.half (hordered : starts.Pairwise (· < ·)) (h : Narrowed starts offset size base)
    (hsize : 1 < size) :
    Narrowed starts offset (size - size / 2)
      (if starts[base + size / 2]?.any (· ≤ offset) then base + size / 2 else base) := by
  have hinside := h.inside
  obtain ⟨x, hx⟩ : ∃ x, starts[base + size / 2]? = some x := exists_start (by omega)
  rw [hx, Option.any_some]
  by_cases hle : x ≤ offset
  · rw [if_pos (decide_eq_true hle)]
    refine ⟨by omega, .inr ⟨x, hx, hle⟩, fun i y hi hy => h.above i y (by omega) hy⟩
  · rw [if_neg (by simpa using hle)]
    refine ⟨by omega, h.atMost, fun i y hi hy => ?_⟩
    have hxy := le_of_ordered hordered (by omega) hx hy
    omega

/-- One number is left. -/
theorem Narrowed.single (hordered : starts.Pairwise (· < ·)) (h : Narrowed starts offset size base)
    (hsize : 0 < size) : Narrowed starts offset 1 (narrow starts offset size base) := by
  fun_induction narrow starts offset size base with
  | case1 size base hlt middle next ih => exact ih (h.half hordered hlt) (by omega)
  | case2 size base hge =>
    obtain rfl : size = 1 := by omega
    exact h

/-- The numbers that are at most `offset` are counted by the index after the last of them. -/
theorem countP_le (hn : n ≤ starts.length)
    (h : ∀ i x, starts[i]? = some x → (x ≤ offset ↔ i < n)) : starts.countP (· ≤ offset) = n := by
  have htake : (starts.take n).countP (· ≤ offset) = (starts.take n).length := by
    rw [List.countP_eq_length]
    intro x hx
    obtain ⟨i, hi⟩ := List.mem_iff_getElem?.1 hx
    rw [List.getElem?_take] at hi
    split at hi
    · exact decide_eq_true ((h i x hi).2 ‹_›)
    · cases hi
  have hdrop : (starts.drop n).countP (· ≤ offset) = 0 := by
    rw [List.countP_eq_zero]
    intro x hx
    obtain ⟨i, hi⟩ := List.mem_iff_getElem?.1 hx
    rw [List.getElem?_drop] at hi
    have hlt := (h _ x hi).not.2 (Nat.not_lt.2 (Nat.le_add_right n i))
    simpa using hlt
  rw [← List.take_append_drop n starts, List.countP_append, htake, hdrop, List.length_take]
  omega

/-- What is found is the number itself, or the index that parts the numbers below it from those
above. -/
theorem search_spec (hordered : starts.Pairwise (· < ·)) (offset : Nat) :
    match search starts offset with
    | .ok index => starts[index]? = some offset
    | .error index => index ≤ starts.length ∧
      ∀ i x, starts[i]? = some x → x ≠ offset ∧ (x < offset ↔ i < index) := by
  rcases Nat.eq_zero_or_pos starts.length with hempty | hpos
  · rw [List.length_eq_zero_iff.1 hempty]
    exact ⟨Nat.zero_le _, nofun⟩
  have hall : Narrowed starts offset starts.length 0 := by
    refine ⟨by omega, .inl rfl, fun i x hi hx => ?_⟩
    have hlt := (List.getElem?_eq_some_iff.1 hx).1
    omega
  have h := hall.single hordered hpos
  unfold search
  generalize narrow starts offset starts.length 0 = base at h
  have hinside := h.inside
  obtain ⟨x, hx⟩ : ∃ x, starts[base]? = some x := exists_start (by omega)
  simp only [hx]
  by_cases heq : x = offset
  · rw [if_pos heq, ← heq]
    exact hx
  rw [if_neg heq]
  by_cases hlt : x < offset
  · rw [if_pos hlt]
    refine ⟨hinside, fun i y hy => ?_⟩
    rcases Nat.lt_or_ge base i with hi | hi
    · have habove := h.above i y hi hy
      omega
    · have hle := le_of_ordered hordered hi hy hx
      omega
  · -- none of the numbers is at most `offset`, so that the first one was left
    rw [if_neg hlt]
    rcases h.atMost with rfl | ⟨y, hy, hle⟩
    · refine ⟨Nat.zero_le _, fun i y hy => ?_⟩
      have hle := le_of_ordered hordered (Nat.zero_le i) hx hy
      omega
    · cases hx.symm.trans hy
      omega

/-- The line of an offset is the number of starts up to it. -/
theorem line_eq_countP (hordered : starts.Pairwise (· < ·)) (hfirst : starts[0]? = some 0) :
    line ⟨starts⟩ offset = starts.countP (· ≤ offset) := by
  have hsearch := search_spec hordered offset
  unfold line
  cases hfound : search starts offset with
  | ok index =>
    rw [hfound] at hsearch
    have hindex : index < starts.length := (List.getElem?_eq_some_iff.1 hsearch).1
    refine (countP_le hindex fun i x hx => ⟨fun hle => ?_, fun hi => ?_⟩).symm
    · by_contra hi
      have hlt := lt_of_ordered hordered (by omega) hsearch hx
      omega
    · exact le_of_ordered hordered (by omega) hx hsearch
  | error index =>
    rw [hfound] at hsearch
    obtain ⟨hindex, hparts⟩ := hsearch
    have hpos : 0 < index := by
      have hzero := hparts 0 0 hfirst
      omega
    rw [countP_le hindex fun i x hx => by have hpart := hparts i x hx; omega]
    exact Nat.max_eq_left hpos

/-! ## Starts of lines -/

/-- Newlines of a text that stand before an offset. -/
def newlinesBefore (text : List Char) (offset : Nat) : Nat :=
  (List.range text.length).countP fun i => text[i]? = some '\n' ∧ byteLength (text.take i) < offset

theorem newlinesBefore_cons (c : Char) (text : List Char) (offset : Nat) :
    newlinesBefore (c :: text) offset =
      newlinesBefore text (offset - c.utf8Size) + if c = '\n' ∧ 0 < offset then 1 else 0 := by
  unfold newlinesBefore
  rw [List.length_cons, List.range_succ_eq_map, List.countP_cons, List.countP_map]
  congr 1
  · refine List.countP_congr fun i _ => ?_
    simp only [Function.comp, List.getElem?_cons_succ, List.take_succ_cons, Text.byteLength_cons,
      decide_eq_true_eq]
    exact and_congr_right fun _ => by omega
  · simp

theorem afterNewlines_newline (base : Nat) (text : List Char) :
    afterNewlines base ('\n' :: text) = (base + 1) :: afterNewlines (base + 1) text := if_pos rfl

theorem afterNewlines_other {c : Char} (hc : c ≠ '\n') (base : Nat) (text : List Char) :
    afterNewlines base (c :: text) = afterNewlines (base + c.utf8Size) text := if_neg hc

theorem utf8Size_newline : '\n'.utf8Size = 1 := rfl

theorem countP_afterNewlines (base : Nat) (text : List Char) (offset : Nat) :
    (afterNewlines base text).countP (· ≤ offset) = newlinesBefore text (offset - base) := by
  induction text generalizing base with
  | nil => rfl
  | cons c text ih =>
    rw [newlinesBefore_cons, Nat.sub_sub]
    by_cases hc : c = '\n'
    · subst hc
      rw [afterNewlines_newline, List.countP_cons, ih, utf8Size_newline]
      simp only [decide_eq_true_eq, true_and]
      congr 2
      exact propext ⟨by omega, by omega⟩
    · rw [afterNewlines_other hc, ih, if_neg fun h => hc h.1, Nat.add_zero]

theorem lt_of_mem_afterNewlines {x : Nat} (h : x ∈ afterNewlines base text) : base < x := by
  induction text generalizing base with
  | nil => cases h
  | cons c text ih =>
    by_cases hc : c = '\n'
    · subst hc
      rw [afterNewlines_newline, List.mem_cons] at h
      rcases h with rfl | h
      · exact Nat.lt_succ_self _
      · exact (Nat.lt_succ_self _).trans (ih h)
    · rw [afterNewlines_other hc] at h
      exact (Nat.le_add_right _ _).trans_lt (ih h)

theorem afterNewlines_ordered (base : Nat) (text : List Char) :
    (afterNewlines base text).Pairwise (· < ·) := by
  induction text generalizing base with
  | nil => exact .nil
  | cons c text ih =>
    by_cases hc : c = '\n'
    · subst hc
      exact .cons (fun _ => lt_of_mem_afterNewlines) (ih _)
    · rw [afterNewlines_other hc]
      exact ih _

/-- The line of an offset is one more than the number of newlines before it. -/
theorem line_ofText (text : List Char) (offset : Nat) :
    (ofText text).line offset = newlinesBefore text offset + 1 := by
  have hordered : (0 :: afterNewlines 0 text).Pairwise (· < ·) :=
    .cons (fun _ => lt_of_mem_afterNewlines) (afterNewlines_ordered 0 text)
  unfold ofText
  rw [line_eq_countP hordered rfl, List.countP_cons, countP_afterNewlines]
  simp

/-! ## Columns -/

theorem afterNewlines_append (base : Nat) (s t : List Char) :
    afterNewlines base (s ++ t) =
      afterNewlines base s ++ afterNewlines (base + byteLength s) t := by
  induction s generalizing base with
  | nil => simp [afterNewlines]
  | cons c s ih =>
    rw [List.cons_append, Text.byteLength_cons, ← Nat.add_assoc]
    by_cases hc : c = '\n'
    · subst hc
      rw [afterNewlines_newline, afterNewlines_newline, ih, utf8Size_newline, List.cons_append]
    · rw [afterNewlines_other hc, afterNewlines_other hc, ih]

theorem length_afterNewlines (base : Nat) (text : List Char) :
    (afterNewlines base text).length = text.count '\n' := by
  induction text generalizing base with
  | nil => rfl
  | cons c text ih =>
    by_cases hc : c = '\n'
    · subst hc
      rw [afterNewlines_newline, List.length_cons, ih, List.count_cons_self]
    · rw [afterNewlines_other hc, ih, List.count_cons_of_ne hc]

theorem afterNewlines_plain (base : Nat) (h : '\n' ∉ piece) : afterNewlines base piece = [] := by
  rw [← List.length_eq_zero_iff, length_afterNewlines, List.count_eq_zero]
  exact h

/-- The text is made of whole lines. -/
def WholeLines (front : List Char) : Prop := front = [] ∨ ∃ lines, front = lines ++ ['\n']

/-- A line starts where whole lines end. -/
theorem start_ofText (hfront : WholeLines front) (rest : List Char) :
    (ofText (front ++ rest)).lineStart? (front.count '\n' + 1) = some (byteLength front) := by
  show (0 :: afterNewlines 0 (front ++ rest))[front.count '\n']? = _
  rcases hfront with rfl | ⟨lines, rfl⟩
  · rfl
  · have hone : afterNewlines (0 + byteLength lines) ['\n'] = [byteLength lines + 1] := by
      simp [afterNewlines]
    have hlength := length_afterNewlines 0 lines
    rw [List.count_append, List.count_singleton_self, List.getElem?_cons_succ, afterNewlines_append,
      afterNewlines_append, hone, List.append_assoc, ← hlength, List.getElem?_append_right le_rfl,
      Nat.sub_self, Text.byteLength_append]
    rfl

/-- A text is whole lines and a piece of a line. -/
theorem exists_wholeLines (text : List Char) :
    ∃ front piece, text = front ++ piece ∧ WholeLines front ∧ '\n' ∉ piece := by
  induction text using List.reverseRecOn with
  | nil => exact ⟨[], [], rfl, .inl rfl, nofun⟩
  | append_singleton text c ih =>
    by_cases hc : c = '\n'
    · exact ⟨text ++ [c], [], (List.append_nil _).symm, .inr ⟨text, by rw [hc]⟩, nofun⟩
    · obtain ⟨front, piece, rfl, hfront, hpiece⟩ := ih
      refine ⟨front, piece ++ [c], List.append_assoc _ _ _, hfront, ?_⟩
      simp [hpiece, Ne.symm hc]

/-- The newlines before a place are those of the text before it. -/
theorem newlinesBefore_append (before after : List Char) :
    newlinesBefore (before ++ after) (byteLength before) = before.count '\n' := by
  induction before with
  | nil => simp [newlinesBefore]
  | cons c before ih =>
    have hpos : 0 < c.utf8Size + byteLength before := Nat.add_pos_left c.utf8Size_pos _
    rw [List.cons_append, newlinesBefore_cons, Text.byteLength_cons, Nat.add_sub_cancel_left, ih]
    by_cases hc : c = '\n'
    · rw [if_pos ⟨hc, hpos⟩, hc, List.count_cons_self]
    · rw [if_neg (fun h => hc h.1), List.count_cons_of_ne hc, Nat.add_zero]

/-- Line and column of a place behind whole lines and a piece of the line. -/
theorem lineColumn_append (hfront : WholeLines front) (hpiece : '\n' ∉ piece) (rest : List Char) :
    (ofText (front ++ piece ++ rest)).lineColumn (front ++ piece ++ rest)
      (byteLength (front ++ piece)) = (front.count '\n' + 1, piece.length + 1) := by
  have hline : (ofText (front ++ piece ++ rest)).line (byteLength (front ++ piece)) =
      front.count '\n' + 1 := by
    rw [line_ofText, newlinesBefore_append, List.count_append, List.count_eq_zero.2 hpiece]
  have hstart := start_ofText hfront (piece ++ rest)
  rw [← List.append_assoc] at hstart
  have hmin : min (byteLength (front ++ piece)) (byteLength (front ++ piece ++ rest)) =
      byteLength (front ++ piece) := by
    rw [Text.byteLength_append (front ++ piece)]
    exact Nat.min_eq_left (Nat.le_add_right _ _)
  unfold lineColumn
  simp only [hline, hstart, hmin, Option.getD_some, Text.slice?_append, Option.map_some]

/-! ## Texts of lines -/

/-- A text is one line, or a line, its newline and a text. -/
@[elab_as_elim]
theorem lines_induction {motive : List Char → Prop} (text : List Char)
    (last : ∀ piece, '\n' ∉ piece → motive piece)
    (more : ∀ piece rest, '\n' ∉ piece → motive rest → motive (piece ++ '\n' :: rest)) :
    motive text := by
  by_cases hnewline : '\n' ∈ text
  · obtain ⟨piece, rest, htext, hpiece⟩ := List.eq_append_cons_of_mem hnewline
    have hshorter : rest.length < text.length := by
      rw [htext, List.length_append, List.length_cons]
      omega
    rw [htext]
    exact more piece rest hpiece (lines_induction rest last more)
  · exact last text hnewline
termination_by text.length

theorem length_splitOn (text : List Char) :
    (text.splitOn '\n').length = (ofText text).lineCount := by
  show _ = (afterNewlines 0 text).length + 1
  rw [length_afterNewlines]
  induction text using lines_induction with
  | last piece h => rw [List.splitOn_eq_singleton h, List.count_eq_zero.2 h]; rfl
  | more piece rest h ih =>
    rw [List.splitOn_append_cons_self_of_not_mem h, List.length_cons, ih, List.count_append,
      List.count_eq_zero.2 h, List.count_cons_self, Nat.zero_add]

/-- Where a line stops: before the newline, if there is a line after it. -/
def stop (text : List Char) (next : Option Nat) : Nat :=
  match next with
  | some start => start - 1
  | none => byteLength text

/-- The pieces between newlines lie between the starts. -/
theorem slice_of_splitOn (front text : List Char) {k : Nat} {piece : List Char}
    (h : (text.splitOn '\n')[k]? = some piece) :
    ∃ start, (byteLength front :: afterNewlines (byteLength front) text)[k]? = some start ∧
      slice? (front ++ text) start (stop (front ++ text)
        (byteLength front :: afterNewlines (byteLength front) text)[k + 1]?) = some piece := by
  induction text using lines_induction generalizing front k with
  | last line hline =>
    rw [List.splitOn_eq_singleton hline] at h
    rw [afterNewlines_plain _ hline]
    cases k with
    | zero =>
      cases h
      have hslice := Text.slice?_append front piece []
      rw [List.append_nil] at hslice
      exact ⟨_, rfl, hslice⟩
    | succ k => cases h
  | more line rest hline ih =>
    rw [List.splitOn_append_cons_self_of_not_mem hline] at h
    have hstarts : afterNewlines (byteLength front) (line ++ '\n' :: rest) =
        byteLength (front ++ line ++ ['\n']) ::
          afterNewlines (byteLength (front ++ line ++ ['\n'])) rest := by
      rw [afterNewlines_append, afterNewlines_plain _ hline, List.nil_append,
        afterNewlines_newline, Text.byteLength_append, Text.byteLength_append]
      rfl
    rw [hstarts]
    cases k with
    | zero =>
      cases h
      have hslice := Text.slice?_append front piece ('\n' :: rest)
      rw [List.append_assoc] at hslice
      have hstop : byteLength (front ++ piece ++ ['\n']) - 1 = byteLength (front ++ piece) := by
        rw [Text.byteLength_append (front ++ piece)]
        rfl
      refine ⟨_, rfl, ?_⟩
      show slice? _ _ (byteLength (front ++ piece ++ ['\n']) - 1) = _
      rw [hstop, hslice]
    | succ k =>
      obtain ⟨start, hstart, hslice⟩ := ih (front ++ line ++ ['\n']) h
      have htext : front ++ (line ++ '\n' :: rest) = front ++ line ++ ['\n'] ++ rest := by simp
      rw [htext]
      exact ⟨start, hstart, hslice⟩

/-- The text of a line is the piece between its newlines without the carriage returns at its
end. -/
theorem lineText_piece {k : Nat} (h : (text.splitOn '\n')[k]? = some piece) :
    (ofText text).lineText text (k + 1) = piece.rdropWhile (· = '\r') := by
  obtain ⟨start, hstart, hslice⟩ := slice_of_splitOn [] text h
  have hstart : (ofText text).lineStart? (k + 1) = some start := hstart
  have hslice : slice? text start (stop text (ofText text).starts[k + 1]?) = some piece := hslice
  unfold lineText
  rw [hstart]
  show dropReturns ((slice? text start (stop text (ofText text).starts[k + 1]?)).getD []) = _
  rw [hslice]
  rfl

theorem lineText_beyond {k : Nat} (h : (ofText text).lineCount < k) :
    (ofText text).lineText text k = [] := by
  obtain ⟨n, rfl⟩ := Nat.exists_eq_succ_of_ne_zero (Nat.ne_zero_of_lt h)
  have hnone : (ofText text).lineStart? (n + 1) = none :=
    List.getElem?_eq_none (Nat.lt_succ_iff.1 h)
  unfold lineText
  rw [hnone]

/-! ## Places and lines -/

/-- Lines and columns of the places between characters are in order. -/
theorem lineColumn_lt {before middle : List Char} (hmiddle : middle ≠ []) (after : List Char) :
    Prod.Lex (· < ·) (· < ·)
      ((ofText (before ++ middle ++ after)).lineColumn (before ++ middle ++ after)
        (byteLength before))
      ((ofText (before ++ middle ++ after)).lineColumn (before ++ middle ++ after)
        (byteLength (before ++ middle))) := by
  obtain ⟨front, piece, rfl, hfront, hpiece⟩ := exists_wholeLines before
  have hfirst := lineColumn_append hfront hpiece (middle ++ after)
  rw [← List.append_assoc] at hfirst
  rw [hfirst]
  by_cases hnewline : '\n' ∈ middle
  · -- there is a line between them
    obtain ⟨front', piece', hsplit, hfront', hpiece'⟩ :=
      exists_wholeLines (front ++ piece ++ middle)
    have hcounts : front.count '\n' < front'.count '\n' := by
      have hpos := List.count_pos_iff.2 hnewline
      have hcount := congrArg (List.count '\n') hsplit
      simp only [List.count_append, List.count_eq_zero.2 hpiece,
        List.count_eq_zero.2 hpiece'] at hcount
      omega
    rw [hsplit, lineColumn_append hfront' hpiece']
    exact .left _ _ (Nat.succ_lt_succ hcounts)
  · have hsame : '\n' ∉ piece ++ middle := by simp [hpiece, hnewline]
    have hlast := lineColumn_append hfront hsame after
    rw [← List.append_assoc] at hlast
    rw [hlast, List.length_append]
    have hlength := List.length_pos_iff.2 hmiddle
    exact .right _ (by omega)

/-- The line of an offset, wherever it is, is one of the table, and one more than the number of
newlines before it. A place between two characters has the line in which it lies and a column that
leads from the start of the line exactly to the place, so that places in order have lines and
columns in order. The lines are the pieces between the newlines, without carriage returns at the
end, and no others. -/
theorem lines_address_source (text : List Char) :
    (∀ offset, (ofText text).line offset = newlinesBefore text offset + 1 ∧
      ((ofText text).lineStart? ((ofText text).line offset)).isSome = true) ∧
    (∀ before after, text = before ++ after →
      let place := (ofText text).lineColumn text (byteLength before)
      place.1 = (ofText text).line (byteLength before) ∧
      ∃ front rest, text = front ++ rest ∧
        (ofText text).lineStart? place.1 = some (byteLength front) ∧
        1 ≤ place.2 ∧ place.2 - 1 ≤ rest.length ∧
        front ++ rest.take (place.2 - 1) = before ∧ '\n' ∉ rest.take (place.2 - 1)) ∧
    (∀ before middle after, text = before ++ middle ++ after → middle ≠ [] →
      Prod.Lex (· < ·) (· < ·) ((ofText text).lineColumn text (byteLength before))
        ((ofText text).lineColumn text (byteLength (before ++ middle)))) ∧
    (ofText text).lineCount = text.count '\n' + 1 ∧
    (text.splitOn '\n').length = (ofText text).lineCount ∧
    (∀ k piece, (text.splitOn '\n')[k]? = some piece →
      (ofText text).lineText text (k + 1) = piece.rdropWhile (· = '\r')) ∧
    ∀ k, k = 0 ∨ (ofText text).lineCount < k → (ofText text).lineText text k = [] := by
  refine ⟨fun offset => ⟨line_ofText text offset, ?_⟩, ?_, ?_, ?_, length_splitOn text,
    fun k piece => lineText_piece, ?_⟩
  · rw [line_ofText, ← Nat.sub_zero offset, ← countP_afterNewlines]
    exact Option.isSome_iff_exists.2 (exists_start (Nat.lt_succ_of_le List.countP_le_length))
  · rintro before after rfl
    obtain ⟨front, piece, rfl, hfront, hpiece⟩ := exists_wholeLines before
    dsimp only
    refine ⟨rfl, ?_⟩
    rw [lineColumn_append hfront hpiece]
    refine ⟨front, piece ++ after, List.append_assoc _ _ _, ?_, by simp, by simp, by simp, by simpa⟩
    rw [List.append_assoc]
    exact start_ofText hfront _
  · rintro before middle after rfl hmiddle
    exact lineColumn_lt hmiddle after
  · exact congrArg (· + 1) (length_afterNewlines 0 text)
  · rintro k (rfl | hk)
    · rfl
    · exact lineText_beyond hk

/-- Two lines that end in carriage returns, the second one without anything before it. -/
def emptySecond : List Char := "é\r\n\r\nb".toList

theorem lines_address_source_empty :
    (ofText emptySecond).lineColumn emptySecond 5 = (2, 2) ∧
      (∃ front rest, emptySecond = front ++ rest ∧
        (ofText emptySecond).lineStart? 2 = some (byteLength front) ∧
        front ++ rest.take 1 = "é\r\n\r".toList) ∧
      (ofText emptySecond).lineText emptySecond 1 = ['é'] ∧
      (ofText emptySecond).lineText emptySecond 2 = [] ∧
      (ofText emptySecond).lineText emptySecond 4 = [] := by
  obtain ⟨-, hplace, -, -, -, hpiece, hbeyond⟩ := lines_address_source emptySecond
  have hlineColumn : (ofText emptySecond).lineColumn emptySecond 5 = (2, 2) := by decide +kernel
  obtain ⟨-, front, rest, htext, hstart, -, -, htake, -⟩ :=
    hplace "é\r\n\r".toList "\nb".toList (by decide +kernel)
  have hbytes : byteLength "é\r\n\r".toList = 5 := by decide +kernel
  rw [hbytes, hlineColumn] at hstart htake
  refine ⟨hlineColumn, ⟨front, rest, htext, hstart, htake⟩, ?_, ?_, hbeyond 4 (.inr ?_)⟩
  · exact (hpiece 0 "é\r".toList (by decide +kernel)).trans (by decide +kernel)
  · exact (hpiece 1 "\r".toList (by decide +kernel)).trans (by decide +kernel)
  · decide +kernel

end OnePass.LineTable

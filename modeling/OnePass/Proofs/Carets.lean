import OnePass.Proofs.LineTables
import OnePass.Text.Snippet

/-!
# Carets

A snippet has four lines (`splitOn_render`). The second one shows a line of the source behind a
gutter, and the blanks before the carets are as many as the characters of the gutter and of the
line up to the span (`lineColumn_append`), so that the first caret stands under the first character
of the span, or past the end of the line where that character is not shown (`numbered_aligned`).
`carets_under_token` says so of all spans that cut a token out, and what a snippet is for the
others.
-/

namespace OnePass.Snippet

open Text (byteLength)
open LineTable (ofText newlinesBefore WholeLines)

variable {text front piece rest before token after line : List Char} {span : Span}
  {remark : String} {number offset : Nat}

/-! ## Lines of a snippet -/

/-- A line of a source behind its number. -/
def numbered (number : Nat) (shown : List Char) : List Char :=
  "  ".toList ++ (Nat.repr number).toList ++ " | ".toList ++ shown

/-- Carets behind some blanks, and what is said of them. -/
def marked (pad carets : Nat) (remark : List Char) : List Char :=
  List.replicate pad ' ' ++ List.replicate carets '^' ++ ' ' :: remark

theorem length_numbered (number : Nat) (shown : List Char) :
    (numbered number shown).length = gutter number + shown.length := by
  rw [gutter, ← String.length_toList]
  simp [numbered]
  omega

theorem toList_render (text : List Char) (span : Span) (remark : String) :
    (render text span remark).toList =
      let place := (ofText text).lineColumn text span.start
      "with \x7b".toList ++ '\n' :: (numbered place.1 ((ofText text).lineText text place.1) ++
        '\n' :: (marked (gutter place.1 + place.2 - 1) (caretCount text span) remark.toList ++
          '\n' :: ['\x7d'])) := by
  unfold render
  simp [numbered, marked, Text.repeated]

theorem newline_not_mem_numbered (h : '\n' ∉ line) : '\n' ∉ numbered number line := by
  have hdigits : '\n' ∉ Nat.toDigits 10 number := fun hmem =>
    absurd (Nat.isDigit_of_mem_toDigits (by decide) (by decide) hmem) (by decide)
  simp [numbered, h, hdigits]

theorem newline_not_mem_marked (pad carets : Nat) (h : '\n' ∉ line) :
    '\n' ∉ marked pad carets line := by
  simp [marked, h]

theorem caretCount_pos (text : List Char) (span : Span) : 0 < caretCount text span := by
  unfold caretCount
  split
  · exact Nat.lt_of_lt_of_le Nat.one_pos (Nat.le_max_right _ _)
  · exact Nat.one_pos

theorem newlinesBefore_lt (text : List Char) (offset : Nat) :
    newlinesBefore text offset < (text.splitOn '\n').length := by
  rw [LineTable.length_splitOn, ← Nat.sub_zero offset, ← LineTable.countP_afterNewlines]
  exact Nat.lt_succ_of_le List.countP_le_length

theorem newline_not_mem_of_splitOn (h : line ∈ text.splitOn '\n') : '\n' ∉ line := by
  induction text using LineTable.lines_induction with
  | last piece hpiece =>
    rw [List.splitOn_eq_singleton hpiece, List.mem_singleton] at h
    exact h ▸ hpiece
  | more piece rest hpiece ih =>
    rw [List.splitOn_append_cons_self_of_not_mem hpiece, List.mem_cons] at h
    rcases h with rfl | h
    · exact hpiece
    · exact ih h

/-- A snippet has four lines: the second one is the line of the source in which the span starts. -/
theorem splitOn_render (hline : (text.splitOn '\n')[newlinesBefore text span.start]? = some line)
    (hremark : '\n' ∉ remark.toList) :
    (render text span remark).toList.splitOn '\n' =
      ["with \x7b".toList,
        numbered (newlinesBefore text span.start + 1) (line.rdropWhile (· = '\r')),
        marked (gutter (newlinesBefore text span.start + 1) +
          ((ofText text).lineColumn text span.start).2 - 1) (caretCount text span) remark.toList,
        ['\x7d']] := by
  have hnumber : ((ofText text).lineColumn text span.start).1 =
      newlinesBefore text span.start + 1 := LineTable.line_ofText text span.start
  have hnewline : '\n' ∉ line.rdropWhile (· = '\r') := fun hmem =>
    newline_not_mem_of_splitOn (List.mem_of_getElem? hline)
      ((List.rdropWhile_prefix _ _).subset hmem)
  rw [toList_render]
  dsimp only
  rw [hnumber, LineTable.lineText_piece hline,
    List.splitOn_append_cons_self_of_not_mem (by decide),
    List.splitOn_append_cons_self_of_not_mem (newline_not_mem_numbered hnewline),
    List.splitOn_append_cons_self_of_not_mem (newline_not_mem_marked _ _ hremark)]
  rfl

/-! ## The line of a place -/

theorem splitOn_head (rest : List Char) :
    (rest.splitOn '\n')[0]? = some (rest.takeWhile (· ≠ '\n')) := by
  induction rest using LineTable.lines_induction with
  | last piece h =>
    rw [List.splitOn_eq_singleton h, List.takeWhile_eq_self_iff.2]
    · rfl
    · simpa using fun c hc => ne_of_mem_of_not_mem hc h
  | more piece rest h _ =>
    rw [List.splitOn_append_cons_self_of_not_mem h, List.takeWhile_append_of_pos]
    · simp
    · simpa using fun c hc => ne_of_mem_of_not_mem hc h

/-- The line that begins behind whole lines. -/
theorem splitOn_wholeLines (hfront : WholeLines front) (rest : List Char) :
    ((front ++ rest).splitOn '\n')[front.count '\n']? = some (rest.takeWhile (· ≠ '\n')) := by
  rcases hfront with rfl | ⟨lines, rfl⟩
  · exact splitOn_head rest
  · have hlength : (lines.splitOn '\n').length = lines.count '\n' + 1 := by
      rw [LineTable.length_splitOn]
      exact congrArg (· + 1) (LineTable.length_afterNewlines 0 lines)
    rw [List.append_assoc, List.singleton_append, List.splitOn_append_cons_self, List.count_append,
      List.count_singleton_self, ← hlength, List.getElem?_append_right le_rfl, Nat.sub_self,
      splitOn_head]

/-! ## Alignment -/

theorem rdropWhile_append_all (h : ∀ c ∈ rest, c = '\r') :
    (piece ++ rest).rdropWhile (· = '\r') = piece.rdropWhile (· = '\r') := by
  unfold List.rdropWhile
  rw [List.reverse_append, List.dropWhile_append_of_pos (by simpa using h)]

theorem rdropWhile_append_some (h : ¬∀ c ∈ rest, c = '\r') :
    (piece ++ rest).rdropWhile (· = '\r') = piece ++ rest.rdropWhile (· = '\r') := by
  have hrest : (rest.reverse.dropWhile (· = '\r')).isEmpty = false := by
    simpa using h
  unfold List.rdropWhile
  rw [List.reverse_append, List.dropWhile_append, hrest]
  simp

/-- Behind a piece of its line the first character of the rest is shown, unless nothing but
carriage returns is left of the line. -/
theorem numbered_aligned (number : Nat) (piece text : List Char) :
    let rest := text.takeWhile (· ≠ '\n')
    let shown := numbered number ((piece ++ rest).rdropWhile (· = '\r'))
    let pad := (numbered number piece).length
    ((∀ c ∈ rest, c = '\r') → shown.length ≤ pad) ∧
    ((¬∀ c ∈ rest, c = '\r') →
      shown.take pad = numbered number piece ∧ pad < shown.length ∧ shown[pad]? = text.head?) := by
  intro rest shown pad
  refine ⟨fun hall => ?_, fun hsome => ?_⟩
  · show (numbered _ _).length ≤ (numbered _ _).length
    rw [length_numbered, length_numbered, rdropWhile_append_all hall]
    exact Nat.add_le_add_left (List.rdropWhile_prefix _ _).length_le _
  · have hne : rest.rdropWhile (· = '\r') ≠ [] := by
      intro hnil
      exact hsome (by simpa using List.rdropWhile_eq_nil_iff.1 hnil)
    have hshown : shown = numbered number piece ++ rest.rdropWhile (· = '\r') := by
      show numbered _ _ = _
      rw [rdropWhile_append_some hsome]
      simp [numbered]
    obtain ⟨c, cut, hcut⟩ := List.exists_cons_of_ne_nil hne
    have hhead : text.head? = some c := by
      have hprefix := (List.rdropWhile_prefix (· = '\r') rest).trans (List.takeWhile_prefix _)
      obtain ⟨tail, htail⟩ := hprefix
      rw [← htail, hcut]
      rfl
    rw [hshown, hcut, hhead]
    refine ⟨List.take_left, ?_, ?_⟩
    · rw [List.length_append]
      exact Nat.lt_add_of_pos_right (Nat.succ_pos _)
    · rw [List.getElem?_append_right le_rfl, Nat.sub_self]
      rfl

/-! ## Spans -/

theorem caretCount_append (before token after : List Char) :
    caretCount (before ++ token ++ after) ⟨byteLength before, byteLength (before ++ token)⟩ =
      max token.length 1 := by
  unfold caretCount
  rw [Text.slice?_append]

/-- The carets stand under the token. A snippet of a span that cuts a token out of the source has
four lines. The second shows the number and the text of the line in which the token starts. In the
third the first caret has the place that the first character of the token has in the second, unless
the line is over there but for carriage returns, and there are as many carets as the token has
characters, but at least one, and behind them a blank and the remark. Whatever the span is, its
start is on a line of the source, and the snippet has four lines with that line and a caret. -/
theorem carets_under_token (text : List Char) (span : Span) (remark : String)
    (hremark : '\n' ∉ remark.toList) :
    (∀ before token after, text = before ++ token ++ after →
      span = ⟨byteLength before, byteLength (before ++ token)⟩ →
      ∃ front piece line, before = front ++ piece ∧ WholeLines front ∧ '\n' ∉ piece ∧
        (text.splitOn '\n')[front.count '\n']? = some line ∧
        let number := front.count '\n' + 1
        let shown := numbered number (line.rdropWhile (· = '\r'))
        let pad := (numbered number piece).length
        (render text span remark).toList.splitOn '\n' =
          ["with \x7b".toList, shown, marked pad (max token.length 1) remark.toList, ['\x7d']] ∧
        ((∀ c ∈ (token ++ after).takeWhile (· ≠ '\n'), c = '\r') → shown.length ≤ pad) ∧
        ((¬∀ c ∈ (token ++ after).takeWhile (· ≠ '\n'), c = '\r') →
          shown.take pad = numbered number piece ∧ pad < shown.length ∧
          shown[pad]? = (token ++ after).head?)) ∧
    ((ofText text).lineStart? ((ofText text).line span.start)).isSome = true ∧
    ∃ line pad carets, (text.splitOn '\n')[newlinesBefore text span.start]? = some line ∧
      gutter (newlinesBefore text span.start + 1) ≤ pad ∧ 0 < carets ∧
      (render text span remark).toList.splitOn '\n' =
        ["with \x7b".toList,
          numbered (newlinesBefore text span.start + 1) (line.rdropWhile (· = '\r')),
          marked pad carets remark.toList, ['\x7d']] := by
  refine ⟨?_, ?_, ?_⟩
  · rintro before token after rfl rfl
    obtain ⟨front, piece, rfl, hfront, hpiece⟩ := LineTable.exists_wholeLines before
    have hplace := LineTable.lineColumn_append hfront hpiece (token ++ after)
    rw [← List.append_assoc] at hplace
    have hnumber : newlinesBefore (front ++ piece ++ token ++ after)
        (byteLength (front ++ piece)) = front.count '\n' :=
      Nat.succ.inj ((LineTable.line_ofText _ _).symm.trans (congrArg Prod.fst hplace))
    have hline : ((front ++ piece ++ token ++ after).splitOn '\n')[front.count '\n']? =
        some (piece ++ (token ++ after).takeWhile (· ≠ '\n')) := by
      have hall : ∀ c ∈ piece, decide (c ≠ '\n') = true := by
        simpa using fun c hc => ne_of_mem_of_not_mem hc hpiece
      rw [← List.takeWhile_append_of_pos hall, ← splitOn_wholeLines hfront]
      simp
    refine ⟨front, piece, _, rfl, hfront, hpiece, hline, ?_, numbered_aligned _ _ _⟩
    rw [splitOn_render (hnumber ▸ hline) hremark, hnumber, hplace, caretCount_append,
      length_numbered]
    rfl
  · have hlt := newlinesBefore_lt text span.start
    rw [LineTable.length_splitOn] at hlt
    rw [LineTable.line_ofText]
    exact Option.isSome_iff_exists.2 (LineTable.exists_start hlt)
  · have hline := List.getElem?_eq_getElem (newlinesBefore_lt text span.start)
    refine ⟨_, _, _, hline, ?_, caretCount_pos text span, splitOn_render hline hremark⟩
    exact Nat.le_sub_of_add_le (Nat.add_le_add_left (Nat.succ_le_succ (Nat.zero_le _)) _)

/-- Two lines with characters of two bytes, of which the second ends in a carriage return. -/
def accents : List Char := "é\néé x\r\n".toList

/-- A token in the second line, and a span that is reversed and past the end. -/
theorem carets_under_token_accents :
    '\n' ∉ "here".toList ∧
    render accents ⟨5, 9⟩ "here" = "with \x7b\n  2 | éé x\n       ^^^ here\n\x7d" ∧
    (∃ front piece line, "é\né".toList = front ++ piece ∧ WholeLines front ∧ '\n' ∉ piece ∧
      (accents.splitOn '\n')[front.count '\n']? = some line ∧
      let shown := numbered (front.count '\n' + 1) (line.rdropWhile (· = '\r'))
      let pad := (numbered (front.count '\n' + 1) piece).length
      (render accents ⟨5, 9⟩ "here").toList.splitOn '\n' =
        ["with \x7b".toList, shown, marked pad 3 "here".toList, ['\x7d']] ∧
      shown[pad]? = some 'é') ∧
    ∃ line pad carets, (accents.splitOn '\n')[2]? = some line ∧ gutter 3 ≤ pad ∧ 0 < carets ∧
      (render accents ⟨70, 9⟩ "here").toList.splitOn '\n' =
        ["with \x7b".toList, numbered 3 (line.rdropWhile (· = '\r')),
          marked pad carets "here".toList, ['\x7d']] := by
  have hremark : '\n' ∉ "here".toList := by decide +kernel
  obtain ⟨front, piece, line, hbefore, hfront, hpiece, hline, hlines, -, hshown⟩ :=
    (carets_under_token accents ⟨5, 9⟩ "here" hremark).1 "é\né".toList "é x".toList "\r\n".toList
      (by decide +kernel) (by decide +kernel)
  refine ⟨hremark, by decide +kernel, ?_, ?_⟩
  · have hshown := hshown fun h => absurd (h 'é' (by decide +kernel)) (by decide)
    exact ⟨front, piece, line, hbefore, hfront, hpiece, hline, hlines, hshown.2.2⟩
  · have hbefore : newlinesBefore accents 70 = 2 := by decide +kernel
    have h := (carets_under_token accents ⟨70, 9⟩ "here" hremark).2.2
    rwa [hbefore] at h

end OnePass.Snippet

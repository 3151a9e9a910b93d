import OnePass.Text.Basic

/-!
# Lines

A source is cut into lines after each newline. `LineTable.ofText` lists the byte offset at
which each line starts; the line of an offset is the last one that starts at or before it,
which is found by halving, and its column is one more than the number of characters between
the two. Lines and columns count from one.
-/

namespace OnePass

/-- The offsets at which the lines of a text start, in order. -/
structure LineTable where
  starts : List Nat
deriving DecidableEq

namespace LineTable

/-- The offsets just after each newline of a text that begins at `offset`. -/
def afterNewlines (offset : Nat) : List Char → List Nat
  | [] => []
  | c :: rest =>
    if c = '\n' then (offset + 1) :: afterNewlines (offset + 1) rest
    else afterNewlines (offset + c.utf8Size) rest

/-- The table of `text`. -/
def ofText (text : List Char) : LineTable := ⟨0 :: afterNewlines 0 text⟩

/-- Number of lines: one more than the newlines. -/
def lineCount (table : LineTable) : Nat := table.starts.length

/-- Halves `size` numbers, which begin with the one that has the index `base`, until one of
them is left: the last one that is at most `offset`, or else the first one. -/
def narrow (starts : List Nat) (offset size base : Nat) : Nat :=
  if 1 < size then
    let middle := base + size / 2
    let next := if starts[middle]?.any (· ≤ offset) then middle else base
    narrow starts offset (size - size / 2) next
  else base
termination_by size

/-- The index of `offset` among ordered numbers, or else the index at which it could be put in
between. -/
def search (starts : List Nat) (offset : Nat) : Except Nat Nat :=
  let base := narrow starts offset starts.length 0
  match starts[base]? with
  | none => .error 0
  | some start =>
    if start = offset then .ok base
    else if start < offset then .error (base + 1)
    else .error base

/-- The line that holds `offset`; offsets past the end are on the last line. -/
def line (table : LineTable) (offset : Nat) : Nat :=
  match search table.starts offset with
  | .ok index => index + 1
  | .error index => max index 1

/-- The offset at which a line starts; lines are counted from one. -/
def lineStart? (table : LineTable) : Nat → Option Nat
  | 0 => none
  | n + 1 => table.starts[n]?

/-- Line and column of `offset` in the text of the table. Past the end the column is that
of the end, and inside a character it is the first one. -/
def lineColumn (table : LineTable) (text : List Char) (offset : Nat) : Nat × Nat :=
  let line := table.line offset
  let start := (table.lineStart? line).getD 0
  let before := Text.slice? text start (min offset (Text.byteLength text))
  (line, (before.map List.length).getD 0 + 1)

/-- `text` without the carriage returns at its end. -/
def dropReturns (text : List Char) : List Char :=
  (text.reverse.dropWhile (· = '\r')).reverse

/-- The text of a line without its newline and the carriage returns before it; empty for a
line that the table does not have. -/
def lineText (table : LineTable) (text : List Char) (line : Nat) : List Char :=
  match table.lineStart? line with
  | none => []
  | some start =>
    let stop := match table.starts[line]? with
      | some next => next - 1
      | none => Text.byteLength text
    dropReturns ((Text.slice? text start stop).getD [])

end LineTable

end OnePass

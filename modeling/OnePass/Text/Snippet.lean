import OnePass.Span
import OnePass.Text.Lines

/-!
# Snippets

A snippet shows a remark under the line of the source that it is about: the line with its
number, and below it one caret per character of the span, followed by the remark.
-/

namespace OnePass.Snippet

/-- Number of carets under `span`: its characters, and at least one. -/
def caretCount (text : List Char) (span : Span) : Nat :=
  match Text.slice? text span.start span.stop with
  | some piece => max piece.length 1
  | none => 1

/-- Width of what stands left of the line's text: two blanks, the number, a blank, a bar
and a blank. -/
def gutter (line : Nat) : Nat := (Nat.repr line).length + 5

/-- `remark` under the line of `text` in which `span` starts. -/
def render (text : List Char) (span : Span) (remark : String) : String :=
  let table := LineTable.ofText text
  let (line, column) := table.lineColumn text span.start
  "with \x7b\n  " ++ Nat.repr line ++ " | " ++ String.ofList (table.lineText text line) ++ "\n"
    ++ Text.repeated (gutter line + column - 1) ' ' ++ Text.repeated (caretCount text span) '^'
    ++ " " ++ remark ++ "\n\x7d"

end OnePass.Snippet

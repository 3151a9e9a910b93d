import OnePass.Diagnostic.Cause
import OnePass.Lexicon.Rules
import OnePass.Text.Basic

/-!
# Scanning

`Lexicon.tokenize` cuts a source into its tokens: at each place the longest text that a rule
describes is taken, blanks and comments are dropped, and the scan goes on behind it. Where no
rule applies the source is refused.

The scan visits the source character by character. `pending` counts the characters of the
text taken last that are still to be passed.
-/

namespace OnePass.Lexicon

/-- The span of a piece of the source that begins at byte `offset`. -/
def pieceSpan (offset : Nat) (piece : List Char) : Except Fault Span :=
  match Span.ofRange offset (offset + Text.byteLength piece) with
  | .ok span => .ok span
  | .error e => .error ⟨.offsetTooLarge e, none⟩

/-- Scans a source from byte `offset` on, after the tokens found so far. -/
def scanFrom (offset pending : Nat) (found : Array Token) :
    List Char → Except Fault (Array Token)
  | [] => .ok found
  | c :: rest =>
    match pending with
    | pending + 1 => scanFrom (offset + c.utf8Size) pending found rest
    | 0 =>
      match munch? (c :: rest) with
      | some (length, .blanks) => scanFrom (offset + c.utf8Size) (length - 1) found rest
      | some (length, .comment) => do
        let _ ← pieceSpan offset ((c :: rest).take length)
        scanFrom (offset + c.utf8Size) (length - 1) found rest
      | some (length, .token kind) => do
        let piece := (c :: rest).take length
        let span ← pieceSpan offset piece
        scanFrom (offset + c.utf8Size) (length - 1)
          (found.push ⟨kind, String.ofList piece, span⟩) rest
      | none => do
        let piece := (c :: rest).take (blamed (c :: rest))
        let span ← pieceSpan offset piece
        .error ⟨.unrecognized piece, some span⟩

/-- The tokens of a source. -/
def tokenize (source : List Char) : Except Fault TokenList := do
  let body ← scanFrom 0 0 #[] source
  match TokenList.close body (Text.byteLength source) with
  | .ok tokens => .ok tokens
  | .error e => .error ⟨.offsetTooLarge e, none⟩

end OnePass.Lexicon

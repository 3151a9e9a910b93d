import OnePass.Token.Basic

/-!
# Cursors

A cursor stands before one of the tokens of a list. It moves forward only, over tokens that
are asked for, and never past the mark of the end.
-/

namespace OnePass

/-- A place in a list of tokens. -/
structure Cursor where
  tokens : TokenList
  position : Nat
deriving DecidableEq, Inhabited

namespace Cursor

/-- Before the first token. -/
def start (tokens : TokenList) : Cursor := ⟨tokens, 0⟩

/-- The token before which the cursor stands. -/
def current (c : Cursor) : Token := c.tokens.get c.position

/-- The place of the token passed last; at the start, that of the first token. -/
def previousSpan (c : Cursor) : Span := (c.tokens.get (c.position - 1)).span

/-- Whether the next token is one of `wanted`. -/
def isAt (c : Cursor) (wanted : TokenSet) : Bool := wanted.contains c.current.kind

/-- Whether all tokens have been passed. -/
def atEnd (c : Cursor) : Bool := c.current.kind = .eof

/-- Over the next token; the mark of the end is not passed. -/
def advance (c : Cursor) : Cursor := if c.atEnd then c else { c with position := c.position + 1 }

/-- Over the next token if it is one of `wanted`. -/
def accept (c : Cursor) (wanted : TokenSet) : Cursor := if c.isAt wanted then c.advance else c

/-- Over at most `steps` tokens of `wanted`. -/
def skipWithin (wanted : TokenSet) : Nat → Cursor → Cursor
  | 0, c => c
  | steps + 1, c => if c.isAt wanted then skipWithin wanted steps c.advance else c

/-- Over all tokens of `wanted` that come next. -/
def skip (c : Cursor) (wanted : TokenSet) : Cursor :=
  skipWithin wanted (c.tokens.size - c.position) c

end Cursor

end OnePass

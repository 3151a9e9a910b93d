import OnePass.Span
import OnePass.Token.Set

/-!
# Tokens

A token is a piece of the source with its kind and its place. A `TokenList` holds the tokens
of one source and the token that marks its end; looking past the tokens finds that mark.
-/

namespace OnePass

/-- A piece of the source with its kind and place. -/
structure Token where
  kind : TokenKind
  text : String
  span : Span
deriving DecidableEq, Inhabited

/-- The tokens of a source, and the mark of its end. -/
structure TokenList where
  body : Array Token
  last : Token
deriving DecidableEq, Inhabited

namespace TokenList

/-- The tokens of a source of `length` bytes, which the mark of the end follows. -/
def close (body : Array Token) (length : Nat) : Except OffsetTooLarge TokenList := do
  return ⟨body, ⟨.eof, "", ← Span.ofRange length length⟩⟩

/-- The token at a place; the mark of the end at every place past the others. -/
def get (tokens : TokenList) (place : Nat) : Token := tokens.body[place]?.getD tokens.last

/-- Number of tokens, the mark of the end included. -/
def size (tokens : TokenList) : Nat := tokens.body.size + 1

/-- All tokens in order, the mark of the end at last. -/
def toList (tokens : TokenList) : List Token := tokens.body.toList ++ [tokens.last]

end TokenList

end OnePass

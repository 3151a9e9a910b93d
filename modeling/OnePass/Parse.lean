import OnePass.Grammar.Nesting
import OnePass.Lexicon.Scan

/-!
# Reading a source

`parse` reads a list of tokens and `parseSource` the text of a source. Names are resolved and
types checked on the way, and the first fault ends the reading; what is left of it is the
tree, which holds everything that was found out.
-/

namespace OnePass

/-- The tree of a list of tokens. -/
def parse (tokens : TokenList) : Except Fault Tree :=
  match Grammar.program (.initial tokens) with
  | .ok _ s => .ok s.tree
  | .error fault _ => .error fault

/-- The tree of a source. -/
def parseSource (source : String) : Except Fault Tree :=
  match Lexicon.tokenize source.toList with
  | .ok tokens => parse tokens
  | .error fault => .error fault

/-- The expressions at the top of a source, in order. -/
def Tree.topLevel (t : Tree) : List ExprId :=
  match t.mainScope.bind t.expr? with
  | some ⟨.scope body _, _⟩ => body
  | _ => []

end OnePass

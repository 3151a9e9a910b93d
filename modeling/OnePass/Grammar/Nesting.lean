import OnePass.Grammar.Argument
import OnePass.Grammar.Branch
import OnePass.Grammar.Definition
import OnePass.Grammar.Operation

/-!
# The knot

The three functions at which the circles of the grammar are cut, each as one turn around a
circle: `stepTurn`, `extendTurn` and `sequenceTurn` hand everything below them to the
productions of the level below. `Grammar.level` stacks such turns; at the level of a source
(`Grammar.fuel`) there are more of them than its tokens can use up, since between two of
them that read no token there are at most two others.
-/

namespace OnePass.Grammar

/-- Reads what a token begins, after the left part `left`. -/
def operand (p : Productions) (left : Option ExprId) (token : Token) (closing : TokenSet) :
    Parse ExprId :=
  match token.kind, left with
  | .name, _ => nameOrDefinition p token closing
  | .decimal, _ | .binary, _ | .hexadecimal, _ => integer token
  | .float, _ => float token
  | .character, _ => character token
  | .text, _ => textLiteral token
  | .ifWord, _ => branch p token
  | .forWord, _ => loop p token
  | .returnWord, _ => returns p token closing
  | .structWord, _ | .enumWord, _ => record p token
  | .openParen, none => group p token
  | .openParen, some callee => call p callee token
  | .openBrace, none => scope p token
  | .openBrace, some name => structLiteral p name token
  | .dot, none => fail .nothingBeforeDot token.span
  | .dot, some base => member base token
  | _, _ => unexpected closing token

/-- Reads one token that is no operator on one operand, and what belongs to it. -/
def stepFrom (p : Productions) (left : Option ExprId) (closing : TokenSet) :
    Parse (Option ExprId) := do
  match ← accept? stepStart with
  | none => unexpected closing (← current)
  | some token =>
    if token.kind = .newline then return left
    else if token.kind ∈ TokenSet.operators then
      return some (← binaryOperation p left token closing)
    else if left.isSome && operandStart.contains token.kind then unexpected closing token
    else return some (← operand p left token closing)

/-- Reads one token and what belongs to it, unless it is a closing one. -/
def stepTurn (p : Productions) (left : Option ExprId) (closing : TokenSet) :
    Parse (Option ExprId) := do
  if ← isAt closing then return none
  match left with
  | none =>
    match ← accept? prefixes with
    | some token => return some (← prefixOperation p token closing)
    | none => stepFrom p none closing
  | some left =>
    match ← accept? postfixes with
    | some token => return some (← postfixOperation left token)
    | none => stepFrom p (some left) closing

/-- Whether the expression read so far ends before a brace: the brace begins a scope unless
it stands after the name of a structure. -/
def endsBeforeBrace (left : Option ExprId) : Parse Bool := do
  match left with
  | none => return false
  | some left =>
    if ← isAt {.openBrace} then return (namedStruct? (← get).tree left).isNone
    else return false

/-- Reads on after a left part. -/
def extendTurn (p : Productions) (left : Option ExprId) (closing : TokenSet) :
    Parse (Option ExprId) := do
  if ← isAt closing then return left
  if ← atEnd then unexpected closing (← current)
  if ← endsBeforeBrace left then return left
  match ← p.step left closing with
  | some expr => p.extend (some expr) closing
  | none => p.extend left closing

/-- Reads expressions up to a closing token. -/
def sequenceTurn (p : Productions) (body : Array ExprId) (closing : TokenSet) :
    Parse (List ExprId) := do
  skip separators
  match ← accept? closing with
  | some _ => return body.toList
  | none =>
    if ← atEnd then unexpected closing (← current)
    match ← p.expr (separators ∪ closing) with
    | some expr => p.sequence (body.push expr) closing
    | none => p.sequence body closing

/-- The productions with at most so many turns one below the other. -/
def level : Nat → Productions
  | 0 =>
    { step := fun _ _ => throw ⟨.outOfFuel, none⟩
      extend := fun _ _ => throw ⟨.outOfFuel, none⟩
      sequence := fun _ _ => throw ⟨.outOfFuel, none⟩ }
  | n + 1 =>
    { step := fun left closing => stepTurn (level n) left closing
      extend := fun left closing => extendTurn (level n) left closing
      sequence := fun body closing => sequenceTurn (level n) body closing }

/-- A level that no list of so many tokens can use up. -/
def fuel (size : Nat) : Nat := 3 * size + 3

/-- Reads a whole source: expressions up to its end, as the main scope. -/
def program : Parse Unit := do
  let start := (← current).span
  let size := (← get).cursor.tokens.size
  let body ← (level (fuel size)).body {.eof}
  let scope ← push (.scope body Tree.mainFrame) (start.merge (← previousSpan))
  modify fun s => { s with tree := { s.tree with mainScope := some scope } }

end OnePass.Grammar

import OnePass.Grammar.State

/-!
# Productions

The grammar is read by functions that call one another in circles: an expression holds
operands, an operand may hold scopes, and scopes hold expressions. `Productions` bundles the
three functions at which the circles are cut. Every other production is an ordinary function
of such a bundle, and `OnePass.Grammar.Nesting` ties the knot.

There is no table of precedences. Reading one token makes one node, and the node made last
is handed on as the left part of the next one; an operator takes all the rest of the
expression as its right operand.
-/

namespace OnePass.Grammar

/-- The functions at which the circles of the grammar are cut. -/
structure Productions where
  /-- Reads one token and what belongs to it, after the left part that is there already.
  Nothing is made at one of the closing tokens, and of a newline without a left part. -/
  step : Option ExprId → TokenSet → Parse (Option ExprId)
  /-- Reads on after a left part up to one of the closing tokens, which is left there. -/
  extend : Option ExprId → TokenSet → Parse (Option ExprId)
  /-- Reads expressions after those in `body` up to one of the closing tokens, and reads
  that too. -/
  sequence : (body : Array ExprId) → TokenSet → Parse (List ExprId)

namespace Productions

/-- Reads an expression up to one of the closing tokens. -/
def expr (p : Productions) (closing : TokenSet) : Parse (Option ExprId) :=
  p.extend none closing

/-- Reads expressions up to one of the closing tokens. -/
def body (p : Productions) (closing : TokenSet) : Parse (List ExprId) :=
  p.sequence #[] closing

end Productions

/-! ## Sets of tokens -/

/-- What separates two expressions of a scope. -/
def separators : TokenSet := {.newline, .semicolon}

/-- Tokens that begin an operand and never follow one. -/
def operandStart : TokenSet :=
  {.name} ∪ .literals ∪ .ofList [.ifWord, .forWord, .returnWord, .structWord, .enumWord]

/-- All tokens that a step begins with, besides the operators on one operand. -/
def stepStart : TokenSet :=
  operandStart ∪ .operators ∪ .ofList [.openParen, .openBrace, .dot, .newline]

/-- Operators before their operand. -/
def prefixes : TokenSet := .ofList [.plus, .minus, .bang, .tilde, .increment, .decrement]

/-- Operators after their operand. -/
def postfixes : TokenSet := .ofList [.increment, .decrement]

/-! ## Scopes -/

/-- Reads the body of a scope up to its closing brace, in the innermost open frame. -/
def scopeBody (p : Productions) (brace : Token) (frame : FrameId) : Parse ExprId := do
  let body ← p.body {.closeBrace}
  push (.scope body frame) (brace.span.merge (← previousSpan))

/-- Reads a scope whose opening brace has been read, in a frame of its own. -/
def scope (p : Productions) (brace : Token) : Parse ExprId := do
  let frame ← openFrame brace.span
  let scope ← scopeBody p brace frame
  closeFrame brace.span
  return scope

/-- Reads a scope after a keyword, which may be on a later line. -/
def scopeAfter (p : Productions) (word : String) (keyword : Token) : Parse ExprId := do
  skipNewlines
  match ← accept? {.openBrace} with
  | some brace => scope p brace
  | none => fail (.noScopeAfter word) keyword.span

end OnePass.Grammar

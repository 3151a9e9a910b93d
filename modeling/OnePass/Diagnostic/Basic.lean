import OnePass.Text.Snippet

/-!
# Diagnostics

A diagnostic is what a user reads when a source is refused: what kind of trouble it is,
which part of the front end noticed it, where, and the message. With a place the message
is the description in a snippet of the source, without one it is the description alone.
-/

namespace OnePass

/-- What went wrong, whoever noticed it. -/
inductive Diagnostic.Kind where
  /-- A limit on nesting or storage. -/
  | capacity
  /-- A character that starts no token. -/
  | lexical
  /-- A token that does not fit where it stands. -/
  | syntactic
  /-- A name unknown, or defined twice. -/
  | resolution
  /-- A type that does not fit. -/
  | typing
deriving DecidableEq, Inhabited

/-- The word for a kind of trouble. -/
def Diagnostic.Kind.label : Diagnostic.Kind → String
  | .capacity => "capacity"
  | .lexical => "lexical"
  | .syntactic => "syntax"
  | .resolution => "resolution"
  | .typing => "type"

/-- The part of the front end that noticed. -/
inductive Diagnostic.Category where
  | parser | scanner | frame | arena
deriving DecidableEq, Inhabited

/-- How a message names the part that noticed. -/
def Diagnostic.Category.label : Diagnostic.Category → String
  | .parser => "parser error"
  | .scanner => "scanner error"
  | .frame => "frame error"
  | .arena => "arena error"

/-- What a user reads about a refused source. -/
structure Diagnostic where
  category : Diagnostic.Category
  kind : Diagnostic.Kind
  span : Option Span
  description : String
  message : String
deriving DecidableEq

namespace Diagnostic

/-- A diagnostic without a place. -/
def plain (kind : Kind) (category : Category) (description : String) : Diagnostic :=
  ⟨category, kind, none, description, description⟩

/-- The diagnostic at a place of `source`; a place it had before is replaced. -/
def withSpan (d : Diagnostic) (source : List Char) (span : Span) : Diagnostic :=
  { d with span := some span, message := Snippet.render source span d.description }

/-- A diagnostic at a place of `source`. -/
def anchored (kind : Kind) (category : Category) (source : List Char) (span : Span)
    (description : String) : Diagnostic :=
  (plain kind category description).withSpan source span

/-- The whole text of a diagnostic. -/
def toText (d : Diagnostic) : String := d.category.label ++ ": " ++ d.message

end Diagnostic

end OnePass

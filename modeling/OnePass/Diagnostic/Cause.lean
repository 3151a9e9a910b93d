import OnePass.Diagnostic.Basic
import OnePass.Text.Visible
import OnePass.Token.Basic
import OnePass.Tree.Basic

/-!
# Causes

Everything that a source can be refused for. A cause carries the names and symbols that its
wording mentions; `Cause.kind`, `Cause.category` and `Cause.description` say what a user
reads about it. A `Fault` is a cause and its place, and `Fault.report` shows it in the
source.

The last three causes stand for answers that the tree or the grammar cannot fail to have.
-/

namespace OnePass

/-- What a source is refused for. -/
inductive Cause where
  -- Lexical
  | unrecognized (text : List Char)
  | offsetTooLarge (error : OffsetTooLarge)
  -- Capacity
  | stack (error : StackError)
  -- Tokens out of place
  | expected (wanted : TokenSet) (found : TokenKind)
  | nothingBeforeDot
  | noOperand (op : UnaryOp)
  | notUnary (text : String)
  | noLeftOperand
  | noRightOperand
  | noExpressionAfter (text : String)
  | noTypeAfter (text : String)
  | emptyDefinition
  | noDefinitionAfterComma
  | emptyGroup
  | notASignature
  | noFunctionScope
  | notARecord
  | noScopeAfter (word : String)
  | noCondition
  | noInitialization
  | noIteration
  | returnOutside
  | trailingComma
  -- Literals
  | emptyCharacter
  | wideCharacter
  | badEscape (found : Char)
  | badInteger
  | badFloat
  -- Names
  | unknownName (name : String)
  | redefinition (name : String)
  | bodyTaken (name : String)
  | noMember (name type : String)
  -- Types
  | unaryOperand (op : UnaryOp) (type : String)
  | notAssignable (label : String)
  | assignment (source target : String)
  | arithmeticOperands (left text right : String)
  | logicOperands (left text right : String)
  | noComposite (left text right : String)
  | initializer (name type source : String)
  | notAType (name : String)
  | condition (type : String)
  | returned (source target : String)
  | notAFunction (type : String)
  | argument (source target : String)
  | missingArgument (name : String)
  | tooManyArguments
  | structMember (label : String)
  | enumMember (label : String)
  | noMembers (name type : String)
  | notAStruct
  -- Never raised
  | missingHandle
  | endlessType
  | outOfFuel
deriving DecidableEq

namespace Cause

/-- The kind of trouble. -/
def kind : Cause → Diagnostic.Kind
  | .unrecognized _ => .lexical
  | .offsetTooLarge _ | .stack _ | .missingHandle | .endlessType | .outOfFuel => .capacity
  | .expected .. | .nothingBeforeDot | .noOperand _ | .notUnary _ | .noLeftOperand
  | .noRightOperand | .noExpressionAfter _ | .noTypeAfter _ | .emptyDefinition
  | .noDefinitionAfterComma | .emptyGroup | .notASignature | .noFunctionScope | .notARecord
  | .noScopeAfter _ | .noCondition | .noInitialization | .noIteration | .returnOutside
  | .trailingComma | .emptyCharacter | .wideCharacter | .badEscape _ | .badInteger
  | .badFloat => .syntactic
  | .unknownName _ | .redefinition _ | .bodyTaken _ | .noMember .. => .resolution
  | .unaryOperand .. | .notAssignable _ | .assignment .. | .arithmeticOperands ..
  | .logicOperands .. | .noComposite .. | .initializer .. | .notAType _ | .condition _
  | .returned .. | .notAFunction _ | .argument .. | .missingArgument _ | .tooManyArguments
  | .structMember _ | .enumMember _ | .noMembers .. | .notAStruct => .typing

/-- The part of the front end that notices the cause. -/
def category : Cause → Diagnostic.Category
  | .unrecognized _ | .offsetTooLarge _ => .scanner
  | .stack (.arena _) | .missingHandle | .endlessType | .outOfFuel => .arena
  | .stack _ => .frame
  | _ => .parser

/-- Kinds that were wanted, each between quotes and with a comma after it. -/
def wantedText (wanted : TokenSet) : String :=
  String.join (wanted.kinds.map fun k => "'" ++ k.label ++ "', ")

/-- The wording. -/
def description : Cause → String
  | .unrecognized text => "unrecognized token '" ++ String.ofList (Text.visible text) ++ "'"
  | .offsetTooLarge e => e.message
  | .stack e => e.message
  | .expected wanted found => "expected " ++ wantedText wanted ++ "got '" ++ found.label ++ "'"
  | .nothingBeforeDot => "expected expression before '.'"
  | .noOperand op => "expected operand after '" ++ op.symbol ++ "'"
  | .notUnary text => "'" ++ text ++ "' is not a unary operator"
  | .noLeftOperand => "missing prev operand for binary expression"
  | .noRightOperand => "missing post operand for binary expression"
  | .noExpressionAfter text => "expected expression after '" ++ text ++ "'"
  | .noTypeAfter text => "expected type expression after '" ++ text ++ "'"
  | .emptyDefinition => "expected expression or type during definition"
  | .noDefinitionAfterComma => "expected new definition after comma"
  | .emptyGroup => "expected expression"
  | .notASignature => "expected function signature"
  | .noFunctionScope => "expected function scope after signature"
  | .notARecord => "expected record body"
  | .noScopeAfter word => "expected scope after '" ++ word ++ "'"
  | .noCondition => "expression expected"
  | .noInitialization => "expected initialization expression"
  | .noIteration => "expected iteration expression"
  | .returnOutside => "cannot return outside of a function scope"
  | .trailingComma => "expected new argument after comma"
  | .emptyCharacter => "empty character constant"
  | .wideCharacter => "wide character constant"
  | .badEscape found => "invalid escape sequence '\\" ++ String.singleton found ++ "'"
  | .badInteger => "cannot parse integer constant"
  | .badFloat => "cannot parse float constant"
  | .unknownName name => "use of unknown identifier '" ++ name ++ "'"
  | .redefinition name => "redefinition of identifier '" ++ name ++ "'"
  | .bodyTaken name => "function '" ++ name ++ "' already has a body"
  | .noMember name type => "no member named '" ++ name ++ "' in '" ++ type ++ "'"
  | .unaryOperand op type =>
    "cannot apply unary '" ++ op.symbol ++ "' to expression of type '" ++ type ++ "'"
  | .notAssignable label => "cannot assign to expression of kind '" ++ label ++ "'"
  | .assignment source target =>
    "cannot assign expression of type '" ++ source ++ "' to '" ++ target ++ "'"
  | .arithmeticOperands left text right =>
    "cannot perform arithmetic expression: '" ++ left ++ "' " ++ text ++ " '" ++ right ++ "'"
  | .logicOperands left text right =>
    "cannot perform boolean expression: '" ++ left ++ "' " ++ text ++ " '" ++ right ++ "'"
  | .noComposite left text right =>
    "no atom type composes '" ++ left ++ "' " ++ text ++ " '" ++ right ++ "'"
  | .initializer name type source =>
    "cannot initialize '" ++ name ++ "' of type '" ++ type ++ "' with expression of type '"
      ++ source ++ "'"
  | .notAType name => "'" ++ name ++ "' does not name a type"
  | .condition type =>
    "cannot evaluate condition of type '" ++ type ++ "' as a boolean expression"
  | .returned source target => "cannot return '" ++ source ++ "' expected '" ++ target ++ "'"
  | .notAFunction type => "cannot invoke expression of type '" ++ type ++ "'"
  | .argument source target =>
    "cannot cast argument of type '" ++ source ++ "' into '" ++ target ++ "'"
  | .missingArgument name => "missing argument '" ++ name ++ "'"
  | .tooManyArguments => "too many arguments"
  | .structMember label => "struct body cannot contain expression of kind '" ++ label ++ "'"
  | .enumMember label =>
    "enum body can only contain '::' declarations, found '" ++ label ++ "'"
  | .noMembers name type => "cannot access member '" ++ name ++ "' of type '" ++ type ++ "'"
  | .notAStruct => "expected struct type before '\x7b'"
  | .missingHandle => "handle out of range"
  | .endlessType => "type without an end"
  | .outOfFuel => "nesting without an end"

end Cause

/-- A cause and its place; only a source with too many bytes has a fault without a place. -/
structure Fault where
  cause : Cause
  span : Option Span
deriving DecidableEq

/-- What a user reads about a fault in `source`. -/
def Fault.report (f : Fault) (source : List Char) : Diagnostic :=
  let d := Diagnostic.plain f.cause.kind f.cause.category f.cause.description
  match f.span with
  | some span => d.withSpan source span
  | none => d

end OnePass

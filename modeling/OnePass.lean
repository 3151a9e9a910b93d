import OnePass.Arena.Chunked
import OnePass.Arena.Fixed
import OnePass.Command
import OnePass.Diagnostic.Basic
import OnePass.Diagnostic.Cause
import OnePass.Grammar.Argument
import OnePass.Grammar.Branch
import OnePass.Grammar.Definition
import OnePass.Grammar.Nesting
import OnePass.Grammar.Operand
import OnePass.Grammar.Operation
import OnePass.Grammar.Production
import OnePass.Grammar.Record
import OnePass.Grammar.State
import OnePass.Lexicon.Escape
import OnePass.Lexicon.Pattern
import OnePass.Lexicon.Rules
import OnePass.Lexicon.Scan
import OnePass.Main
import OnePass.Number.Binary64
import OnePass.Number.Decimal
import OnePass.Number.Digits
import OnePass.Options
import OnePass.Parse
import OnePass.Proofs.Anchors
import OnePass.Proofs.Answers
import OnePass.Proofs.Arguments
import OnePass.Proofs.Assignments
import OnePass.Proofs.Balance
import OnePass.Proofs.Bracketing
import OnePass.Proofs.Building
import OnePass.Proofs.Carets
import OnePass.Proofs.Casts
import OnePass.Proofs.Chains
import OnePass.Proofs.Chunks
import OnePass.Proofs.Combs
import OnePass.Proofs.CommandLine
import OnePass.Proofs.Completion
import OnePass.Proofs.Couplings
import OnePass.Proofs.Course
import OnePass.Proofs.DeclaredTypes
import OnePass.Proofs.Definitions
import OnePass.Proofs.Depth
import OnePass.Proofs.Dumps
import OnePass.Proofs.Enclosure
import OnePass.Proofs.Ends
import OnePass.Proofs.Enums
import OnePass.Proofs.Expressions
import OnePass.Proofs.Faithful
import OnePass.Proofs.Faults
import OnePass.Proofs.Growth
import OnePass.Proofs.Handles
import OnePass.Proofs.Initializers
import OnePass.Proofs.Layout
import OnePass.Proofs.LeftOperands
import OnePass.Proofs.LineTables
import OnePass.Proofs.Longest
import OnePass.Proofs.Lookahead
import OnePass.Proofs.Lookup
import OnePass.Proofs.Members
import OnePass.Proofs.Names
import OnePass.Proofs.NodeFrames
import OnePass.Proofs.NodeNames
import OnePass.Proofs.Numerals
import OnePass.Proofs.Offsets
import OnePass.Proofs.OpenFrames
import OnePass.Proofs.Order
import OnePass.Proofs.Origin
import OnePass.Proofs.Outlines
import OnePass.Proofs.Parallel
import OnePass.Proofs.Parts
import OnePass.Proofs.Phrase
import OnePass.Proofs.Places
import OnePass.Proofs.Postorder
import OnePass.Proofs.Primary
import OnePass.Proofs.Progress
import OnePass.Proofs.Questions
import OnePass.Proofs.Quotes
import OnePass.Proofs.Rebinding
import OnePass.Proofs.References
import OnePass.Proofs.Registration
import OnePass.Proofs.Respacing
import OnePass.Proofs.Returns
import OnePass.Proofs.Rules
import OnePass.Proofs.Run
import OnePass.Proofs.Safe
import OnePass.Proofs.Safety
import OnePass.Proofs.Scanning
import OnePass.Proofs.Separators
import OnePass.Proofs.Signatures
import OnePass.Proofs.Soundness
import OnePass.Proofs.Spans
import OnePass.Proofs.Statements
import OnePass.Proofs.Steady
import OnePass.Proofs.Termination
import OnePass.Proofs.Tracks
import OnePass.Proofs.Trail
import OnePass.Proofs.Turns
import OnePass.Proofs.Twins
import OnePass.Proofs.Typing
import OnePass.Proofs.Upkeep
import OnePass.Proofs.Watched
import OnePass.Proofs.Written
import OnePass.Span
import OnePass.Text.Basic
import OnePass.Text.Lines
import OnePass.Text.Quoted
import OnePass.Text.Snippet
import OnePass.Text.Unprintable
import OnePass.Text.Visible
import OnePass.Token.Basic
import OnePass.Token.Cursor
import OnePass.Token.Kind
import OnePass.Token.Set
import OnePass.Tree.Assoc
import OnePass.Tree.Basic
import OnePass.Tree.Dump
import OnePass.Tree.Entity
import OnePass.Tree.Expr
import OnePass.Tree.Frame
import OnePass.Tree.Handle
import OnePass.Tree.Operator
import OnePass.Types.Builtin
import OnePass.Types.Cast
import OnePass.Types.Signature
import OnePass.Types.Typing

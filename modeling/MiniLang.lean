import MiniLang.Diagnostic
import MiniLang.Diagnostic.Log
import MiniLang.Diagnostic.Display
import MiniLang.Source.LineIndex
import MiniLang.Number.Binary64
import MiniLang.Number.Shortest
import MiniLang.Token
import MiniLang.Token.Lexeme
import MiniLang.Token.Scan
import MiniLang.Operator
import MiniLang.ValueType
import MiniLang.Scope
import MiniLang.TextPool
import MiniLang.Tree.Forest
import MiniLang.Tree.Unfold
import MiniLang.Program
import MiniLang.Reading.SyntaxError
import MiniLang.Reading.State
import MiniLang.Reading.Expression
import MiniLang.Reading.Statement
import MiniLang.Reading.Program
import MiniLang.Number.Hexadecimal
import MiniLang.Typing.Tag
import MiniLang.Typing.Rules
import MiniLang.Typing.TypeError
import MiniLang.Typing.Check
import MiniLang.Code.FreshNames
import MiniLang.Code.Instr
import MiniLang.Code.Listing
import MiniLang.Code.LowerError
import MiniLang.Code.Lower
import MiniLang.Compile
import MiniLang.Command.Options
import MiniLang.Command.FileSystem
import MiniLang.Command.Session
import MiniLang.Main
import MiniLang.Proofs.Tree.WellFounded
import MiniLang.Proofs.Reading.WellFounded
import MiniLang.Proofs.Scope
import MiniLang.Proofs.Typing.Judgement
import MiniLang.Proofs.Typing.Checking
import MiniLang.Proofs.Code.Emission
import MiniLang.Proofs.Code.Agreement
import MiniLang.Proofs.Code.Blocks
import MiniLang.Proofs.Code.Layout
import MiniLang.Proofs.Code.Availability
import MiniLang.Proofs.Code.SingleAssignment
import MiniLang.Proofs.Semantics.Source
import MiniLang.Proofs.Semantics.Soundness
import MiniLang.Proofs.Semantics.Machine
import MiniLang.Proofs.Semantics.Stretches
import MiniLang.Proofs.Semantics.Expressions
import MiniLang.Proofs.Semantics.Statements
import MiniLang.Proofs.Semantics.Preservation
import MiniLang.Proofs.Tree.Reachability
import MiniLang.Proofs.Typing.Decision
import MiniLang.Proofs.Code.Refusal
import MiniLang.Proofs.Code.TypedCode
import MiniLang.Proofs.Reading.Grammar
import MiniLang.Proofs.Tree.Readback
import MiniLang.Proofs.Reading.Phrases
import MiniLang.Proofs.Reading.Sentences
import MiniLang.Proofs.Reading.Errors
import MiniLang.Proofs.Reading.Acceptance
import MiniLang.Proofs.Reading.Recognition
import MiniLang.Proofs.Reading.Steps
import MiniLang.Proofs.Reading.Shape
import MiniLang.Proofs.Reading.Ownership
import MiniLang.Proofs.Reading.Reports
import MiniLang.Proofs.Reading.Fragments
import MiniLang.Proofs.Reading.Recovery
import MiniLang.Proofs.Source.Lines
import MiniLang.Proofs.Token.Patterns
import MiniLang.Proofs.Token.Munch
import MiniLang.Proofs.Token.Meaning
import MiniLang.Proofs.Token.Tiling
import MiniLang.Proofs.Diagnostic.Limit
import MiniLang.Proofs.Relabelling.Action
import MiniLang.Proofs.Relabelling.Reading
import MiniLang.Proofs.Relabelling.Checking
import MiniLang.Proofs.Code.Determinism
import MiniLang.Proofs.Relabelling.Code
import MiniLang.Proofs.Token.Spacing
import MiniLang.Proofs.Relabelling.Lines
import MiniLang.Proofs.Code.Constants
import MiniLang.Proofs.Code.Slots
import MiniLang.Proofs.Relabelling.Names
import MiniLang.Proofs.Code.Landmarks
import MiniLang.Proofs.Token.Quotation
import MiniLang.Proofs.Code.Literals
import MiniLang.Proofs.Command.FileSystem
import MiniLang.Proofs.Command.Session
import MiniLang.Proofs.Tree.Visits
import MiniLang.Proofs.Typing.Offences
import MiniLang.Proofs.Typing.Findings
import MiniLang.Proofs.Number.Rounding
import MiniLang.Proofs.Token.Reals
import MiniLang.Proofs.Token.Spelling
import MiniLang.Proofs.Reading.Leaves
import MiniLang.Proofs.Code.LineWords
import MiniLang.Proofs.Code.RealWords
import MiniLang.Proofs.Code.Tallies
import MiniLang.Proofs.Code.RealOperands
import MiniLang.Proofs.Code.RealLiterals
import MiniLang.Proofs.Code.Visited
import MiniLang.Proofs.Code.Promotions
import MiniLang.Proofs.Code.TextOutput
import MiniLang.Proofs.Semantics.Ordering
import MiniLang.Proofs.Semantics.Rewriting
import MiniLang.Proofs.Code.Negated
import MiniLang.Proofs.Code.Inequality
import MiniLang.Proofs.Code.IntegerWords
import MiniLang.Proofs.Code.Readback
import MiniLang.Proofs.Code.ModuleText
import MiniLang.Proofs.Code.IntegerOperands
import MiniLang.Proofs.Code.IntegerLiterals
import MiniLang.Proofs.Diagnostic.Runs
import MiniLang.Proofs.Scope.FirstDeclarations
import MiniLang.Proofs.Typing.Coverage
import MiniLang.Proofs.Code.PrintableLines
import MiniLang.Proofs.Diagnostic.Wording
import MiniLang.Proofs.Command.Lines
import MiniLang.Proofs.Command.Arguments

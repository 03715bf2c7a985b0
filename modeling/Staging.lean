import Staging.Calendar
import Staging.CommandLine.Arguments
import Staging.CommandLine.Directory
import Staging.CommandLine.Run
import Staging.Diagnostic
import Staging.Diagnostic.Snippet
import Staging.Json
import Staging.Main
import Staging.Names
import Staging.Number.Fixed
import Staging.Number.Read
import Staging.Proofs.Source.RoundTrip
import Staging.Script.Builtin
import Staging.Script.Operator
import Staging.Script.Run
import Staging.Script.Scope
import Staging.Source.Grammar.Program
import Staging.Source.Layout
import Staging.Source.Precedence
import Staging.Source.Scan
import Staging.Template.Compile
import Staging.Template.Context
import Staging.Template.Error
import Staging.Template.Execute
import Staging.Template.Fragment
import Staging.Template.Generator
import Staging.Template.Program
import Staging.Template.References
import Staging.Template.Registry
import Staging.Template.SelfCall
import Staging.Template.Written
import Staging.Text.Blank
import Staging.Text.Case
import Staging.Text.Escaped
import Staging.Text.Quoted
import Staging.Text.Search
import Staging.Proofs.Source.SameText
import Staging.Proofs.Template.Registry
import Staging.Proofs.Template.Walk
import Staging.Proofs.Template.Origin
import Staging.Proofs.Template.StagedJumps
import Staging.Proofs.Script.Scope
import Staging.Proofs.Template.Fragments
import Staging.Proofs.Template.PassThrough
import Staging.Proofs.Template.KnownNames
import Staging.Proofs.Source.Tidy
import Staging.Proofs.Source.Readable
import Staging.Proofs.Grammar.Output
import Staging.Proofs.Source.FixedPoint
import Staging.Proofs.Template.Specialize
import Staging.Proofs.Template.ValueText
import Staging.Proofs.Template.Placed
import Staging.Proofs.Template.KeptExpr
import Staging.Proofs.Template.Statements
import Staging.Proofs.Template.KeptStmt
import Staging.Proofs.Template.StagedStmt
import Staging.Proofs.Template.Refinement
import Staging.Proofs.Template.Visits
import Staging.Proofs.Template.KeptLoops
import Staging.Proofs.Template.ScopedExpr
import Staging.Proofs.Template.ScopedStmt
import Staging.Proofs.Template.KeptJumps
import Staging.Proofs.Template.Restoring
import Staging.Proofs.Template.Composition
import Staging.Proofs.Script.Datum
import Staging.Proofs.Template.DatumTree
import Staging.Proofs.Template.ReadBack
import Staging.Proofs.Script.Effects
import Staging.Proofs.Script.ScopeNames
import Staging.Proofs.Template.Running
import Staging.Proofs.Template.Moments
import Staging.Proofs.Template.Scopes
import Staging.Proofs.Script.Lookups
import Staging.Proofs.Template.InlinedNames
import Staging.Proofs.Script.Assignment
import Staging.Proofs.Template.Bindings
import Staging.Proofs.Script.Discipline
import Staging.Proofs.Script.Rules
import Staging.Proofs.Script.Watch
import Staging.Proofs.Script.CallDepth
import Staging.Proofs.Script.JumpTargets
import Staging.Proofs.Template.Circular
import Staging.Proofs.Script.Finalizer
import Staging.Proofs.Script.OptionalChain
import Staging.Proofs.Script.MethodCall
import Staging.Proofs.Calendar.Stamps
import Staging.Proofs.Script.Elements
import Staging.Proofs.Template.Dates
import Staging.Proofs.Template.Independence
import Staging.Proofs.Template.Sequence
import Staging.Proofs.Template.Grounded
import Staging.Proofs.Script.Twin
import Staging.Proofs.Script.Abreast
import Staging.Proofs.Template.Repeatable
import Staging.Proofs.Text.Search
import Staging.Proofs.Number.Whole
import Staging.Proofs.Script.TextMethods
import Staging.Proofs.Source.Pieces
import Staging.Proofs.Source.Tiling
import Staging.Proofs.Grammar.Rows
import Staging.Proofs.Grammar.Nesting
import Staging.Proofs.Source.SpanTree
import Staging.Proofs.Source.Nested
import Staging.Proofs.Source.Literals
import Staging.Proofs.Template.Coalesced
import Staging.Proofs.Source.Signless
import Staging.Proofs.Grammar.Numerals
import Staging.Proofs.Script.Meaning
import Staging.Proofs.Script.Contents
import Staging.Proofs.Script.PureRuns
import Staging.Proofs.Template.PlainData
import Staging.Proofs.Template.Inlining
import Staging.Proofs.Template.SameMeaning

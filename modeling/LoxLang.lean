import LoxLang.Analysis
import LoxLang.Bindings
import LoxLang.CommandLine
import LoxLang.Diagnostic
import LoxLang.Directory
import LoxLang.Grammar.Cursor
import LoxLang.Grammar.Expression
import LoxLang.Grammar.Statement
import LoxLang.Host
import LoxLang.Json.Basic
import LoxLang.Json.Reader
import LoxLang.Json.Written
import LoxLang.Main
import LoxLang.Number.Binary
import LoxLang.Number.Read
import LoxLang.Number.Shortest
import LoxLang.Number.Written
import LoxLang.Prompt
import LoxLang.Proofs.Coupling
import LoxLang.Proofs.Grammar.Completeness
import LoxLang.Proofs.Grammar.Cursor
import LoxLang.Proofs.Grammar.Derivation
import LoxLang.Proofs.Grammar.EndMark
import LoxLang.Proofs.Grammar.Exactness
import LoxLang.Proofs.Grammar.Leaves
import LoxLang.Proofs.Grammar.Nesting
import LoxLang.Proofs.Grammar.Numbering
import LoxLang.Proofs.Grammar.Parallel
import LoxLang.Proofs.Grammar.Pieces
import LoxLang.Proofs.Grammar.Progress
import LoxLang.Proofs.Grammar.Recovery
import LoxLang.Proofs.Grammar.Rounds
import LoxLang.Proofs.Grammar.Soundness
import LoxLang.Proofs.Json.Dumps
import LoxLang.Proofs.Json.Numbers
import LoxLang.Proofs.Json.Readback
import LoxLang.Proofs.Lexical.Agreement
import LoxLang.Proofs.Lexical.Evaluation
import LoxLang.Proofs.Lexical.Simulation
import LoxLang.Proofs.Lexical.State
import LoxLang.Proofs.Lexical.Steps
import LoxLang.Proofs.Likeness.Grammar
import LoxLang.Proofs.Likeness.Machine
import LoxLang.Proofs.Likeness.Run
import LoxLang.Proofs.Likeness.Scope
import LoxLang.Proofs.Likeness.Session
import LoxLang.Proofs.Likeness.Tree
import LoxLang.Proofs.Number.Arithmetic
import LoxLang.Proofs.Number.Modulo
import LoxLang.Proofs.Number.Nearest
import LoxLang.Proofs.Number.Reading
import LoxLang.Proofs.Number.Rounding
import LoxLang.Proofs.Number.Texts
import LoxLang.Proofs.Run.Ancestry
import LoxLang.Proofs.Run.Building
import LoxLang.Proofs.Run.Chains
import LoxLang.Proofs.Run.Cut
import LoxLang.Proofs.Run.Endurance
import LoxLang.Proofs.Run.Escape
import LoxLang.Proofs.Run.Fuel
import LoxLang.Proofs.Run.Growth
import LoxLang.Proofs.Run.Makeup
import LoxLang.Proofs.Run.Output
import LoxLang.Proofs.Run.Parts
import LoxLang.Proofs.Run.References
import LoxLang.Proofs.Run.Return
import LoxLang.Proofs.Run.Signal
import LoxLang.Proofs.Run.Task
import LoxLang.Proofs.Scope.Agreement
import LoxLang.Proofs.Scope.Binding
import LoxLang.Proofs.Scope.Composition
import LoxLang.Proofs.Scope.Joined
import LoxLang.Proofs.Scope.Resolution
import LoxLang.Proofs.Scope.Rules
import LoxLang.Proofs.Scope.Safety
import LoxLang.Proofs.Scope.Words
import LoxLang.Proofs.Session.Blame
import LoxLang.Proofs.Session.Conversation
import LoxLang.Proofs.Session.Course
import LoxLang.Proofs.Session.Foundation
import LoxLang.Proofs.Session.Initializers
import LoxLang.Proofs.Session.Inputs
import LoxLang.Proofs.Session.Joined
import LoxLang.Proofs.Session.Layout
import LoxLang.Proofs.Session.Methods
import LoxLang.Proofs.Session.Provenance
import LoxLang.Proofs.Session.Rejection
import LoxLang.Proofs.Session.Safety
import LoxLang.Proofs.Session.Sinks
import LoxLang.Proofs.Surface.Evaluation
import LoxLang.Proofs.Surface.Expansion
import LoxLang.Proofs.Surface.Loops
import LoxLang.Proofs.Surface.Tree
import LoxLang.Proofs.Token.Blanking
import LoxLang.Proofs.Token.Bytes
import LoxLang.Proofs.Token.Coverage
import LoxLang.Proofs.Token.Encoding
import LoxLang.Proofs.Token.Joined
import LoxLang.Proofs.Token.Lines
import LoxLang.Proofs.Token.Munch
import LoxLang.Proofs.Token.Spacing
import LoxLang.Proofs.Token.Words
import LoxLang.Proofs.Tree.Forms
import LoxLang.Proofs.Tree.Printed
import LoxLang.Proofs.Tree.Readback
import LoxLang.Proofs.Tree.Shape
import LoxLang.Run.Evaluation
import LoxLang.Run.Fault
import LoxLang.Run.Machine
import LoxLang.Run.Sink
import LoxLang.Run.Store
import LoxLang.Run.Value
import LoxLang.Scope.Distance
import LoxLang.Scope.Resolution
import LoxLang.Session
import LoxLang.Stepping
import LoxLang.Text.Blank
import LoxLang.Text.Mark
import LoxLang.Text.Quoted
import LoxLang.Text.Utf8
import LoxLang.Token.Basic
import LoxLang.Token.Dump
import LoxLang.Token.Scan
import LoxLang.Tree.Basic
import LoxLang.Tree.Dump
import LoxLang.Tree.Printed

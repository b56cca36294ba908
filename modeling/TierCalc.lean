import TierCalc.Calculator
import TierCalc.Console.Address
import TierCalc.Console.Command
import TierCalc.Console.Completion
import TierCalc.Console.Flag
import TierCalc.Console.Help
import TierCalc.Console.Lines
import TierCalc.Console.Path
import TierCalc.Console.Run
import TierCalc.Console.Script.Bash
import TierCalc.Console.Script.Fish
import TierCalc.Console.Script.PowerShell
import TierCalc.Console.Script.Zsh
import TierCalc.Console.Session
import TierCalc.Console.Settings
import TierCalc.Diagnostic.Code
import TierCalc.Diagnostic.EditDistance
import TierCalc.Diagnostic.Report
import TierCalc.Diagnostic.Suggestion
import TierCalc.Engine.Compile
import TierCalc.Engine.Config
import TierCalc.Engine.Event
import TierCalc.Engine.Execute
import TierCalc.Engine.Requests
import TierCalc.Engine.State
import TierCalc.Eval.Bindings
import TierCalc.Eval.Builtin
import TierCalc.Eval.Error
import TierCalc.Eval.Evaluate
import TierCalc.Eval.Scope
import TierCalc.Expr.Basic
import TierCalc.Expr.Names
import TierCalc.Expr.Parser
import TierCalc.Expr.SyntaxError
import TierCalc.Fallible
import TierCalc.Json.Basic
import TierCalc.Json.Reader
import TierCalc.Main
import TierCalc.Operator
import TierCalc.Profile.Cache
import TierCalc.Profile.Counters
import TierCalc.Profile.Fingerprint
import TierCalc.Reference
import TierCalc.Routine.Generate
import TierCalc.Routine.Layout
import TierCalc.Routine.Listing
import TierCalc.Routine.Verify
import TierCalc.Service.Handler
import TierCalc.Service.Hook
import TierCalc.Service.Message
import TierCalc.Service.Target
import TierCalc.Service.View
import TierCalc.Source.Lexer
import TierCalc.Source.Position
import TierCalc.Source.Token
import TierCalc.Table
import TierCalc.Text.Blank
import TierCalc.Text.Bytes
import TierCalc.Text.CharRange
import TierCalc.Text.Cluster
import TierCalc.Text.ClusterClass
import TierCalc.Text.Csv
import TierCalc.Text.DecimalLiteral
import TierCalc.Text.DisplayWidth
import TierCalc.Text.Duration
import TierCalc.Text.IntegerLiteral
import TierCalc.Text.Ipv6
import TierCalc.Text.LowerCase
import TierCalc.Text.Numeral
import TierCalc.Text.Percent
import TierCalc.Text.Printable
import TierCalc.Text.Quoted
import TierCalc.Text.ShortestDecimal
import TierCalc.Text.Timestamp
import TierCalc.Text.Utf8
import TierCalc.Text.YamlScalar
import TierCalc.X64.Arena
import TierCalc.X64.Bank
import TierCalc.X64.Buffer
import TierCalc.X64.Decode
import TierCalc.X64.Encode
import TierCalc.X64.Instr
import TierCalc.X64.Machine
import TierCalc.X64.Region
import TierCalc.Proofs.X64.Arithmetic
import TierCalc.Proofs.X64.Codec
import TierCalc.Proofs.X64.Assembler
import TierCalc.Proofs.X64.Canonical
import TierCalc.Proofs.X64.Execution
import TierCalc.Proofs.Expr.Induction
import TierCalc.Proofs.Routine.Area
import TierCalc.Proofs.Routine.Body
import TierCalc.Proofs.Routine.Backward
import TierCalc.Proofs.Routine.Outcome
import TierCalc.Proofs.Routine.Operators
import TierCalc.Proofs.Routine.Simulation
import TierCalc.Proofs.Routine.Call
import TierCalc.Proofs.Routine.Explored
import TierCalc.Proofs.Routine.Contract
import TierCalc.Proofs.Eval.Bindings
import TierCalc.Proofs.Routine.Order
import TierCalc.Proofs.Routine.Correctness
import TierCalc.Proofs.Expr.Shape
import TierCalc.Proofs.Source.Lexer
import TierCalc.Proofs.Expr.Grammar
import TierCalc.Proofs.Expr.Soundness
import TierCalc.Proofs.Expr.Completeness
import TierCalc.Proofs.Engine.Stock
import TierCalc.Proofs.Eval.Functions
import TierCalc.Proofs.Engine.Execution
import TierCalc.Proofs.Engine.Session
import TierCalc.Proofs.Engine.Provenance
import TierCalc.Proofs.Engine.Promotion
import TierCalc.Proofs.Routine.Paths
import TierCalc.Proofs.Routine.Safety
import TierCalc.Proofs.Routine.Discipline
import TierCalc.Proofs.Expr.Exactness
import TierCalc.Proofs.Profile.Lifecycle
import TierCalc.Proofs.Profile.Encoding
import TierCalc.Proofs.X64.Arena
import TierCalc.Proofs.Eval.Effects
import TierCalc.Proofs.Engine.Regions
import TierCalc.Proofs.Engine.Staleness
import TierCalc.Proofs.Routine.Domain
import TierCalc.Proofs.Routine.Balance
import TierCalc.Proofs.Routine.Accepted
import TierCalc.Proofs.Engine.Conservation
import TierCalc.Proofs.Profile.Artifacts
import TierCalc.Proofs.Engine.Modes
import TierCalc.Proofs.Text.Bytes
import TierCalc.Proofs.Source.Spelling
import TierCalc.Proofs.Source.Reading
import TierCalc.Proofs.Expr.Canonical
import TierCalc.Proofs.Engine.Eviction
import TierCalc.Proofs.Routine.Statics
import TierCalc.Proofs.Eval.Layers
import TierCalc.Proofs.Expr.Nesting
import TierCalc.Proofs.Source.Passages
import TierCalc.Proofs.Expr.Placement
import TierCalc.Proofs.X64.Relocation
import TierCalc.Proofs.Routine.Relocation
import TierCalc.Proofs.Routine.Listing
import TierCalc.Proofs.Diagnostic.EditDistance
import TierCalc.Proofs.Diagnostic.Suggestion
import TierCalc.Proofs.Diagnostic.Excerpt
import TierCalc.Proofs.Expr.Outcomes
import TierCalc.Proofs.Expr.Carets
import TierCalc.Proofs.Eval.Independence
import TierCalc.Proofs.Eval.Modular

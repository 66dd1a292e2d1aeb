import TreeCompiler.Bindings
import TreeCompiler.Code.Flattening
import TreeCompiler.Code.Fragment
import TreeCompiler.Code.Supply
import TreeCompiler.Code.Text
import TreeCompiler.Code.Tree
import TreeCompiler.CommandLine
import TreeCompiler.CommandLine.Directory
import TreeCompiler.Compile
import TreeCompiler.Decimal.Shortest
import TreeCompiler.Diagnostic.Basic
import TreeCompiler.Diagnostic.Code
import TreeCompiler.Diagnostic.Queue
import TreeCompiler.Frame.Basic
import TreeCompiler.Frame.Stack
import TreeCompiler.Frame.Tailored
import TreeCompiler.Json.Fault
import TreeCompiler.Json.Number
import TreeCompiler.Json.Reader
import TreeCompiler.Json.Reader.Number
import TreeCompiler.Json.Reader.Shape
import TreeCompiler.Json.Reader.Skip
import TreeCompiler.Json.Reader.String
import TreeCompiler.Json.Value
import TreeCompiler.Lower.Basic
import TreeCompiler.Lower.Expr
import TreeCompiler.Lower.Program
import TreeCompiler.Main
import TreeCompiler.Proofs.Acceptance
import TreeCompiler.Proofs.Lowering
import TreeCompiler.Proofs.Scoping
import TreeCompiler.Resolve.Functions
import TreeCompiler.Resolve.Program
import TreeCompiler.Resolve.Report
import TreeCompiler.Resolve.Variables
import TreeCompiler.Source.Reader
import TreeCompiler.Source.Span
import TreeCompiler.Source.Tree
import TreeCompiler.Source.Writer
import TreeCompiler.Text.Integer
import TreeCompiler.Text.Printable
import TreeCompiler.Text.Quoted
import TreeCompiler.Proofs.Totality
import TreeCompiler.Proofs.CodeLabels
import TreeCompiler.Proofs.LabelDiscipline
import TreeCompiler.Proofs.Evaluation
import TreeCompiler.Proofs.Machine
import TreeCompiler.Proofs.Computation
import TreeCompiler.Proofs.Simulation
import TreeCompiler.Proofs.Activation
import TreeCompiler.Proofs.Meaning
import TreeCompiler.Proofs.ErrorLimit
import TreeCompiler.Proofs.CodeTemps
import TreeCompiler.Proofs.TempDiscipline
import TreeCompiler.Proofs.CodeRenaming
import TreeCompiler.Proofs.NameDraws
import TreeCompiler.Proofs.Transparency
import TreeCompiler.Proofs.BindingStructure
import TreeCompiler.Proofs.Earlier
import TreeCompiler.Proofs.QueueRuns
import TreeCompiler.Proofs.VariableReports
import TreeCompiler.Proofs.FunctionReports
import TreeCompiler.Proofs.JsonScalars
import TreeCompiler.Proofs.JsonShapes
import TreeCompiler.Proofs.SourceRoundTrip
import TreeCompiler.Proofs.ControlPaths
import TreeCompiler.Proofs.Emissions
import TreeCompiler.Proofs.OutputShape
import TreeCompiler.Proofs.LastBinding
import TreeCompiler.Proofs.DefiniteAssignment
import TreeCompiler.Proofs.Census
import TreeCompiler.Proofs.FrameStorage
import TreeCompiler.Proofs.Flushes
import TreeCompiler.Proofs.FiniteMaps
import TreeCompiler.Proofs.CodeText
import TreeCompiler.Proofs.Purity
import TreeCompiler.Proofs.CommandOutcome
import TreeCompiler.Proofs.SourceSpelling
import TreeCompiler.Proofs.Sequencing

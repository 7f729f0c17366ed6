import NativeGlue.Binary64
import NativeGlue.Binary64.Places
import NativeGlue.Command.Arguments
import NativeGlue.Command.Artifact
import NativeGlue.Command.Document
import NativeGlue.Command.External
import NativeGlue.Command.Generate
import NativeGlue.Command.GenerationReport
import NativeGlue.Command.Inspect
import NativeGlue.Command.Sources
import NativeGlue.Command.Tool
import NativeGlue.Config.Fault
import NativeGlue.Config.Shape
import NativeGlue.Config.Target
import NativeGlue.Diff.Matching
import NativeGlue.Diff.Unified
import NativeGlue.Failure
import NativeGlue.Files.Installed
import NativeGlue.Files.Path
import NativeGlue.Files.Programs
import NativeGlue.Files.Resolution
import NativeGlue.Files.Snapshot
import NativeGlue.Files.Tree
import NativeGlue.Files.Workspace
import NativeGlue.Glue.Acquisition
import NativeGlue.Glue.Method
import NativeGlue.Glue.Report
import NativeGlue.Glue.Unit
import NativeGlue.Header.Comment
import NativeGlue.Header.Signature
import NativeGlue.Header.TypeName
import NativeGlue.JavaType
import NativeGlue.Json.Printer
import NativeGlue.Json.Reader
import NativeGlue.Json.Value
import NativeGlue.Linking
import NativeGlue.Main
import NativeGlue.Proofs.Glue.Layout
import NativeGlue.Proofs.Text.Occurrence
import NativeGlue.Proofs.Traversal
import NativeGlue.Segment
import NativeGlue.Shell.Alias
import NativeGlue.Shell.Arithmetic
import NativeGlue.Shell.Choice
import NativeGlue.Shell.Condition
import NativeGlue.Shell.Control
import NativeGlue.Shell.Copy
import NativeGlue.Shell.Copy.Backup
import NativeGlue.Shell.Copy.Found
import NativeGlue.Shell.Copy.Manner
import NativeGlue.Shell.Directive
import NativeGlue.Shell.Expansion
import NativeGlue.Shell.Field
import NativeGlue.Shell.FileProgram
import NativeGlue.Shell.Glob
import NativeGlue.Shell.Job
import NativeGlue.Shell.Limits
import NativeGlue.Shell.Lookup
import NativeGlue.Shell.Numeral
import NativeGlue.Shell.Options
import NativeGlue.Shell.Output
import NativeGlue.Shell.Pattern
import NativeGlue.Shell.Process
import NativeGlue.Shell.Quoting
import NativeGlue.Shell.Reader
import NativeGlue.Shell.Redirect
import NativeGlue.Shell.Run
import NativeGlue.Shell.Script
import NativeGlue.Shell.ScriptReader
import NativeGlue.Shell.Signal
import NativeGlue.Shell.State
import NativeGlue.Shell.Token
import NativeGlue.Shell.TokenReader
import NativeGlue.Shell.Variables
import NativeGlue.Shell.WordReader
import NativeGlue.Source.Annotation
import NativeGlue.Source.Fault
import NativeGlue.Source.Lexeme
import NativeGlue.Source.NativeMethod
import NativeGlue.Source.Parameter
import NativeGlue.Source.Scan
import NativeGlue.Symbol
import NativeGlue.Text.Basic
import NativeGlue.Text.Blank
import NativeGlue.Text.Commas
import NativeGlue.Text.Comment
import NativeGlue.Text.Encoding
import NativeGlue.Text.Lines
import NativeGlue.Text.PrintTable
import NativeGlue.Text.Quoted
import NativeGlue.Text.ShellWord
import NativeGlue.Text.Wildcard
import NativeGlue.Text.Word
import NativeGlue.Text.WordTable
import NativeGlue.Proofs.Glue.Pointers
import NativeGlue.Proofs.Glue.Calls
import NativeGlue.Proofs.Glue.Discipline
import NativeGlue.Proofs.Linking
import NativeGlue.Proofs.Source.NativeOutcome
import NativeGlue.Proofs.Text.Splitting
import NativeGlue.Proofs.Text.Word
import NativeGlue.Proofs.Source.Outline
import NativeGlue.Proofs.Source.Statement
import NativeGlue.Proofs.Source.Spelling
import NativeGlue.Proofs.Source.Heading
import NativeGlue.Proofs.Source.Passage
import NativeGlue.Proofs.Source.RoundTrip
import NativeGlue.Proofs.Glue.Variables
import NativeGlue.Proofs.Glue.Naming
import NativeGlue.Proofs.Source.Stacks
import NativeGlue.Proofs.Glue.Generation
import NativeGlue.Proofs.Header.TypeName
import NativeGlue.Proofs.Header.Outline
import NativeGlue.Proofs.Header.Prototype
import NativeGlue.Proofs.Header.Comment
import NativeGlue.Proofs.Header.RoundTrip
import NativeGlue.Proofs.Source.LineNumbers
import NativeGlue.Proofs.Source.Respacing
import NativeGlue.Proofs.Source.Concatenation
import NativeGlue.Proofs.Text.Order
import NativeGlue.Proofs.Text.Filling
import NativeGlue.Proofs.Files.Tree
import NativeGlue.Proofs.Files.Growth
import NativeGlue.Proofs.Files.Walk
import NativeGlue.Proofs.Files.Action
import NativeGlue.Proofs.Files.Reading
import NativeGlue.Proofs.Files.Resolution
import NativeGlue.Proofs.Files.Writing
import NativeGlue.Proofs.Files.Traversal
import NativeGlue.Proofs.Files.Listing
import NativeGlue.Proofs.Glue.CarriageReturns
import NativeGlue.Proofs.Command.Sources
import NativeGlue.Proofs.Command.Artifact
import NativeGlue.Proofs.Command.Step
import NativeGlue.Proofs.Command.History
import NativeGlue.Proofs.Command.Interruption
import NativeGlue.Proofs.Command.Progress
import NativeGlue.Proofs.Command.Replay
import NativeGlue.Proofs.Command.Modes
import NativeGlue.Proofs.Command.Convergence
import NativeGlue.Proofs.Command.ArtifactName
import NativeGlue.Proofs.Json.Number
import NativeGlue.Proofs.Config.Grammar
import NativeGlue.Proofs.Source.Names
import NativeGlue.Proofs.Symbol
import NativeGlue.Proofs.Header.CommentScan
import NativeGlue.Proofs.Source.Delimiters
import NativeGlue.Proofs.Text.Squeeze
import NativeGlue.Proofs.JavaType
import NativeGlue.Proofs.LinkOutcome
import NativeGlue.Proofs.Source.Annotation
import NativeGlue.Proofs.Source.TypeText
import NativeGlue.Proofs.Source.ParameterSpelling
import NativeGlue.Proofs.Source.AnnotationScan
import NativeGlue.Proofs.Source.Adornment
import NativeGlue.Proofs.Source.ParameterList
import NativeGlue.Proofs.Source.AnnotatedMethod
import NativeGlue.Proofs.Source.ParameterElements
import NativeGlue.Proofs.Glue.WrapperCall
import NativeGlue.Proofs.Header.LineNumbers
import NativeGlue.Proofs.Source.NativeFree
import NativeGlue.Proofs.Command.Settling
import NativeGlue.Proofs.Diff.Matching
import NativeGlue.Proofs.Diff.Mirror
import NativeGlue.Proofs.Diff.Unified
import NativeGlue.Proofs.Command.Visibility
import NativeGlue.Proofs.Command.Template
import NativeGlue.Proofs.Text.Wildcard
import NativeGlue.Proofs.Header.Spelling
import NativeGlue.Proofs.Header.TypeSpacing
import NativeGlue.Proofs.Header.ParameterSpacing
import NativeGlue.Proofs.Header.SpelledHeader
import NativeGlue.Proofs.Source.Closing
import NativeGlue.Proofs.Source.AnnotationErasure

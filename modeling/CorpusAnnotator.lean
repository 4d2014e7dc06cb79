import CorpusAnnotator.Annotator.Basic
import CorpusAnnotator.Annotator.Scripted
import CorpusAnnotator.Archive.Checksum
import CorpusAnnotator.Archive.CodePage437
import CorpusAnnotator.Archive.Inflate
import CorpusAnnotator.Archive.Reader
import CorpusAnnotator.Archive.Record
import CorpusAnnotator.Archive.Writer
import CorpusAnnotator.CommandLine
import CorpusAnnotator.Config.Basic
import CorpusAnnotator.Config.Load
import CorpusAnnotator.Corpus.Basic
import CorpusAnnotator.Corpus.Read
import CorpusAnnotator.Corpus.Synthetic
import CorpusAnnotator.Corpus.Write
import CorpusAnnotator.Evaluation.Evaluator
import CorpusAnnotator.Evaluation.Report
import CorpusAnnotator.Evaluation.Scores
import CorpusAnnotator.Event
import CorpusAnnotator.Failure
import CorpusAnnotator.Files.Glob
import CorpusAnnotator.Files.SystemError
import CorpusAnnotator.Files.Tree
import CorpusAnnotator.Json.Decoder
import CorpusAnnotator.Json.Document
import CorpusAnnotator.Json.Numeral
import CorpusAnnotator.Json.Printer
import CorpusAnnotator.Logging.Filter
import CorpusAnnotator.Main
import CorpusAnnotator.MasterSpec
import CorpusAnnotator.Metrics
import CorpusAnnotator.Model
import CorpusAnnotator.Number.Binary64
import CorpusAnnotator.Number.Decimal
import CorpusAnnotator.Number.Integer
import CorpusAnnotator.Pipeline
import CorpusAnnotator.Settings.KeyPath
import CorpusAnnotator.Settings.Layers
import CorpusAnnotator.Settings.Value
import CorpusAnnotator.Shell.Arithmetic
import CorpusAnnotator.Shell.Launch
import CorpusAnnotator.Shell.Machine
import CorpusAnnotator.Shell.Octets
import CorpusAnnotator.Shell.Parser
import CorpusAnnotator.Shell.Run
import CorpusAnnotator.Shell.Script
import CorpusAnnotator.Shell.Utilities
import CorpusAnnotator.Startup
import CorpusAnnotator.Summary.Basic
import CorpusAnnotator.Summary.Reader
import CorpusAnnotator.Tensor
import CorpusAnnotator.Text.Alphanumeric
import CorpusAnnotator.Text.Blank
import CorpusAnnotator.Text.CharClass
import CorpusAnnotator.Text.Printable
import CorpusAnnotator.Text.Quoted
import CorpusAnnotator.Text.Split
import CorpusAnnotator.Text.Taken
import CorpusAnnotator.Text.Utf8
import CorpusAnnotator.TextFormat.Error
import CorpusAnnotator.TextFormat.Lexer
import CorpusAnnotator.TextFormat.Literal
import CorpusAnnotator.TextFormat.Message
import CorpusAnnotator.TextFormat.Parser
import CorpusAnnotator.TextFormat.Token
import CorpusAnnotator.Time.Date
import CorpusAnnotator.Time.Duration
import CorpusAnnotator.Time.Timestamp
import CorpusAnnotator.Toml.Document
import CorpusAnnotator.Toml.Quoted
import CorpusAnnotator.Toml.Reader
import CorpusAnnotator.Toml.Scalar
import CorpusAnnotator.Toml.Table
import CorpusAnnotator.Toml.Value
import CorpusAnnotator.Proofs.TextFormat.Grammar
import CorpusAnnotator.Proofs.Results
import CorpusAnnotator.Proofs.Text.Utf8
import CorpusAnnotator.Proofs.TextFormat.Acceptance
import CorpusAnnotator.Proofs.TextFormat.Layout
import CorpusAnnotator.Proofs.TextFormat.Lexing
import CorpusAnnotator.Proofs.TextFormat.RoundTrip
import CorpusAnnotator.Proofs.Annotator.Batchwise
import CorpusAnnotator.Proofs.Files.ReadBack
import CorpusAnnotator.Proofs.Pipeline.FirstFailure
import CorpusAnnotator.Proofs.Tensor.RoundTrip
import CorpusAnnotator.Proofs.Archive.Records
import CorpusAnnotator.Proofs.Archive.Entries
import CorpusAnnotator.Proofs.Archive.RoundTrip
import CorpusAnnotator.Proofs.Corpus.ReadBack
import CorpusAnnotator.Proofs.Files.Elsewhere
import CorpusAnnotator.Proofs.Pipeline.EndToEnd
import CorpusAnnotator.Proofs.Settings.Paths
import CorpusAnnotator.Proofs.Settings.Tables
import CorpusAnnotator.Proofs.Config.Keys
import CorpusAnnotator.Proofs.Config.Layers
import CorpusAnnotator.Proofs.Toml.Distinct
import CorpusAnnotator.Proofs.Config.Resolution
import CorpusAnnotator.Proofs.Tensor.Bounds
import CorpusAnnotator.Proofs.Annotator.BatchSize
import CorpusAnnotator.Proofs.Pipeline.Strictness
import CorpusAnnotator.Proofs.Config.Variables
import CorpusAnnotator.Proofs.Evaluation.Lines
import CorpusAnnotator.Proofs.Evaluation.Scores
import CorpusAnnotator.Proofs.Evaluation.LastLine
import CorpusAnnotator.Proofs.Evaluation.Streams
import CorpusAnnotator.Proofs.Text.Utf8Runs
import CorpusAnnotator.Proofs.TextFormat.Pieces
import CorpusAnnotator.Proofs.TextFormat.LexingSteps
import CorpusAnnotator.Proofs.TextFormat.LiteralText
import CorpusAnnotator.Proofs.TextFormat.Concatenation
import CorpusAnnotator.Proofs.TextFormat.Renumbering
import CorpusAnnotator.Proofs.TextFormat.ErrorLines
import CorpusAnnotator.Proofs.Number.Integer
import CorpusAnnotator.Proofs.TextFormat.Fields
import CorpusAnnotator.Proofs.MasterSpec.Components
import CorpusAnnotator.Proofs.MasterSpec.Declarations
import CorpusAnnotator.Proofs.Time.Sums
import CorpusAnnotator.Proofs.Metrics.Recording
import CorpusAnnotator.Proofs.Annotator.Accounting
import CorpusAnnotator.Proofs.Metrics.OrderStatistics
import CorpusAnnotator.Proofs.Files.Patterns
import CorpusAnnotator.Proofs.Files.PathPatterns
import CorpusAnnotator.Proofs.Archive.Distinct
import CorpusAnnotator.Proofs.Corpus.Reading
import CorpusAnnotator.Proofs.Corpus.PlainFiles
import CorpusAnnotator.Proofs.Config.Validation
import CorpusAnnotator.Proofs.Pipeline.Validation
import CorpusAnnotator.Proofs.CommandLine.Reading
import CorpusAnnotator.Proofs.CommandLine.Counts
import CorpusAnnotator.Proofs.Settings.OneValue
import CorpusAnnotator.Proofs.Config.Counts
import CorpusAnnotator.Proofs.Startup.Counts
import CorpusAnnotator.Proofs.Evaluation.BlankEdits
import CorpusAnnotator.Proofs.TextFormat.WithinLine
import CorpusAnnotator.Proofs.TextFormat.Lexemes
import CorpusAnnotator.Proofs.CommandLine.Storing
import CorpusAnnotator.Proofs.CommandLine.Spelling
import CorpusAnnotator.Proofs.CommandLine.Orders
import CorpusAnnotator.Proofs.Number.Rounding
import CorpusAnnotator.Proofs.Number.Shortest
import CorpusAnnotator.Proofs.Json.Numerals
import CorpusAnnotator.Proofs.Json.Quantities
import CorpusAnnotator.Proofs.Json.FloatTexts
import CorpusAnnotator.Proofs.Json.Texts
import CorpusAnnotator.Proofs.Json.ReadBack
import CorpusAnnotator.Proofs.Summary.Loading

import TeenyBasic.CommandLine.Arguments
import TeenyBasic.CommandLine.Help
import TeenyBasic.CommandLine.Run
import TeenyBasic.Compiler
import TeenyBasic.Cursor
import TeenyBasic.Diagnostic
import TeenyBasic.Failure
import TeenyBasic.FileStore
import TeenyBasic.Generate.Basic
import TeenyBasic.Generate.Expression
import TeenyBasic.Generate.Program
import TeenyBasic.Generate.Progress
import TeenyBasic.Generate.Statement
import TeenyBasic.Lexeme
import TeenyBasic.Listing
import TeenyBasic.Location
import TeenyBasic.Main
import TeenyBasic.Numeral
import TeenyBasic.Options
import TeenyBasic.Path
import TeenyBasic.Proofs.CLanguage.Arithmetic
import TeenyBasic.Proofs.CLanguage.Comparison
import TeenyBasic.Proofs.CLanguage.Constant
import TeenyBasic.Proofs.CLanguage.Conversion
import TeenyBasic.Proofs.CLanguage.Expression
import TeenyBasic.Proofs.CLanguage.Format
import TeenyBasic.Proofs.CLanguage.Lexis
import TeenyBasic.Proofs.CLanguage.Literal
import TeenyBasic.Proofs.CLanguage.Program
import TeenyBasic.Proofs.CommandLine.Outcome
import TeenyBasic.Proofs.CommandLine.Overwriting
import TeenyBasic.Proofs.Generation.Batch
import TeenyBasic.Proofs.Generation.Compilation
import TeenyBasic.Proofs.Generation.Conduct
import TeenyBasic.Proofs.Generation.Conformance
import TeenyBasic.Proofs.Generation.Continuation
import TeenyBasic.Proofs.Generation.Expectation
import TeenyBasic.Proofs.Generation.Indifference
import TeenyBasic.Proofs.Generation.Nesting
import TeenyBasic.Proofs.Generation.Passage
import TeenyBasic.Proofs.Generation.Recognition
import TeenyBasic.Proofs.Generation.Rejection
import TeenyBasic.Proofs.Generation.Report
import TeenyBasic.Proofs.Generation.Resumption
import TeenyBasic.Proofs.Generation.Simulation
import TeenyBasic.Proofs.Generation.Usage
import TeenyBasic.Proofs.Lexing.Concatenation
import TeenyBasic.Proofs.Lexing.Excerpt
import TeenyBasic.Proofs.Lexing.Flaw
import TeenyBasic.Proofs.Lexing.Layout
import TeenyBasic.Proofs.Lexing.LineEnding
import TeenyBasic.Proofs.Lexing.Rendering
import TeenyBasic.Proofs.Lexing.Spelling
import TeenyBasic.Proofs.Lexing.Stream
import TeenyBasic.Proofs.Lexing.Usage
import TeenyBasic.Proofs.Reading.Comparison
import TeenyBasic.Proofs.Reading.Essence
import TeenyBasic.Proofs.Reading.Expression
import TeenyBasic.Proofs.Reading.Grouping
import TeenyBasic.Proofs.Reading.NumberFormat
import TeenyBasic.Proofs.Reading.Occurrence
import TeenyBasic.Proofs.Reading.Printing
import TeenyBasic.Proofs.Reading.Program
import TeenyBasic.Proofs.Reading.Recovery
import TeenyBasic.Proofs.Reading.Statement
import TeenyBasic.Proofs.Reading.Valuation
import TeenyBasic.Proofs.Session.Fidelity
import TeenyBasic.Proofs.Session.FileSystem
import TeenyBasic.Proofs.Session.History
import TeenyBasic.Proofs.Session.LineEnding
import TeenyBasic.Proofs.Session.Respelling
import TeenyBasic.Proofs.Session.Suffix
import TeenyBasic.Proofs.Similarity.Matching
import TeenyBasic.Proofs.Similarity.Ranking
import TeenyBasic.Proofs.Source.Completion
import TeenyBasic.Proofs.Source.Derivation
import TeenyBasic.Proofs.Source.Grammar
import TeenyBasic.Proofs.Source.Naming
import TeenyBasic.Proofs.Source.Objection
import TeenyBasic.Proofs.Source.Tree
import TeenyBasic.Proofs.Text.Encoding
import TeenyBasic.Proofs.Text.Quotation
import TeenyBasic.Reserved
import TeenyBasic.Scope
import TeenyBasic.Similarity.Matching
import TeenyBasic.Similarity.Ranking
import TeenyBasic.Text.DecimalDigit
import TeenyBasic.Text.LineEnding
import TeenyBasic.Text.Lines
import TeenyBasic.Text.Printable
import TeenyBasic.Text.Quoted
import TeenyBasic.Text.Terminal
import TeenyBasic.Text.Utf8
import TeenyBasic.Token

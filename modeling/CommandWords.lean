import CommandWords.Json.Basic
import CommandWords.Json.Number
import CommandWords.Json.Reader
import CommandWords.Json.Writer
import CommandWords.Line.DoubleQuoted
import CommandWords.Line.Escape
import CommandWords.Line.Split
import CommandWords.Line.Step
import CommandWords.Log.Directive
import CommandWords.Log.Event
import CommandWords.Main
import CommandWords.Number.Binary64
import CommandWords.Number.Exact
import CommandWords.Number.Shortest
import CommandWords.Proofs.Framing
import CommandWords.Proofs.Json.Documents
import CommandWords.Proofs.Json.Grammar
import CommandWords.Proofs.Json.ListTruncation
import CommandWords.Proofs.Json.Lists
import CommandWords.Proofs.Json.NumberTruncation
import CommandWords.Proofs.Json.Numbers
import CommandWords.Proofs.Json.Range
import CommandWords.Proofs.Json.Scalars
import CommandWords.Proofs.Json.Strings
import CommandWords.Proofs.Json.Truncation
import CommandWords.Proofs.Json.ValueTruncation
import CommandWords.Proofs.Json.Writer
import CommandWords.Proofs.Line.Automaton
import CommandWords.Proofs.Line.Classification
import CommandWords.Proofs.Line.Concatenation
import CommandWords.Proofs.Line.Content
import CommandWords.Proofs.Line.EscapedSteps
import CommandWords.Proofs.Line.Lookahead
import CommandWords.Proofs.Line.Loop
import CommandWords.Proofs.Line.Pairing
import CommandWords.Proofs.Line.Quoted
import CommandWords.Proofs.Line.Reading
import CommandWords.Proofs.Line.RoundTrip
import CommandWords.Proofs.Line.Spans
import CommandWords.Proofs.Line.Spelling
import CommandWords.Proofs.Line.Step
import CommandWords.Proofs.Line.Unmatched
import CommandWords.Proofs.Number.Rounding
import CommandWords.Proofs.Request.Documents
import CommandWords.Proofs.Request.Fields
import CommandWords.Proofs.Request.Truncation
import CommandWords.Proofs.Response
import CommandWords.Proofs.Runs
import CommandWords.Proofs.Scan.Decomposition
import CommandWords.Proofs.Scan.Loop
import CommandWords.Proofs.Scan.Replacement
import CommandWords.Proofs.Scan.Walk
import CommandWords.Proofs.Session
import CommandWords.Proofs.Settings
import CommandWords.Proofs.Toml.Documents
import CommandWords.Proofs.Toml.Grammar
import CommandWords.Proofs.Toml.Strings
import CommandWords.Regex.Basic
import CommandWords.Regex.Catalogue
import CommandWords.Request.Basic
import CommandWords.Request.Execution
import CommandWords.Request.Mismatch
import CommandWords.Request.Reader
import CommandWords.Response
import CommandWords.Scan.Basic
import CommandWords.Scan.Literal
import CommandWords.Scan.Script
import CommandWords.Scan.Template
import CommandWords.Session
import CommandWords.Settings.Basic
import CommandWords.Settings.Loading
import CommandWords.Text.Basic
import CommandWords.Text.Blank
import CommandWords.Text.Digits
import CommandWords.Text.Printable
import CommandWords.Text.Quoted
import CommandWords.Toml.Basic
import CommandWords.Toml.Lexical
import CommandWords.Toml.Reader
import CommandWords.Toml.Scalar
import CommandWords.Toml.Table

import ExperimentScript.Command.Arguments
import ExperimentScript.Command.Console
import ExperimentScript.Command.Run
import ExperimentScript.Diagnostic
import ExperimentScript.Diagnostic.Render
import ExperimentScript.Diagnostic.Sources
import ExperimentScript.Editor.Range
import ExperimentScript.Editor.Request
import ExperimentScript.Editor.Session
import ExperimentScript.Editor.Uri
import ExperimentScript.FileTree
import ExperimentScript.Format.Constant
import ExperimentScript.Format.Script
import ExperimentScript.Highlight
import ExperimentScript.Host
import ExperimentScript.Json.Quoted
import ExperimentScript.Json.Reader
import ExperimentScript.Json.Writer
import ExperimentScript.Lexer
import ExperimentScript.Main
import ExperimentScript.Number.Binary64
import ExperimentScript.Number.Decimal
import ExperimentScript.Parser
import ExperimentScript.Parser.Cursor
import ExperimentScript.Parser.Embedded
import ExperimentScript.Parser.Expression
import ExperimentScript.Parser.Operators
import ExperimentScript.Proofs.Command.Compiling
import ExperimentScript.Proofs.Command.Effect
import ExperimentScript.Proofs.Command.Formatting
import ExperimentScript.Proofs.Command.Outcome
import ExperimentScript.Proofs.Command.Scripts
import ExperimentScript.Proofs.Diagnostic.Carets
import ExperimentScript.Proofs.Diagnostic.Quoted
import ExperimentScript.Proofs.Editor.Edit
import ExperimentScript.Proofs.Editor.Reports
import ExperimentScript.Proofs.Editor.Session
import ExperimentScript.Proofs.Editor.Symbols
import ExperimentScript.Proofs.FileTree.Spelled
import ExperimentScript.Proofs.FileTree.Written
import ExperimentScript.Proofs.Format.Constant
import ExperimentScript.Proofs.Format.Layout
import ExperimentScript.Proofs.Format.Plain
import ExperimentScript.Proofs.Format.Readable
import ExperimentScript.Proofs.Format.RoundTrip
import ExperimentScript.Proofs.Format.Settled
import ExperimentScript.Proofs.Format.Strings
import ExperimentScript.Proofs.Format.Unmarked
import ExperimentScript.Proofs.Format.Written
import ExperimentScript.Proofs.Highlight.Boundaries
import ExperimentScript.Proofs.Highlight.Errors
import ExperimentScript.Proofs.Highlight.Rules
import ExperimentScript.Proofs.Json.Ascii
import ExperimentScript.Proofs.Json.Bounded
import ExperimentScript.Proofs.Json.Depth
import ExperimentScript.Proofs.Json.Number
import ExperimentScript.Proofs.Json.Quoting
import ExperimentScript.Proofs.Json.RoundTrip
import ExperimentScript.Proofs.Json.Shallow
import ExperimentScript.Proofs.Lexer.Excerpt
import ExperimentScript.Proofs.Lexer.Front
import ExperimentScript.Proofs.Lexer.Halting
import ExperimentScript.Proofs.Lexer.Joined
import ExperimentScript.Proofs.Lexer.Layout
import ExperimentScript.Proofs.Lexer.Munch
import ExperimentScript.Proofs.Lexer.Places
import ExperimentScript.Proofs.Lexer.Shortened
import ExperimentScript.Proofs.Lexer.Sound
import ExperimentScript.Proofs.Lexer.Spelling
import ExperimentScript.Proofs.Lexer.Stopping
import ExperimentScript.Proofs.Number.Backtracking
import ExperimentScript.Proofs.Number.Longest
import ExperimentScript.Proofs.Number.Nearest
import ExperimentScript.Proofs.Number.Notation
import ExperimentScript.Proofs.Number.Numeral
import ExperimentScript.Proofs.Number.Pattern
import ExperimentScript.Proofs.Number.Rounding
import ExperimentScript.Proofs.Number.Shortest
import ExperimentScript.Proofs.Number.Value
import ExperimentScript.Proofs.Parser.Abreast
import ExperimentScript.Proofs.Parser.Agree
import ExperimentScript.Proofs.Parser.Alone
import ExperimentScript.Proofs.Parser.Blamed
import ExperimentScript.Proofs.Parser.Choice
import ExperimentScript.Proofs.Parser.Construed
import ExperimentScript.Proofs.Parser.Denotes
import ExperimentScript.Proofs.Parser.Ending
import ExperimentScript.Proofs.Parser.Expected
import ExperimentScript.Proofs.Parser.Failing
import ExperimentScript.Proofs.Parser.Fork
import ExperimentScript.Proofs.Parser.Forked
import ExperimentScript.Proofs.Parser.Forward
import ExperimentScript.Proofs.Parser.Joined
import ExperimentScript.Proofs.Parser.Layered
import ExperimentScript.Proofs.Parser.Moved
import ExperimentScript.Proofs.Parser.Nesting
import ExperimentScript.Proofs.Parser.Operands
import ExperimentScript.Proofs.Parser.Outcome
import ExperimentScript.Proofs.Parser.Pairing
import ExperimentScript.Proofs.Parser.Passage
import ExperimentScript.Proofs.Parser.Phrase
import ExperimentScript.Proofs.Parser.Progress
import ExperimentScript.Proofs.Parser.Reading
import ExperimentScript.Proofs.Parser.Relaid
import ExperimentScript.Proofs.Parser.Room
import ExperimentScript.Proofs.Parser.Rounds
import ExperimentScript.Proofs.Parser.Row
import ExperimentScript.Proofs.Parser.Shape
import ExperimentScript.Proofs.Parser.Strictness
import ExperimentScript.Proofs.Parser.Traced
import ExperimentScript.Proofs.Parser.Unlimited
import ExperimentScript.Proofs.Parser.Yield
import ExperimentScript.Proofs.Script.Fields
import ExperimentScript.Proofs.Script.Moved
import ExperimentScript.Proofs.Script.Parts
import ExperimentScript.Proofs.Script.SameBut
import ExperimentScript.Proofs.Script.Shape
import ExperimentScript.Proofs.Settings.Nearest
import ExperimentScript.Proofs.Text.Lines
import ExperimentScript.Proofs.Toml.Encoded
import ExperimentScript.Proofs.Wire.Alike
import ExperimentScript.Proofs.Wire.Dump
import ExperimentScript.Proofs.Wire.Faithful
import ExperimentScript.Proofs.Wire.Form
import ExperimentScript.Room
import ExperimentScript.Script.Label
import ExperimentScript.Script.Node
import ExperimentScript.Script.View
import ExperimentScript.Settings
import ExperimentScript.Span
import ExperimentScript.Text.Basic
import ExperimentScript.Text.Blank
import ExperimentScript.Text.Digit
import ExperimentScript.Text.Integer
import ExperimentScript.Text.Lines
import ExperimentScript.Text.Margin
import ExperimentScript.Text.Printable
import ExperimentScript.Text.Quoted
import ExperimentScript.Text.Terminal
import ExperimentScript.Text.Word
import ExperimentScript.Token
import ExperimentScript.Toml.Document
import ExperimentScript.Toml.Moment
import ExperimentScript.Toml.Reader
import ExperimentScript.Toml.Value
import ExperimentScript.Value
import ExperimentScript.Wire

import Stylesheet.Assembly
import Stylesheet.Assembly.Document
import Stylesheet.CommandLine
import Stylesheet.CommandLine.Arguments
import Stylesheet.Compilation
import Stylesheet.Css.Block
import Stylesheet.Css.Layout
import Stylesheet.Css.Selector
import Stylesheet.Data
import Stylesheet.Data.Atom
import Stylesheet.Data.Graph
import Stylesheet.Data.Json
import Stylesheet.Data.NumberSet
import Stylesheet.Data.Timestamp
import Stylesheet.Data.Yaml
import Stylesheet.Data.Yaml.Cursor
import Stylesheet.Data.Yaml.Fault
import Stylesheet.Data.Yaml.Printer
import Stylesheet.Data.Yaml.Scalar
import Stylesheet.Data.Yaml.Text
import Stylesheet.Data.Yaml.Token
import Stylesheet.Data.Yaml.Tree
import Stylesheet.Data.Yaml.Values
import Stylesheet.Diagnostic
import Stylesheet.Disk
import Stylesheet.Disk.Folder
import Stylesheet.Engine
import Stylesheet.Expr
import Stylesheet.Expr.Evaluation
import Stylesheet.Expr.Parser
import Stylesheet.Expr.Token
import Stylesheet.Fault
import Stylesheet.Import
import Stylesheet.Indentation.Unit
import Stylesheet.Line
import Stylesheet.Line.Regrouping
import Stylesheet.Line.Shape
import Stylesheet.Line.Tabulation
import Stylesheet.Main
import Stylesheet.Node
import Stylesheet.Node.Data
import Stylesheet.Node.Json
import Stylesheet.Number.Decimal
import Stylesheet.Number.Dyadic
import Stylesheet.Number.Length
import Stylesheet.Number.Literal
import Stylesheet.Number.Power
import Stylesheet.Number.Remainder
import Stylesheet.Number.Rounding
import Stylesheet.Number.Scientific
import Stylesheet.Number.Shortest
import Stylesheet.Options
import Stylesheet.Options.Data
import Stylesheet.Options.File
import Stylesheet.Table
import Stylesheet.Text.Base64
import Stylesheet.Text.Blank
import Stylesheet.Text.Cased
import Stylesheet.Text.Digit
import Stylesheet.Text.Hex
import Stylesheet.Text.Lower
import Stylesheet.Text.Pieces
import Stylesheet.Text.Printable
import Stylesheet.Text.Quoted
import Stylesheet.Text.Ranges
import Stylesheet.Text.Utf8
import Stylesheet.Text.Word
import Stylesheet.Value
import Stylesheet.Proofs.Assembly.Outcome
import Stylesheet.Proofs.Assembly.WellFormed
import Stylesheet.Proofs.Assembly.Siblings
import Stylesheet.Proofs.Assembly.Likeness
import Stylesheet.Proofs.Assembly.TwoRuns
import Stylesheet.Proofs.Assembly.Transparency
import Stylesheet.Proofs.Line.Parsing
import Stylesheet.Proofs.Line.Alike
import Stylesheet.Proofs.SilentComment
import Stylesheet.Proofs.Line.RoundTrip
import Stylesheet.Proofs.Expr.Grammar
import Stylesheet.Proofs.Assembly.Failing
import Stylesheet.Proofs.Assembly.Running
import Stylesheet.Proofs.Assembly.Backtrace
import Stylesheet.Proofs.Assembly.Invariance
import Stylesheet.Proofs.Assembly.Recursion
import Stylesheet.Proofs.Assembly.Quiet
import Stylesheet.Proofs.Results
import Stylesheet.Proofs.Css.Items
import Stylesheet.Proofs.Css.Styles
import Stylesheet.Proofs.Assembly.Restoring
import Stylesheet.Proofs.Expr.Range
import Stylesheet.Proofs.Assembly.Escaping
import Stylesheet.Proofs.Assembly.Attribution
import Stylesheet.Proofs.Line.Numbers
import Stylesheet.Proofs.Line.Alteration
import Stylesheet.Proofs.Assembly.Renumbering
import Stylesheet.Proofs.Assembly.Alteration
import Stylesheet.Proofs.DroppedLines
import Stylesheet.Proofs.Assembly.Ending
import Stylesheet.Proofs.Engine
import Stylesheet.Proofs.Data.Json
import Stylesheet.Proofs.Data.Yaml.Atoms
import Stylesheet.Proofs.Data.Yaml.Blocks
import Stylesheet.Proofs.Data.Yaml.Characters
import Stylesheet.Proofs.Data.Yaml.Cursor
import Stylesheet.Proofs.Data.Yaml.Documents
import Stylesheet.Proofs.Data.Yaml.Plain
import Stylesheet.Proofs.Data.Yaml.Quoted
import Stylesheet.Proofs.Data.Yaml.Reread
import Stylesheet.Proofs.Data.Yaml.Tokens
import Stylesheet.Proofs.Data.Yaml.Values
import Stylesheet.Proofs.Node.Data
import Stylesheet.Proofs.Node.Json
import Stylesheet.Proofs.Node.Yaml
import Stylesheet.Proofs.Assembly.SelectorLists
import Stylesheet.Proofs.CoveredLines
import Stylesheet.Proofs.CommandLine
import Stylesheet.Proofs.Line.Jumps
import Stylesheet.Proofs.Line.Consistency
import Stylesheet.Proofs.Css.Selectors
import Stylesheet.Proofs.Assembly.Continuation
import Stylesheet.Proofs.Line.Continuation
import Stylesheet.Proofs.Continuation
import Stylesheet.Proofs.Expr.Infinite
import Stylesheet.Proofs.Css.Comments
import Stylesheet.Proofs.Css.Directives
import Stylesheet.Proofs.Css.Heads
import Stylesheet.Proofs.Text.Trim
import Stylesheet.Proofs.ImportLists
import Stylesheet.Proofs.Css.Attributes
import Stylesheet.Proofs.Assembly.Lockstep
import Stylesheet.Proofs.AttributeSyntax
import Stylesheet.Proofs.UnusedMixin
import Stylesheet.Proofs.Expr.Values
import Stylesheet.Proofs.Expr.References
import Stylesheet.Proofs.Expr.Colors
import Stylesheet.Proofs.Defaults
import Stylesheet.Proofs.Text.Digit
import Stylesheet.Proofs.Text.Pattern
import Stylesheet.Proofs.Line.Attributes
import Stylesheet.Proofs.Number.Bits
import Stylesheet.Proofs.Number.Nearest
import Stylesheet.Proofs.Number.Display
import Stylesheet.Proofs.NamedNumbers
import Stylesheet.Proofs.Text.Blank
import Stylesheet.Proofs.Expr.Numerals
import Stylesheet.Proofs.Expr.Scanning
import Stylesheet.Proofs.Expr.Spacing
import Stylesheet.Proofs.ImportTargets
import Stylesheet.Proofs.Expr.OneLine
import Stylesheet.Proofs.Assembly.OneLine
import Stylesheet.Proofs.Css.CompactLines

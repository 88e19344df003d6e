import PageProbe.Cause
import PageProbe.Command.Line
import PageProbe.Command.Options
import PageProbe.Command.Run
import PageProbe.Config.Load
import PageProbe.Config.Settings
import PageProbe.Execution.Context
import PageProbe.Execution.Report
import PageProbe.Execution.Runner
import PageProbe.Execution.Scripted
import PageProbe.Files.Access
import PageProbe.Files.Tree
import PageProbe.Glob.Matching
import PageProbe.Glob.Pattern
import PageProbe.Injection.Harness
import PageProbe.Injection.Injector
import PageProbe.Injection.Stream
import PageProbe.Json.Decoder
import PageProbe.Json.Document
import PageProbe.Json.Mismatch
import PageProbe.Json.Parser
import PageProbe.Json.Printer
import PageProbe.Json.Value
import PageProbe.Main
import PageProbe.Number.Double
import PageProbe.Number.Notation
import PageProbe.Number.Shortest
import PageProbe.Page.Analysis
import PageProbe.Page.Html
import PageProbe.Page.Load
import PageProbe.Page.Resource
import PageProbe.Plugin.Builtin.BrokenHtml
import PageProbe.Plugin.Builtin.Combinations
import PageProbe.Plugin.Builtin.Difference
import PageProbe.Plugin.Builtin.Drawing
import PageProbe.Plugin.Builtin.SpecialChars
import PageProbe.Plugin.Catalog
import PageProbe.Plugin.Kinds
import PageProbe.Plugin.Message
import PageProbe.Plugin.Registry
import PageProbe.Plugin.Scripted
import PageProbe.Plugin.Wire
import PageProbe.Plugin.Worker
import PageProbe.Proofs.Execution.Reports
import PageProbe.Proofs.Execution.Runner
import PageProbe.Proofs.Injection.Callees
import PageProbe.Proofs.Injection.Consumption
import PageProbe.Proofs.Injection.Preview
import PageProbe.Proofs.Injection.Schedule
import PageProbe.Proofs.Injection.Serving
import PageProbe.Proofs.Injection.Streaming
import PageProbe.Proofs.Injection.Weave
import PageProbe.Proofs.Injection.Window
import PageProbe.Proofs.Injection.Written
import PageProbe.Proofs.Json.Reading
import PageProbe.Proofs.Json.Text
import PageProbe.Proofs.Json.Values
import PageProbe.Proofs.Number.Decimal
import PageProbe.Proofs.Page.Delivery
import PageProbe.Proofs.Page.Links
import PageProbe.Proofs.Page.Queries
import PageProbe.Proofs.Page.Queue
import PageProbe.Proofs.Page.Sources
import PageProbe.Proofs.Page.Turns
import PageProbe.Proofs.Plugin.Answers
import PageProbe.Proofs.Plugin.Columns
import PageProbe.Proofs.Plugin.Combinations
import PageProbe.Proofs.Plugin.Contents
import PageProbe.Proofs.Plugin.Drawn
import PageProbe.Proofs.Plugin.Forms
import PageProbe.Proofs.Plugin.Interleaving
import PageProbe.Proofs.Plugin.Registration
import PageProbe.Proofs.Plugin.Rounds
import PageProbe.Proofs.Plugin.Settling
import PageProbe.Proofs.Plugin.Tasks
import PageProbe.Proofs.Random.Drawing
import PageProbe.Proofs.Script.Nesting
import PageProbe.Proofs.Script.Order
import PageProbe.Proofs.Script.Parsing.Members
import PageProbe.Proofs.Script.Parsing.Operands
import PageProbe.Proofs.Script.Parsing.Places
import PageProbe.Proofs.Script.Parsing.Statements
import PageProbe.Proofs.Script.Reading
import PageProbe.Proofs.Script.Subtree
import PageProbe.Proofs.Session.Aftermath
import PageProbe.Proofs.Session.Arguments
import PageProbe.Proofs.Session.Dispatch
import PageProbe.Proofs.Session.Executions
import PageProbe.Proofs.Session.Flags
import PageProbe.Proofs.Session.History
import PageProbe.Proofs.Session.Notices
import PageProbe.Proofs.Session.Reproduction
import PageProbe.Proofs.Session.Stages
import PageProbe.Proofs.Session.Verdicts
import PageProbe.Proofs.Text.Encoding
import PageProbe.Proofs.Text.Positions
import PageProbe.Proofs.Tree.Account
import PageProbe.Proofs.Tree.Accounting
import PageProbe.Proofs.Tree.Addressing
import PageProbe.Proofs.Tree.Attribution
import PageProbe.Proofs.Tree.Callbacks
import PageProbe.Proofs.Tree.Claimed
import PageProbe.Proofs.Tree.Containment
import PageProbe.Proofs.Tree.Depth
import PageProbe.Proofs.Tree.Enclosure
import PageProbe.Proofs.Tree.Form
import PageProbe.Proofs.Tree.Growth
import PageProbe.Proofs.Tree.Lookup
import PageProbe.Proofs.Tree.Making
import PageProbe.Proofs.Tree.Naming
import PageProbe.Proofs.Tree.Placement
import PageProbe.Proofs.Tree.Recording
import PageProbe.Proofs.Tree.Repetition
import PageProbe.Proofs.Tree.Roles
import PageProbe.Proofs.Tree.Search
import PageProbe.Proofs.Tree.Segments
import PageProbe.Proofs.Tree.Siblings
import PageProbe.Proofs.Tree.Usage
import PageProbe.Random.ChaCha
import PageProbe.Random.Uuid
import PageProbe.Random.Words
import PageProbe.Report.Outcome
import PageProbe.Report.Registry
import PageProbe.Report.Settings
import PageProbe.Report.Tree
import PageProbe.Script.Node
import PageProbe.Script.Parser
import PageProbe.Script.Parser.Function
import PageProbe.Script.Parser.Object
import PageProbe.Script.Parser.Operand
import PageProbe.Script.Parser.Operator
import PageProbe.Script.Parser.Pattern
import PageProbe.Script.Parser.State
import PageProbe.Script.Parser.Statement
import PageProbe.Script.Token
import PageProbe.Script.Token.Blank
import PageProbe.Script.Token.Escape
import PageProbe.Script.Token.Numeral
import PageProbe.Script.Token.Quoted
import PageProbe.Script.Token.Reader
import PageProbe.Session.Basic
import PageProbe.Session.Dispatcher
import PageProbe.Session.Model
import PageProbe.Session.Progress
import PageProbe.Session.Request
import PageProbe.Span
import PageProbe.Text.Bytes
import PageProbe.Text.Category
import PageProbe.Text.Columns
import PageProbe.Text.Identifier
import PageProbe.Text.Lines
import PageProbe.Text.Quoted
import PageProbe.Text.Split
import PageProbe.Text.Word
import PageProbe.Tree.Calls
import PageProbe.Tree.Declarations
import PageProbe.Tree.Diagnostic
import PageProbe.Tree.Leaf
import PageProbe.Tree.Path
import PageProbe.Tree.Resolution
import PageProbe.Tree.Wire

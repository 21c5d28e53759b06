import EditorTabs.Alias.Configuration
import EditorTabs.Alias.Loading
import EditorTabs.Alias.Table
import EditorTabs.Artifact
import EditorTabs.Assoc
import EditorTabs.CodePoint
import EditorTabs.CommandLine.Grammar
import EditorTabs.CommandLine.Invocation
import EditorTabs.CommandLine.Run
import EditorTabs.Decimal.Binary64
import EditorTabs.Decimal.Notation
import EditorTabs.Decimal.Shortest
import EditorTabs.Fault
import EditorTabs.Files.Document
import EditorTabs.Files.ErrorNumber
import EditorTabs.Files.Fault
import EditorTabs.Files.Tree
import EditorTabs.Host.Basic
import EditorTabs.Host.Local
import EditorTabs.Host.Memory
import EditorTabs.ImportGraph.Basic
import EditorTabs.ImportGraph.Depth
import EditorTabs.Json.Comments
import EditorTabs.Json.Fault
import EditorTabs.Json.Plain
import EditorTabs.Json.Reader
import EditorTabs.Json.Token
import EditorTabs.Json.Value
import EditorTabs.Json.Writer
import EditorTabs.Main
import EditorTabs.Module
import EditorTabs.OpenPaths
import EditorTabs.Order.Alphabetical
import EditorTabs.Order.Comparison
import EditorTabs.Order.Hierarchy
import EditorTabs.Order.Natural
import EditorTabs.Path.Basic
import EditorTabs.Path.Route
import EditorTabs.Proofs.Alias.Candidates
import EditorTabs.Proofs.Alias.Configuration
import EditorTabs.Proofs.Alias.FirstUsable
import EditorTabs.Proofs.Alias.Lifecycle
import EditorTabs.Proofs.Alias.Loading
import EditorTabs.Proofs.Alias.Target
import EditorTabs.Proofs.Assoc
import EditorTabs.Proofs.CommandLine.Status
import EditorTabs.Proofs.CommandLine.Work
import EditorTabs.Proofs.Files.Document
import EditorTabs.Proofs.Groups
import EditorTabs.Proofs.ImportGraph.Chain
import EditorTabs.Proofs.ImportGraph.Depth
import EditorTabs.Proofs.ImportGraph.Edges
import EditorTabs.Proofs.ImportGraph.Layering
import EditorTabs.Proofs.ImportOrder
import EditorTabs.Proofs.Json.Comments
import EditorTabs.Proofs.Json.Document
import EditorTabs.Proofs.Json.Lexeme
import EditorTabs.Proofs.Json.Number
import EditorTabs.Proofs.Json.Reader
import EditorTabs.Proofs.OpenPaths
import EditorTabs.Proofs.Order.Alphabetical
import EditorTabs.Proofs.Order.Completion
import EditorTabs.Proofs.Order.Faults
import EditorTabs.Proofs.Order.Hierarchy
import EditorTabs.Proofs.Order.Levels
import EditorTabs.Proofs.Order.Natural
import EditorTabs.Proofs.Order.Neighbours
import EditorTabs.Proofs.Order.Place
import EditorTabs.Proofs.Order.Runs
import EditorTabs.Proofs.Order.Sorting
import EditorTabs.Proofs.Order.StableSort
import EditorTabs.Proofs.OrderReport
import EditorTabs.Proofs.Path.Normal
import EditorTabs.Proofs.Path.Parent
import EditorTabs.Proofs.Path.Rooted
import EditorTabs.Proofs.Path.Way
import EditorTabs.Proofs.Reference.Language
import EditorTabs.Proofs.Reference.Scan
import EditorTabs.Proofs.Resolution
import EditorTabs.Proofs.Session.Advance
import EditorTabs.Proofs.Session.Again
import EditorTabs.Proofs.Session.Cache
import EditorTabs.Proofs.Session.Calls
import EditorTabs.Proofs.Session.Faults
import EditorTabs.Proofs.Session.Groups
import EditorTabs.Proofs.Session.Order
import EditorTabs.Proofs.Session.Permuted
import EditorTabs.Proofs.Session.SelfImport
import EditorTabs.Proofs.Session.Steady
import EditorTabs.Proofs.Session.Sticky
import EditorTabs.Proofs.Session.Visits
import EditorTabs.Proofs.Settings
import EditorTabs.Proofs.Text.Sorted
import EditorTabs.Reference.Basic
import EditorTabs.Reference.Pattern
import EditorTabs.Report
import EditorTabs.Resolution
import EditorTabs.Session.Basic
import EditorTabs.Session.Order
import EditorTabs.Settings
import EditorTabs.Strategy
import EditorTabs.Tab
import EditorTabs.TabList
import EditorTabs.Text.Basic
import EditorTabs.Text.Blank
import EditorTabs.Text.CaseFold
import EditorTabs.Text.Digit
import EditorTabs.Text.Hex
import EditorTabs.Text.Lines
import EditorTabs.Text.Preview
import EditorTabs.Text.Printable
import EditorTabs.Text.Quoted
import EditorTabs.Text.Ranges
import EditorTabs.Text.Sorted
import EditorTabs.Text.Start
import EditorTabs.Text.Utf8
import EditorTabs.Text.Word
import EditorTabs.Proofs.CommandLine.Refusal
import EditorTabs.Proofs.GraphReport
import EditorTabs.Proofs.Json.CommentFree
import EditorTabs.Proofs.Decimal.Binary64
import EditorTabs.Proofs.Json.Proper
import EditorTabs.Proofs.Json.Same
import EditorTabs.Proofs.TabList
import EditorTabs.Proofs.ImportGraph.Course
import EditorTabs.Proofs.Text.Preview
import EditorTabs.Proofs.CommandLine.Tabs
import EditorTabs.Proofs.Files.Walk
import EditorTabs.Proofs.Artifact

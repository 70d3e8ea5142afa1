import TypeLens.Build
import TypeLens.Cache
import TypeLens.Channel
import TypeLens.CommandLine
import TypeLens.Decimal.Shortest
import TypeLens.Decimal.Text
import TypeLens.Declaration
import TypeLens.Decode.Fault
import TypeLens.Decode.Numeral
import TypeLens.Decode.Scalar
import TypeLens.Decode.Schema
import TypeLens.FileSystem
import TypeLens.Graph.Oracle
import TypeLens.Graph.Position
import TypeLens.Graph.Schema
import TypeLens.Graph.Snapshot
import TypeLens.Json.Basic
import TypeLens.Json.Display
import TypeLens.Json.Reader
import TypeLens.Json.Writer
import TypeLens.Layout
import TypeLens.Layout.Brace
import TypeLens.Layout.Essence
import TypeLens.Layout.ImportPath
import TypeLens.Layout.Member
import TypeLens.Lookup
import TypeLens.Main
import TypeLens.Options
import TypeLens.Path
import TypeLens.Project
import TypeLens.Proofs.Build.Annotation
import TypeLens.Proofs.Build.Bounds
import TypeLens.Proofs.Build.Completeness
import TypeLens.Proofs.Build.Concealment
import TypeLens.Proofs.Build.Expansion
import TypeLens.Proofs.Build.Form
import TypeLens.Proofs.Build.Node
import TypeLens.Proofs.Build.Policy
import TypeLens.Proofs.Build.Selection
import TypeLens.Proofs.Build.Truncation
import TypeLens.Proofs.Build.Visibility
import TypeLens.Proofs.Cache.History
import TypeLens.Proofs.Cache.Operation
import TypeLens.Proofs.Cache.Retention
import TypeLens.Proofs.Channel.Lossless
import TypeLens.Proofs.Decode.Reads
import TypeLens.Proofs.Graph.Alias
import TypeLens.Proofs.Graph.Answer
import TypeLens.Proofs.Graph.Closed
import TypeLens.Proofs.Graph.Document
import TypeLens.Proofs.Graph.Fault
import TypeLens.Proofs.Graph.Innermost
import TypeLens.Proofs.Graph.Resolve
import TypeLens.Proofs.Layout.Closing
import TypeLens.Proofs.Layout.Compact
import TypeLens.Proofs.Layout.Draft
import TypeLens.Proofs.Layout.Essence
import TypeLens.Proofs.Layout.Group
import TypeLens.Proofs.Layout.Idempotence
import TypeLens.Proofs.Layout.ImportPath
import TypeLens.Proofs.Layout.Indentation
import TypeLens.Proofs.Layout.Key
import TypeLens.Proofs.Layout.Lines
import TypeLens.Proofs.Layout.Member
import TypeLens.Proofs.Layout.Note
import TypeLens.Proofs.Layout.Optional
import TypeLens.Proofs.Layout.Reindent
import TypeLens.Proofs.Layout.Spacing
import TypeLens.Proofs.Layout.Stretch
import TypeLens.Proofs.Layout.Survival
import TypeLens.Proofs.Layout.Tidy
import TypeLens.Proofs.Lookup.Cancellation
import TypeLens.Proofs.Lookup.Fault
import TypeLens.Proofs.Lookup.Spelling
import TypeLens.Proofs.Lookup.Total
import TypeLens.Proofs.Path.Join
import TypeLens.Proofs.Path.Normal
import TypeLens.Proofs.Path.Route
import TypeLens.Proofs.Project.Memo
import TypeLens.Proofs.Project.Nearest
import TypeLens.Proofs.Reply.Assembly
import TypeLens.Proofs.Reply.Fence
import TypeLens.Proofs.Reply.Limit
import TypeLens.Proofs.Server.Reachable
import TypeLens.Proofs.Session.Change
import TypeLens.Proofs.Session.Freshness
import TypeLens.Proofs.Session.Loaded
import TypeLens.Proofs.Text.Blank
import TypeLens.Proofs.Text.Bracket
import TypeLens.Proofs.Text.Cursor
import TypeLens.Proofs.Text.Cut
import TypeLens.Proofs.Text.Infix
import TypeLens.Proofs.Text.Lines
import TypeLens.Proofs.Text.Offset
import TypeLens.Proofs.Text.Scan
import TypeLens.Proofs.Text.Utf8
import TypeLens.Proofs.Tool.Address
import TypeLens.Proofs.Tool.Position
import TypeLens.Proofs.Tool.Verdict
import TypeLens.Proofs.Tool.Written
import TypeLens.Proofs.Tree.Bracket
import TypeLens.Proofs.Tree.Codec
import TypeLens.Proofs.Tree.Display
import TypeLens.Proofs.Tree.Entry
import TypeLens.Proofs.Tree.Erasure
import TypeLens.Proofs.Tree.Grouping
import TypeLens.Proofs.Tree.Key
import TypeLens.Proofs.Tree.Layout
import TypeLens.Proofs.Tree.Plain
import TypeLens.Proofs.Tree.Shape
import TypeLens.Proofs.Tree.Spelling
import TypeLens.Proofs.Tree.Truncation
import TypeLens.Proofs.Uri.Escape
import TypeLens.Proofs.Uri.Literal
import TypeLens.Reply
import TypeLens.Reply.Content
import TypeLens.Reply.Limit
import TypeLens.Server
import TypeLens.Session
import TypeLens.Settings
import TypeLens.Text.Blank
import TypeLens.Text.Distinct
import TypeLens.Text.Lines
import TypeLens.Text.Number
import TypeLens.Text.Quoted
import TypeLens.Text.Scan
import TypeLens.Text.Utf8
import TypeLens.Text.Word
import TypeLens.Tool.Access
import TypeLens.Tool.Input
import TypeLens.Tool.Lookup
import TypeLens.Tool.Reflow
import TypeLens.Tool.Status
import TypeLens.Tree.Basic
import TypeLens.Tree.Codec
import TypeLens.Tree.Key
import TypeLens.Tree.Parts
import TypeLens.Tree.Terminal
import TypeLens.Tree.Text
import TypeLens.Uri
import TypeLens.Uri.Host

import ChangeReport.Assoc
import ChangeReport.Child
import ChangeReport.CommandLine.Command
import ChangeReport.CommandLine.Option
import ChangeReport.Comment
import ChangeReport.Comparison
import ChangeReport.Config.Basic
import ChangeReport.Config.File
import ChangeReport.Config.Policy
import ChangeReport.Conversation
import ChangeReport.Document
import ChangeReport.Environment
import ChangeReport.FileTree
import ChangeReport.Host.Basic
import ChangeReport.Host.Connect
import ChangeReport.Host.Error
import ChangeReport.Host.Github
import ChangeReport.Host.Gitlab
import ChangeReport.Host.Memory
import ChangeReport.Host.Planned
import ChangeReport.Json.Numeral
import ChangeReport.Json.Printer
import ChangeReport.Json.Reader
import ChangeReport.LineDiff.Edit
import ChangeReport.LineDiff.Hunk
import ChangeReport.LineDiff.Lines
import ChangeReport.LineDiff.Slide
import ChangeReport.Main
import ChangeReport.Manifest
import ChangeReport.Manifest.Load
import ChangeReport.Matching
import ChangeReport.Number.Binary64
import ChangeReport.Number.Shortest
import ChangeReport.Overlay
import ChangeReport.Program
import ChangeReport.Proofs.Conversation.History
import ChangeReport.Proofs.Conversation.Posting
import ChangeReport.Proofs.Host.Conduct
import ChangeReport.Proofs.Report.Contents
import ChangeReport.Proofs.Report.Delivery
import ChangeReport.Proofs.Report.Ownership
import ChangeReport.Proofs.Run.Completion
import ChangeReport.Proofs.Run.Invariant
import ChangeReport.Proofs.Run.Rules
import ChangeReport.Proofs.Run.Sequential
import ChangeReport.Proofs.Run.Work
import ChangeReport.Record
import ChangeReport.Report.Body
import ChangeReport.Report.Message
import ChangeReport.Report.Ownership
import ChangeReport.Resource
import ChangeReport.Retry
import ChangeReport.Run.Progress
import ChangeReport.Run.Schedule
import ChangeReport.Run.Summary
import ChangeReport.Run.Work
import ChangeReport.Text.Blank
import ChangeReport.Text.Bytes
import ChangeReport.Text.Quoted
import ChangeReport.Text.Shown
import ChangeReport.Text.Split
import ChangeReport.Text.Utf8
import ChangeReport.Timestamp
import ChangeReport.Toml.Reader
import ChangeReport.Toml.Scalar
import ChangeReport.Toml.Table
import ChangeReport.Tree
import ChangeReport.Web.Exchange
import ChangeReport.Web.Link
import ChangeReport.Web.Percent
import ChangeReport.Web.Url
import ChangeReport.Yaml.Block
import ChangeReport.Yaml.Character
import ChangeReport.Yaml.Cursor
import ChangeReport.Yaml.Lexer
import ChangeReport.Yaml.Node
import ChangeReport.Yaml.Printer
import ChangeReport.Yaml.Quoted
import ChangeReport.Yaml.Reader
import ChangeReport.Yaml.Scalar
import ChangeReport.Yaml.Token
import ChangeReport.Proofs.Matching.Pairing
import ChangeReport.Proofs.Document.Ordered
import ChangeReport.Proofs.Document.Fields
import ChangeReport.Proofs.Document.Overlay
import ChangeReport.Proofs.Matching.Namespaces
import ChangeReport.Proofs.Comparison.Convergence
import ChangeReport.Proofs.Report.Truncation
import ChangeReport.Proofs.Report.Hiding
import ChangeReport.Proofs.Report.Recognition
import ChangeReport.Proofs.Conversation.Hiding
import ChangeReport.Proofs.Comparison.Changes
import ChangeReport.Proofs.Matching.Secrets
import ChangeReport.Proofs.Comparison.Exclusion
import ChangeReport.Proofs.Document.Containment
import ChangeReport.Proofs.Document.Stripping
import ChangeReport.Proofs.Comparison.InSync
import ChangeReport.Proofs.Text.Lines
import ChangeReport.Proofs.Report.Failure
import ChangeReport.Proofs.Run.Failures
import ChangeReport.Proofs.Text.Digits
import ChangeReport.Proofs.LineDiff.Rows
import ChangeReport.Proofs.Yaml.Printed
import ChangeReport.Proofs.Comparison.Markers
import ChangeReport.Proofs.Config.Settings
import ChangeReport.Proofs.Config.Layers
import ChangeReport.Proofs.Document.Paths
import ChangeReport.Proofs.Comparison.Account
import ChangeReport.Proofs.Report.Limit
import ChangeReport.Proofs.Report.Reading
import ChangeReport.Proofs.Report.Closure
import ChangeReport.Proofs.Host.Trace
import ChangeReport.Proofs.Conversation.Listing
import ChangeReport.Proofs.Conversation.Tidying
import ChangeReport.Proofs.Retry
import ChangeReport.Proofs.Conversation.Resilience
import ChangeReport.Proofs.Web.Links
import ChangeReport.Proofs.Conversation.Paging
import ChangeReport.Proofs.Text.Fences
import ChangeReport.Proofs.Yaml.Margin
import ChangeReport.Proofs.Comparison.Lines
import ChangeReport.Proofs.Comparison.Fenced
import ChangeReport.Proofs.Retry.Budget
import ChangeReport.Proofs.Matching.NormalForm
import ChangeReport.Proofs.Comparison.Reordering
import ChangeReport.Proofs.Config.Merging
import ChangeReport.Proofs.Config.Environment
import ChangeReport.Proofs.Text.Order
import ChangeReport.Proofs.Report.Blocks
import ChangeReport.Proofs.Program.Applications
import ChangeReport.Proofs.Program.Reporting
import ChangeReport.Proofs.Manifest.Flattening
import ChangeReport.Proofs.Document.Records
import ChangeReport.Proofs.Comparison.Children
import ChangeReport.Proofs.Host.Memory
import ChangeReport.Proofs.Text.Utf8
import ChangeReport.Proofs.FileTree
import ChangeReport.Proofs.Manifest.Folder
import ChangeReport.Proofs.Web.Percent
import ChangeReport.Proofs.Web.Url
import ChangeReport.Proofs.Host.Notes

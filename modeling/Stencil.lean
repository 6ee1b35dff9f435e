import Stencil.Text
import Stencil.Text.Blank
import Stencil.Text.Letter
import Stencil.Text.Width
import Stencil.Entries
import Stencil.Segment
import Stencil.Token
import Stencil.Token.Lexer
import Stencil.Tag
import Stencil.Tag.Grammar
import Stencil.Node
import Stencil.Node.Rebuild
import Stencil.Warning
import Stencil.Warning.Report
import Stencil.Document
import Stencil.Document.Nesting
import Stencil.Number
import Stencil.Number.Reading
import Stencil.Number.Shortest
import Stencil.Json
import Stencil.Json.Reader
import Stencil.Json.Writer
import Stencil.Toml
import Stencil.Toml.Moment
import Stencil.Toml.Reader
import Stencil.Toml.Tables
import Stencil.Value
import Stencil.Value.Equality
import Stencil.Value.Printing
import Stencil.Value.OfToml
import Stencil.Scope
import Stencil.Macro
import Stencil.Evaluation
import Stencil.Template
import Stencil.Resolution
import Stencil.Resolution.Slots
import Stencil.Resolution.Inclusions
import Stencil.Engine
import Stencil.Session
import Stencil.Config
import Stencil.PathName
import Stencil.FileTree
import Stencil.Value.File
import Stencil.Directory
import Stencil.CommandLine.Invocation
import Stencil.CommandLine.Reference
import Stencil.CommandLine
import Stencil.Main
import Stencil.Proofs.Text.Places
import Stencil.Proofs.Tree.Merging
import Stencil.Proofs.Tree.Settled
import Stencil.Proofs.Tree.Rebuilding
import Stencil.Proofs.Tree.Unfolding
import Stencil.Proofs.Nesting.Frames
import Stencil.Proofs.Nesting.Settled
import Stencil.Proofs.Resolution.Slots
import Stencil.Proofs.Resolution.Inclusions
import Stencil.Proofs.Nesting.Events
import Stencil.Proofs.Segment.Cutting
import Stencil.Proofs.Token.Writing
import Stencil.Proofs.Tag.Language
import Stencil.Proofs.Tag.Reading
import Stencil.Proofs.Tag.Spelling
import Stencil.Proofs.Nesting.PendingCalls
import Stencil.Proofs.Document.Writing
import Stencil.Proofs.Engine.Filling
import Stencil.Proofs.Session.Cells
import Stencil.Proofs.Resolution.Remaining
import Stencil.Proofs.PathName.Components
import Stencil.Proofs.Directory.Below
import Stencil.Proofs.Evaluation.Rules
import Stencil.Proofs.Evaluation.Adequacy
import Stencil.Proofs.Evaluation.Context
import Stencil.Proofs.Segment.Scanning
import Stencil.Proofs.Evaluation.Answers
import Stencil.Proofs.Evaluation.Escaping
import Stencil.Proofs.Evaluation.FailingMacros
import Stencil.Proofs.Resolution.Overrides
import Stencil.Proofs.Nesting.Ledger
import Stencil.Proofs.Nesting.Reports
import Stencil.Proofs.Session.Independence
import Stencil.Proofs.Resolution.Chains
import Stencil.Proofs.Nesting.Positions
import Stencil.Proofs.Document.Leading
import Stencil.Proofs.Evaluation.Rebuilding
import Stencil.Proofs.Resolution.Opening
import Stencil.Proofs.Engine.Fragments
import Stencil.Proofs.Resolution.Requests
import Stencil.Proofs.Directory.Searching
import Stencil.Proofs.Directory.Workspaces
import Stencil.Proofs.Directory.Renumbering
import Stencil.Proofs.Directory.Snapshots
import Stencil.Proofs.Scope.Paths
import Stencil.Proofs.Evaluation.OuterKeys
import Stencil.Proofs.Evaluation.Panics
import Stencil.Proofs.Token.Tokenization
import Stencil.Proofs.Tag.Viability
import Stencil.Proofs.Resolution.Settled
import Stencil.Proofs.Value.Parts
import Stencil.Proofs.Value.Equivalence
import Stencil.Proofs.Number.Exact
import Stencil.Proofs.Value.Stripping
import Stencil.Proofs.Json.Keys
import Stencil.Proofs.Resolution.Unnesting
import Stencil.Proofs.Warning.Places
import Stencil.Proofs.Segment.Slicing
import Stencil.Proofs.Nesting.Stepwise
import Stencil.Proofs.Nesting.Partings

import PromptMacros.Analysis.Flow
import PromptMacros.Analysis.Json
import PromptMacros.Analysis.Report
import PromptMacros.Analysis.Simulation
import PromptMacros.Analysis.Variable
import PromptMacros.Config.Basic
import PromptMacros.Config.Json
import PromptMacros.Debounce
import PromptMacros.Decimal.Double
import PromptMacros.Decimal.Numeral
import PromptMacros.Decimal.Shortest
import PromptMacros.Document.Basic
import PromptMacros.Document.Index
import PromptMacros.Document.Json
import PromptMacros.Document.Set
import PromptMacros.Error
import PromptMacros.Json.Basic
import PromptMacros.Json.Lexeme
import PromptMacros.Json.Number
import PromptMacros.Json.Printer
import PromptMacros.Json.Reader
import PromptMacros.Json.Record
import PromptMacros.Json.Tree
import PromptMacros.Macro.Basic
import PromptMacros.Macro.Json
import PromptMacros.Macro.Kind
import PromptMacros.Macro.Layout
import PromptMacros.Macro.NameSite
import PromptMacros.Macro.Token
import PromptMacros.Order
import PromptMacros.Preset.Basic
import PromptMacros.Preset.Export
import PromptMacros.Preset.Import
import PromptMacros.Proofs.Analysis.Causality
import PromptMacros.Proofs.Analysis.Copy
import PromptMacros.Proofs.Analysis.Exchange
import PromptMacros.Proofs.Analysis.Flow
import PromptMacros.Proofs.Analysis.LastWrite
import PromptMacros.Proofs.Analysis.Listing
import PromptMacros.Proofs.Analysis.Parts
import PromptMacros.Proofs.Analysis.Records
import PromptMacros.Proofs.Analysis.Switching
import PromptMacros.Proofs.Analysis.Usage
import PromptMacros.Proofs.Analysis.Vanishing
import PromptMacros.Proofs.Analysis.Written
import PromptMacros.Proofs.Document.Agreement
import PromptMacros.Proofs.Document.PlainList
import PromptMacros.Proofs.Json.Fits
import PromptMacros.Proofs.Json.Lexing
import PromptMacros.Proofs.Json.Numeral
import PromptMacros.Proofs.Json.RoundTrip
import PromptMacros.Proofs.Macro.Boundary
import PromptMacros.Proofs.Macro.ByteScan
import PromptMacros.Proofs.Macro.Decomposition
import PromptMacros.Proofs.Macro.Layout
import PromptMacros.Proofs.Macro.NameSpan
import PromptMacros.Proofs.Macro.Naming
import PromptMacros.Proofs.Macro.Note
import PromptMacros.Proofs.Macro.Spelling
import PromptMacros.Proofs.Preset.Carried
import PromptMacros.Proofs.Preset.DefaultOrder
import PromptMacros.Proofs.Preset.Documents
import PromptMacros.Proofs.Preset.Export
import PromptMacros.Proofs.Preset.Imports
import PromptMacros.Proofs.Preset.Listed
import PromptMacros.Proofs.Preset.Reload
import PromptMacros.Proofs.Preset.RoundTrip
import PromptMacros.Proofs.Rename.Extent
import PromptMacros.Proofs.Rename.InText
import PromptMacros.Proofs.Rename.Laws
import PromptMacros.Proofs.Rename.Rekey
import PromptMacros.Proofs.Rename.Report
import PromptMacros.Proofs.Rename.Slicing
import PromptMacros.Proofs.Text.Blank
import PromptMacros.Proofs.Text.Pair
import PromptMacros.Proofs.Text.Segments
import PromptMacros.Proofs.Text.Utf8
import PromptMacros.Proofs.Workspace.Bulk
import PromptMacros.Proofs.Workspace.Coherence
import PromptMacros.Proofs.Workspace.Create
import PromptMacros.Proofs.Workspace.Duplicate
import PromptMacros.Proofs.Workspace.Effect
import PromptMacros.Proofs.Workspace.Freshness
import PromptMacros.Proofs.Workspace.Merging
import PromptMacros.Proofs.Workspace.Placing
import PromptMacros.Proofs.Workspace.Reachable
import PromptMacros.Proofs.Workspace.Refusal
import PromptMacros.Proofs.Workspace.Rename
import PromptMacros.Proofs.Workspace.RenameReach
import PromptMacros.Proofs.Workspace.RenamedReport
import PromptMacros.Proofs.Workspace.Selection
import PromptMacros.Proofs.Workspace.SelfRename
import PromptMacros.Proofs.Workspace.Timing
import PromptMacros.Proofs.Workspace.Waiting
import PromptMacros.Proofs.Workspace.WrittenIds
import PromptMacros.Rename.InText
import PromptMacros.Rename.NewName
import PromptMacros.Text.Blank
import PromptMacros.Text.Bytes
import PromptMacros.Text.Hidden
import PromptMacros.Text.Pair
import PromptMacros.Text.Quoted
import PromptMacros.Workspace.Action
import PromptMacros.Workspace.Basic
import PromptMacros.Workspace.Documents
import PromptMacros.Workspace.Editing
import PromptMacros.Workspace.Ordering
import PromptMacros.Workspace.Rename

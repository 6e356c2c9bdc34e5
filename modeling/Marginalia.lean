import Marginalia.HistoryRecord
import Marginalia.Main
import Marginalia.Proofs.Pattern.Leads
import Marginalia.Proofs.Pattern.Search
import Marginalia.Proofs.Pattern.Spelling
import Marginalia.Proofs.Pattern.Division
import Marginalia.Proofs.Comment.Cover
import Marginalia.Proofs.Comment.Forms
import Marginalia.Proofs.Comment.ClosingToken
import Marginalia.Proofs.Document.Edits
import Marginalia.Proofs.Workflow.Report
import Marginalia.Proofs.Workflow.Undo
import Marginalia.Proofs.Document.Lines
import Marginalia.Proofs.Document.Patch
import Marginalia.Proofs.FileTree
import Marginalia.Proofs.Workflow.Rewriting
import Marginalia.Proofs.Document.Restore
import Marginalia.Proofs.Cache.Lru
import Marginalia.Proofs.Cache.Entries
import Marginalia.Proofs.Cache.Key
import Marginalia.Proofs.Session.Evolution
import Marginalia.Proofs.Session.Cancellation
import Marginalia.Proofs.Workflow.Cancellation
import Marginalia.Proofs.Session.Answers
import Marginalia.Proofs.Workflow.Transparency
import Marginalia.Proofs.Session.Provenance
import Marginalia.Proofs.Workflow.Provenance
import Marginalia.Proofs.Cache.Window
import Marginalia.Proofs.Language.Fallback
import Marginalia.Proofs.Pattern.Preference
import Marginalia.Proofs.Pattern.PreferredDivision
import Marginalia.Proofs.Comment.Parts
import Marginalia.Proofs.Comment.Scanner
import Marginalia.Proofs.Comment.Stability
import Marginalia.Proofs.Session.Yields
import Marginalia.Proofs.Workflow.Retranslation
import Marginalia.Proofs.Session.Interruption
import Marginalia.Proofs.Workflow.Accounting
import Marginalia.Proofs.Workflow.Files
import Marginalia.Proofs.Workflow.Recording
import Marginalia.Proofs.Language.Merging
import Marginalia.Proofs.FileTree.Contents
import Marginalia.Proofs.FileTree.Walk
import Marginalia.Proofs.Workflow.Directory
import Marginalia.Proofs.Comment.Markers
import Marginalia.Proofs.Document.RoundTrip
import Marginalia.Proofs.Workflow.Batches
import Marginalia.Proofs.Language.WellFormed
import Marginalia.Proofs.History
import Marginalia.Proofs.Session.Turns
import Marginalia.Proofs.Session.Economy
import Marginalia.Proofs.Workflow.Pacing
import Marginalia.Proofs.Toml.Text
import Marginalia.Proofs.Toml.Value
import Marginalia.Proofs.Toml.Lines
import Marginalia.Proofs.Toml.Document
import Marginalia.Proofs.Settings
import Marginalia.Proofs.Language.Splitting
import Marginalia.Proofs.Language.Inheritance
import Marginalia.Proofs.FileTree.Frame
import Marginalia.Proofs.Workflow.Target
import Marginalia.Proofs.Workflow.Preview
import Marginalia.Proofs.Service.Google
import Marginalia.Proofs.Language.Extensions
import Marginalia.Proofs.Workflow.Attempts
import Marginalia.Proofs.Service.Client
import Marginalia.Proofs.Workflow.Services
import Marginalia.Proofs.CommandLine.Overrides

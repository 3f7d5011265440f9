import SwiftDraft.Main
import SwiftDraft.Proofs.Announcements
import SwiftDraft.Proofs.Current
import SwiftDraft.Proofs.Folding
import SwiftDraft.Proofs.Indented
import SwiftDraft.Proofs.Isolation
import SwiftDraft.Proofs.Lines
import SwiftDraft.Proofs.Pieces
import SwiftDraft.Proofs.Preorder
import SwiftDraft.Proofs.Records
import SwiftDraft.Proofs.Trimmed
import SwiftDraft.Workbench.Encoding
import SwiftDraft.Workbench.Feed
import SwiftDraft.Proofs.DraftLines
import SwiftDraft.Proofs.Comments
import SwiftDraft.Proofs.Continuation
import SwiftDraft.Proofs.Found
import SwiftDraft.Proofs.Concatenation
import SwiftDraft.Proofs.Splitting
import SwiftDraft.Proofs.WrittenHints
import SwiftDraft.Proofs.Embedding
import SwiftDraft.Proofs.Imports
import SwiftDraft.Proofs.Views
import SwiftDraft.Proofs.TreeEncoding
import SwiftDraft.Proofs.RecordEncoding
import SwiftDraft.Proofs.Places
import SwiftDraft.Proofs.Folders
import SwiftDraft.Proofs.Replacing
import SwiftDraft.Proofs.Exporting
import SwiftDraft.Proofs.Loading
import SwiftDraft.Proofs.Batches
import SwiftDraft.Proofs.Outputs
import SwiftDraft.Proofs.Failures
import SwiftDraft.Proofs.FunctionHeaders
import SwiftDraft.Proofs.Restriction
import SwiftDraft.Proofs.TestNames
import SwiftDraft.Proofs.SilentLines
import SwiftDraft.Proofs.Levels
import SwiftDraft.Proofs.ScannedHeaders
import SwiftDraft.Proofs.Scopes
import SwiftDraft.Proofs.Owners
import SwiftDraft.Proofs.Ranges
import SwiftDraft.Proofs.TypeWords
import SwiftDraft.Proofs.SampleValues
import SwiftDraft.Proofs.Words
import SwiftDraft.Proofs.TestLines
import SwiftDraft.Proofs.Suites
import SwiftDraft.Proofs.Locals
import SwiftDraft.Proofs.PackageNames
import SwiftDraft.Proofs.Targets
import SwiftDraft.Proofs.Keywords
import SwiftDraft.Proofs.ImportLines
import SwiftDraft.Proofs.Answers
import SwiftDraft.Proofs.Sessions
import SwiftDraft.Proofs.Turns
import SwiftDraft.Proofs.Naming
import SwiftDraft.Proofs.Walks
import SwiftDraft.Proofs.Signs
import SwiftDraft.Proofs.Offsets
import SwiftDraft.Proofs.Widths
import SwiftDraft.Proofs.Spaces

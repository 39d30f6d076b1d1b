import DirectoryNotes.Main
import DirectoryNotes.Proofs.Assistant.Turns
import DirectoryNotes.Proofs.Directory.Assistance
import DirectoryNotes.Proofs.Refresh
import DirectoryNotes.Source.File
import DirectoryNotes.Proofs.Document.Ranking
import DirectoryNotes.Proofs.Text.Case
import DirectoryNotes.Proofs.Source.Names
import DirectoryNotes.Proofs.Directory.Ranking
import DirectoryNotes.Proofs.FileTree.Descent
import DirectoryNotes.Proofs.Walk.Visits
import DirectoryNotes.Proofs.Walk.Listing
import DirectoryNotes.Proofs.Ignore.Nearest
import DirectoryNotes.Proofs.Plan.Walked
import DirectoryNotes.Proofs.Plan.Membership
import DirectoryNotes.Proofs.Directory.Summary
import DirectoryNotes.Proofs.Command.Failure
import DirectoryNotes.Proofs.Command.Writes
import DirectoryNotes.Proofs.Command.Outputs
import DirectoryNotes.Proofs.Command.SetUp
import DirectoryNotes.Proofs.Ignore.Appending
import DirectoryNotes.Proofs.Document.Replacement
import DirectoryNotes.Proofs.Source.Imports
import DirectoryNotes.Proofs.Source.Functions
import DirectoryNotes.Proofs.Source.LineEnds
import DirectoryNotes.Proofs.Directory.ExportEdges
import DirectoryNotes.Proofs.Source.Blocks
import DirectoryNotes.Proofs.VersionControl.Logs
import DirectoryNotes.Proofs.VersionControl.Quoting
import DirectoryNotes.Proofs.View.ReadBack
import DirectoryNotes.Proofs.View.DocumentOrder
import DirectoryNotes.Proofs.Assistant.Descriptions
import DirectoryNotes.Proofs.View.Standard
import DirectoryNotes.Proofs.Directory.Isolation
import DirectoryNotes.Proofs.Directory.Heuristics
import DirectoryNotes.Proofs.Source.Bindings
import DirectoryNotes.Proofs.Assistant.Embedded

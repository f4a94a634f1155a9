import LineShell.Session
import LineShell.ProcessTable
import LineShell.CommandLine
import LineShell.Main
import LineShell.Proofs.Cursor
import LineShell.Proofs.Wrapping
import LineShell.Proofs.Grammar
import LineShell.Proofs.History
import LineShell.Proofs.Session
import LineShell.Proofs.Move
import LineShell.Proofs.Wiring
import LineShell.Proofs.Stage
import LineShell.Proofs.Arranged
import LineShell.Proofs.Execution
import LineShell.Proofs.Orderly
import LineShell.Proofs.Deadlock
import LineShell.Proofs.Journal
import LineShell.Proofs.Story
import LineShell.Proofs.Chronicle
import LineShell.Proofs.Reaping
import LineShell.Proofs.Progress
import LineShell.Proofs.Status
import LineShell.Proofs.Printing
import LineShell.Proofs.Opening
import LineShell.Proofs.Redirecting
import LineShell.Proofs.Cut
import LineShell.Proofs.Fault
import LineShell.Proofs.Room
import LineShell.Proofs.Waiting
import LineShell.Proofs.Handed
import LineShell.Proofs.Resuming
import LineShell.Proofs.Locating
import LineShell.Proofs.Utf8
import LineShell.Proofs.Reading
import LineShell.Proofs.Replacing
import LineShell.Proofs.Truncation
import LineShell.Proofs.Settings
import LineShell.Proofs.Settings.Written
import LineShell.Proofs.Listing
import LineShell.Proofs.Segmentation
import LineShell.Proofs.Stepping
import LineShell.Proofs.Trailing
import LineShell.Proofs.Repeating
import LineShell.Proofs.Undivided
import LineShell.Proofs.Reordering
import LineShell.Proofs.Words

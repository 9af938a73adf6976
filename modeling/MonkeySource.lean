import MonkeySource.Comparison
import MonkeySource.File.Tokenize
import MonkeySource.Program.Edit
import MonkeySource.Program.Traversal
import MonkeySource.Proofs.MaximalMunch
import MonkeySource.Proofs.QuoteParity
import MonkeySource.Proofs.RoundTrip
import MonkeySource.Proofs.Tiling
import MonkeySource.Release
import MonkeySource.Scanner.Session
import MonkeySource.Proofs.CursorForm
import MonkeySource.Proofs.SharedStream
import MonkeySource.Proofs.Concatenation
import MonkeySource.Proofs.StrictReading
import MonkeySource.Proofs.RecordedWarnings
import MonkeySource.Proofs.Lookahead
import MonkeySource.Proofs.LocationText
import MonkeySource.Proofs.LineMap
import MonkeySource.Proofs.PrintedProgram
import MonkeySource.Proofs.LineEnds
import MonkeySource.Proofs.Utf8
import MonkeySource.Proofs.FileReading
import MonkeySource.Proofs.MoreInput
import MonkeySource.Proofs.Bookkeeping
import MonkeySource.Proofs.Termination
import MonkeySource.Proofs.NoFailure
import MonkeySource.Proofs.Quotation
import MonkeySource.Proofs.TokenText
import MonkeySource.Proofs.DiagnosticText
import MonkeySource.Proofs.CursorReads
import MonkeySource.Proofs.WarningText
import MonkeySource.Proofs.TreeWalk
import MonkeySource.Proofs.LocalEdits
import MonkeySource.Proofs.ObjectReading
import MonkeySource.Proofs.ReachableObjects
import MonkeySource.Proofs.EditsByReference
import MonkeySource.Proofs.UnsharedEdits

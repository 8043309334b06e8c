import TrueCase.Main
import TrueCase.Proofs.Batch.AnyOrder
import TrueCase.Proofs.Batch.Atomic
import TrueCase.Proofs.Batch.Changed
import TrueCase.Proofs.Batch.Indexed
import TrueCase.Proofs.Batch.Modes
import TrueCase.Proofs.Batch.Recorded
import TrueCase.Proofs.Batch.Reported
import TrueCase.Proofs.Batch.SecondRun
import TrueCase.Proofs.CommandLine.Settings
import TrueCase.Proofs.FileSystem.Admissible
import TrueCase.Proofs.FileSystem.SourceName
import TrueCase.Proofs.Import.AboveRoot
import TrueCase.Proofs.Import.CaseSensitive
import TrueCase.Proofs.Import.Directory
import TrueCase.Proofs.Import.FixedPoint
import TrueCase.Proofs.Import.LetterCase
import TrueCase.Proofs.Import.NewFile
import TrueCase.Proofs.Import.Rescan
import TrueCase.Proofs.Import.Spelling
import TrueCase.Proofs.Path.Shortest
import TrueCase.Proofs.Report.Colour
import TrueCase.Proofs.Report.Document

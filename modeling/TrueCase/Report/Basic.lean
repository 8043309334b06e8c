import TrueCase.Import.Fix
import TrueCase.Report.Json

/-!
# Reports

A run ends with a report of every specifier that was replaced, or would be, and of every one that
names no file, together with some counts.

## Main definitions

* `Report`: the records and counts of a run.
* `Report.assemble`: makes the totals agree with the records.
* `Report.toJson`: the document that is saved.
-/

namespace TrueCase

/-- The counts of a run. -/
structure Counts where
  totalFixes : Nat := 0
  totalIssues : Nat := 0
  filesIndexed : Nat := 0
  filesScanned : Nat := 0
  filesChanged : Nat := 0
  deriving DecidableEq, Repr

/-- The results of a run. -/
structure Report where
  /-- When the report was made. -/
  timestamp : Text
  /-- Whether the run only planned its fixes. -/
  dryRun : Bool
  fixes : List FixRecord
  issues : List IssueRecord
  counts : Counts
  deriving DecidableEq, Repr

namespace Report

/-- The report with the given records. The two totals are taken from them. -/
def assemble (timestamp : Text) (fixes : List FixRecord) (issues : List IssueRecord)
    (counts : Counts) (dryRun : Bool) : Report where
  timestamp
  dryRun
  fixes
  issues
  counts := { counts with totalFixes := fixes.length, totalIssues := issues.length }

end Report

/-- The members of a fix record. -/
def FixRecord.toJson (fix : FixRecord) : Json :=
  .object
    [("file".toList, .string fix.file), ("old".toList, .string fix.old),
     ("new".toList, .string fix.new), ("target".toList, .string fix.target)]

/-- The members of an issue record. -/
def IssueRecord.toJson (issue : IssueRecord) : Json :=
  .object
    [("file".toList, .string issue.file), ("import".toList, .string issue.specifier),
     ("line".toList, .number issue.line), ("reason".toList, .string issue.reason)]

/-- The members of the counts. -/
def Counts.toJson (counts : Counts) : Json :=
  .object
    [("totalFixes".toList, .number counts.totalFixes),
     ("totalIssues".toList, .number counts.totalIssues),
     ("filesIndexed".toList, .number counts.filesIndexed),
     ("filesScanned".toList, .number counts.filesScanned),
     ("filesChanged".toList, .number counts.filesChanged)]

namespace Report

/-- The report as a JSON value. -/
def toJson (report : Report) : Json :=
  .object
    [("timestamp".toList, .string report.timestamp), ("dryRun".toList, .boolean report.dryRun),
     ("fixes".toList, .array (report.fixes.map FixRecord.toJson)),
     ("issues".toList, .array (report.issues.map IssueRecord.toJson)),
     ("summary".toList, report.counts.toJson)]

/-- The text of the saved report. -/
def document (report : Report) : Text :=
  report.toJson.pretty

end Report

end TrueCase

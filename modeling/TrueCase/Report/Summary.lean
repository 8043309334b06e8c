import TrueCase.Console.Style
import TrueCase.Report.Basic

/-!
# The summary of a report

The summary that is printed at the end of a run. It lists the first fixes and issues only and says
how many there are beyond; the saved report holds them all.
-/

namespace TrueCase

namespace Report

/-- The number of fixes that the summary lists. -/
def listedFixes : Nat := 50

/-- The number of issues that the summary lists. -/
def listedIssues : Nat := 20

/-- The old specifier and the one in its place. -/
def changeLine (coloured : Bool) (fix : FixRecord) : Text :=
  Style.paint { colour := some .red } coloured fix.old ++ " -> ".toList ++
    Style.paint { colour := some .green } coloured fix.new

/-- The lines of one listed fix. -/
def fixLines (coloured : Bool) (number : Nat) (fix : FixRecord) : List Text :=
  [[], Text.ofNat number ++ ". ".toList ++ fix.file,
   "   ".toList ++ changeLine coloured fix]

/-- The lines of one listed issue. -/
def issueLines (coloured : Bool) (number : Nat) (issue : IssueRecord) : List Text :=
  [[], Text.ofNat number ++ ". ".toList ++ issue.file ++ ':' :: Text.ofNat issue.line,
   "   Import: ".toList ++ Style.paint { colour := some .yellow } coloured issue.specifier]

/-- The lines of the first `limit` records, numbered from 1, and of a remark on the others. -/
def listing {α : Type} (limit : Nat) (render : Nat → α → List Text) (noun : Text)
    (records : List α) : List Text :=
  ((records.take limit).zipIdx 1).flatMap (fun (record, number) => render number record) ++
    if limit < records.length then
      [[], "... and ".toList ++ Text.ofNat (records.length - limit) ++ " more ".toList ++ noun]
    else []

/-- The lines of the summary. -/
def summaryLines (coloured : Bool) (report : Report) : List Text :=
  let rule := List.replicate 80 '='
  let applied := if report.dryRun then "Fixes planned" else "Fixes applied"
  let heading := if report.dryRun then "WOULD FIX:" else "FIXED:"
  [rule, Style.paint { bold := true } coloured "SUMMARY".toList, rule,
   applied.toList ++ ": ".toList ++ Text.ofNat report.fixes.length,
   "Issues found: ".toList ++ Text.ofNat report.issues.length] ++
  (if report.fixes = [] then [] else
    [[], Style.paint { bold := true, colour := some .green } coloured heading.toList] ++
      listing listedFixes (fixLines coloured) "fixes".toList report.fixes) ++
  (if report.issues = [] then [] else
    [[], Style.paint { bold := true, colour := some .red } coloured
        "ISSUES (files not found):".toList] ++
      listing listedIssues (issueLines coloured) "issues".toList report.issues)

/-- The summary of a report. -/
def summary (coloured : Bool) (report : Report) : Text :=
  ['\n'].intercalate (report.summaryLines coloured)

end Report

end TrueCase

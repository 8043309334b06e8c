import TrueCase.Proofs.Console.Strip
import TrueCase.Report.Summary

/-!
# The summary without colour

The summary of a report is the same with colour and without, but for the escape sequences. Each line
is put together from styled and plain text that cannot run into one another, whatever escape
sequences, or pieces of them, the records hold.

## Main statements

* `map_strip_summaryLines`: colour changes no line of the summary but for escape sequences.
* `strip_summary_coloured`: colour changes nothing else in the summary.
-/

namespace TrueCase.Report

open TrueCase.Style

/-! ## Records -/

theorem strip_changeLine (coloured : Bool) (fix : FixRecord) :
    strip (changeLine coloured fix) = strip fix.old ++ (" -> ".toList ++ strip fix.new) := by
  have harrow (t : Text) : Fresh (" -> ".toList ++ t) := fresh_cons (by decide) _
  rw [changeLine, List.append_assoc, strip_append (harrow _),
    strip_append_of_not_mem (by decide), strip_paint, strip_paint]

theorem map_strip_fixLines (coloured : Bool) (number : Nat) (fix : FixRecord) :
    (fixLines coloured number fix).map strip = (fixLines false number fix).map strip := by
  have hindent (t : Text) : strip ("   ".toList ++ t) = "   ".toList ++ strip t :=
    strip_append_of_not_mem (by decide) t
  simp only [fixLines, List.map_cons, List.map_nil, hindent, strip_changeLine]

theorem map_strip_issueLines (coloured : Bool) (number : Nat) (issue : IssueRecord) :
    (issueLines coloured number issue).map strip = (issueLines false number issue).map strip := by
  have hindent (t : Text) : strip ("   Import: ".toList ++ t) = "   Import: ".toList ++ strip t :=
    strip_append_of_not_mem (by decide) t
  simp only [issueLines, List.map_cons, List.map_nil, hindent, strip_paint]

/-! ## Listings -/

section

variable {α : Type} {limit : Nat} {render render' : Nat → α → List Text} {noun : Text}
  {records : List α}

/-- Two listings are alike if they are so for each record. -/
theorem map_listing_congr {f : Text → Text}
    (h : ∀ number record, (render number record).map f = (render' number record).map f) :
    (listing limit render noun records).map f = (listing limit render' noun records).map f := by
  simp only [listing, List.map_append, List.map_flatMap, h]

theorem escape_not_mem_ofNat (n : Nat) : '\x1b' ∉ Text.ofNat n := by
  intro h
  have hdigit := Text.isDigit_of_mem_ofNat h
  revert hdigit
  decide

/-- No line of a listing has an escape character if those of the records have none. -/
theorem escape_not_mem_listing (hnoun : '\x1b' ∉ noun)
    (h : ∀ record ∈ records, ∀ number, ∀ line ∈ render number record, '\x1b' ∉ line) :
    ∀ line ∈ listing limit render noun records, '\x1b' ∉ line := by
  intro line hline
  rcases List.mem_append.1 hline with hline | hline
  · obtain ⟨⟨record, number⟩, hrecord, hline⟩ := List.mem_flatMap.1 hline
    have hmem : record ∈ records.take limit := by
      obtain ⟨-, -, hget⟩ := List.mem_zipIdx hrecord
      exact hget ▸ List.getElem_mem _
    exact h record (List.mem_of_mem_take hmem) number line hline
  · split at hline
    · simp only [List.mem_cons, List.not_mem_nil, or_false] at hline
      rcases hline with rfl | rfl
      · exact List.not_mem_nil
      · simp [hnoun, escape_not_mem_ofNat]
    · exact absurd hline List.not_mem_nil

end

/-! ## The summary -/

theorem map_strip_summaryLines (coloured : Bool) (report : Report) :
    (report.summaryLines coloured).map strip = (report.summaryLines false).map strip := by
  simp only [summaryLines, List.map_append, List.map_cons, List.map_nil, strip_paint,
    apply_ite (List.map strip), map_listing_congr (map_strip_fixLines coloured),
    map_listing_congr (map_strip_issueLines coloured)]

/-- Line feeds carry on no escape sequence, so each line is stripped by itself. -/
theorem strip_intercalate (lines : List Text) :
    strip (['\n'].intercalate lines) = ['\n'].intercalate (lines.map strip) := by
  induction lines with
  | nil => simp
  | cons line lines ih =>
    cases lines with
    | nil => simp
    | cons next lines =>
      have hfeed (t : Text) : Fresh ('\n' :: t) := fresh_cons (by decide) t
      simp only [List.map_cons, List.intercalate_cons_cons, List.append_assoc,
        List.singleton_append] at ih ⊢
      rw [strip_append (hfeed _), strip_cons (by decide), ih]

theorem strip_summary (coloured : Bool) (report : Report) :
    strip (report.summary coloured) = strip (report.summary false) := by
  rw [summary, summary, strip_intercalate, strip_intercalate, map_strip_summaryLines]

/-- No text that the summary shows of a record has an escape character. -/
structure EscapeFree (report : Report) : Prop where
  fixes : ∀ fix ∈ report.fixes, '\x1b' ∉ fix.file ∧ '\x1b' ∉ fix.old ∧ '\x1b' ∉ fix.new
  issues : ∀ issue ∈ report.issues, '\x1b' ∉ issue.file ∧ '\x1b' ∉ issue.specifier

theorem escape_not_mem_summaryLines {report : Report} (h : report.EscapeFree) :
    ∀ line ∈ report.summaryLines false, '\x1b' ∉ line := by
  have hfixes : ∀ line ∈ listing listedFixes (fixLines false) "fixes".toList report.fixes,
      '\x1b' ∉ line := by
    refine escape_not_mem_listing (by decide) fun fix hfix number => ?_
    simp [fixLines, changeLine, paint, escape_not_mem_ofNat, h.fixes fix hfix]
  have hissues : ∀ line ∈ listing listedIssues (issueLines false) "issues".toList report.issues,
      '\x1b' ∉ line := by
    refine escape_not_mem_listing (by decide) fun issue hissue number => ?_
    simp [issueLines, paint, escape_not_mem_ofNat, h.issues issue hissue]
  refine List.forall_mem_append.2 ⟨List.forall_mem_append.2 ⟨?_, ?_⟩, ?_⟩
  · cases report.dryRun <;> simp [paint, escape_not_mem_ofNat]
  · split
    · exact List.forall_mem_nil _
    · refine List.forall_mem_append.2 ⟨?_, hfixes⟩
      cases report.dryRun <;> decide
  · split
    · exact List.forall_mem_nil _
    · exact List.forall_mem_append.2 ⟨by decide, hissues⟩

/-- Colour changes nothing in the summary but escape sequences. If no record has an escape character
in it, the plain summary is what is left of the coloured one without them. -/
theorem strip_summary_coloured (report : Report) :
    strip (report.summary true) = strip (report.summary false) ∧
      (report.EscapeFree → strip (report.summary true) = report.summary false) := by
  have h := strip_summary true report
  refine ⟨h, fun hfree => ?_⟩
  have hlines : (report.summaryLines false).map strip = report.summaryLines false :=
    (List.map_congr_left fun line hline =>
      strip_eq_self (escape_not_mem_summaryLines hfree line hline)).trans (List.map_id _)
  rw [h, summary, strip_intercalate, hlines]

/-- A report with pieces of escape sequences in its records, but no escape character. -/
def brokenSequences : Report :=
  .assemble [] [⟨"pages/Home.tsx".toList, "../[31m".toList, "../[0m".toList, "[0m.ts".toList⟩]
    [⟨"App.tsx".toList, "./[0;1".toList, 3, IssueRecord.notFound⟩] {} true

theorem strip_summary_brokenSequences : brokenSequences.EscapeFree ∧
    strip (brokenSequences.summary true) = strip (brokenSequences.summary false) ∧
    strip (brokenSequences.summary true) = brokenSequences.summary false := by
  have hfree : brokenSequences.EscapeFree := ⟨by decide, by decide⟩
  obtain ⟨hstrip, hplain⟩ := strip_summary_coloured brokenSequences
  exact ⟨hfree, hstrip, hplain hfree⟩

end TrueCase.Report

import TrueCase.Proofs.Batch.Run
import TrueCase.Proofs.Import.Quotes
import TrueCase.Proofs.Import.Splice

/-!
# A file is written when it changes

Whether a run writes a file depends on whether there is a fix for it, and nothing looks at the fixed
text again. Fixes of different lengths might make up the source that was there before, all the more
so when there are quotes in what they put in. They do not: the first of them shows.

## Main statements

* `fixes_eq_nil_of_content_eq`: a source that is left as it is has no fixes.
* `files_settle`: what is left behind once something has been done about a file.
* `changed_iff_content_ne`: a file is written exactly when its bytes change.
-/

namespace TrueCase

open TrueCase.Path

/-- A source that is left as it is has no fixes. -/
theorem fixes_eq_nil_of_content_eq {index : FileIndex} {current source : Text} (hi : index.Regular)
    (hcur : Clean current) (h : (fixSource index current source).content = source) :
    (fixSource index current source).fixes = [] := by
  have hplain : ∀ s ∈ (SourceText.ofText source).specifiers, Plain s :=
    List.forall_mem_map.2 SourceText.plain_of_mem_ofText
  refine fixes_fixSource_eq_nil_iff.2 (SourceText.eq_self_of_text_mapSpecifiers hplain ?_ ?_)
  · intro s hs c v hc heq
    rw [fixedSpecifier_eq_correctSpecifier, correctSpecifier] at heq
    split at heq
    · next r hr =>
      exact canonicalSpecifier_ne_append_quote hi hcur hr (hplain s hs).not_holdsQuote hc v heq
    · simp at heq
  · rw [SourceText.text_ofText]
    exact h

/-! ## What a run does about it -/

section

variable (write : Writer (StateM World)) (tally : Tally) (path : RawPath) (current : Text)
  (outcome : Outcome) (w : World)

theorem files_writeOutcome : ((writeOutcome World.host write path current outcome).run w).2.files =
    ((write path outcome.content).run w).2.files := by
  unfold writeOutcome
  rw [World.run_bind]
  cases ((write path outcome.content).run w).1 with
  | ok _ => rfl
  | error failure => rfl

theorem run_settle_of_unchanged (mode : Mode) (h : outcome.changed = false) :
    (settle write mode tally path current outcome).run w = (tally.scan outcome, w) := by
  rw [settle, h]
  rfl

/-- A file for which there is a fix is written. -/
theorem files_settle (h : outcome.changed = true) :
    ((settle write .fix tally path current outcome).run w).2.files =
      ((write path outcome.content).run w).2.files := by
  rw [settle, h, if_pos rfl, World.run_bind, applyOutcome, ← files_writeOutcome write path current]
  cases ((writeOutcome World.host write path current outcome).run w).1 with
  | false => rfl
  | true => rfl

end

/-- There is a fix for a source exactly when fixing changes it. So a file with that source is left
alone, in any mode, if the bytes of its fixed content are those that it holds, and in mode `fix` it
is handed to the writer if they are not. -/
theorem changed_iff_content_ne {index : FileIndex} {current : Text} (hi : index.Regular)
    (hcur : Clean current) (source : Text) :
    let fixed := fixSource index current source
    (fixed.changed = true ↔ fixed.content ≠ source) ∧
      ∀ (options : BatchOptions) (tally : Tally) (path : RawPath) (w : World) (bytes : Bytes),
        w.files.read path = .ok bytes → Utf8.decode? bytes = some source →
        ∃ said, ∀ write : Writer (StateM World),
          let done := (fixFile World.host write options index tally path current).run w
          (Utf8.encode fixed.content = bytes → done = (tally.scan fixed, { w with said })) ∧
            (Utf8.encode fixed.content ≠ bytes → options.mode = .fix → done.2.files =
              ((write path fixed.content).run { w with said }).2.files) := by
  intro fixed
  have hiff : fixed.changed = true ↔ fixed.content ≠ source := by
    have hfixes : fixed.content = source ↔ fixed.fixes = [] :=
      ⟨fixes_eq_nil_of_content_eq hi hcur, content_fixSource_of_fixes_eq_nil⟩
    rw [ne_eq, hfixes, Outcome.changed, Bool.not_eq_true', List.isEmpty_eq_false_iff]
  refine ⟨hiff, ?_⟩
  intro options tally path w bytes hread hdecode
  obtain rfl := Utf8.decode?_eq_some_iff.1 hdecode
  obtain ⟨said, hrun⟩ := run_fixFile options index tally current (Node.readText_eq_ok_iff.2 hread)
  refine ⟨said, fun write => ⟨fun hsame => ?_, fun hdiffer hmode => ?_⟩⟩
  · have hunchanged : fixed.changed = false := by
      rw [Bool.eq_false_iff, ne_eq, hiff, not_not]
      exact Utf8.encode_injective hsame
    rw [hrun write, run_settle_of_unchanged write tally path current fixed _ _ hunchanged]
  · have hchanged : fixed.changed = true := hiff.2 fun heq => hdiffer (by rw [heq])
    rw [hrun write, hmode, files_settle write tally path current fixed _ hchanged]

/-- A file in a directory whose name holds a quote and is spelled otherwise in the index. -/
def quotedWorld : World :=
  .ofFiles (.directory [(RawPath.ofText "It's".toList, .directory
    [(RawPath.ofText "App.tsx".toList, .file (Utf8.encode "from './foo'".toList))])]) []

/-- The quote that comes with the new specifier does not make up the old text, and the file is
written. -/
theorem changed_quote_in_specifier :
    (fixSource (FileIndex.ofPaths ["it's/Foo.ts".toList]) "It's/App.tsx".toList
        "from './foo'".toList).content ≠ "from './foo'".toList ∧
      ∃ said, ((fixFile World.host World.host.overwrite sampleOptions
          (FileIndex.ofPaths ["it's/Foo.ts".toList]) {} (RawPath.ofText "It's/App.tsx".toList)
          "It's/App.tsx".toList).run quotedWorld).2.files =
        ((World.host.overwrite (RawPath.ofText "It's/App.tsx".toList)
          (fixSource (FileIndex.ofPaths ["it's/Foo.ts".toList]) "It's/App.tsx".toList
            "from './foo'".toList).content).run { quotedWorld with said }).2.files := by
  have hfixes : (fixSource (FileIndex.ofPaths ["it's/Foo.ts".toList]) "It's/App.tsx".toList
      "from './foo'".toList).changed = true := by
    have hspecifiers : (SourceText.ofText "from './foo'".toList).specifiers =
        ["./foo".toList] := by decide +kernel
    rw [Outcome.changed, fixes_fixSource, hspecifiers]
    decide
  have hread : quotedWorld.files.read (RawPath.ofText "It's/App.tsx".toList) =
      .ok (Utf8.encode "from './foo'".toList) := by decide +kernel
  have hi : (FileIndex.ofPaths ["it's/Foo.ts".toList]).Regular :=
    FileIndex.regular_ofPaths (by decide)
  have hcur : Clean "It's/App.tsx".toList := by decide
  obtain ⟨hiff, hrun⟩ := changed_iff_content_ne hi hcur "from './foo'".toList
  have hcontent := hiff.1 hfixes
  obtain ⟨said, hdone⟩ := hrun sampleOptions {} _ quotedWorld _ hread (Utf8.decode?_encode _)
  refine ⟨hcontent, said, ?_⟩
  exact (hdone World.host.overwrite).2 (fun heq => hcontent (Utf8.encode_injective heq)) rfl

end TrueCase

import TrueCase.Proofs.Import.Leftmost
import TrueCase.Proofs.Import.Quotes

/-!
# Scanning a fixed source

A fixed source is scanned anew like any other, and what is read there depends on all of its text. As
long as no corrected specifier has a quote in it, the scan comes to the clauses of the source again,
each with the specifier that should stand there.

## Main statements

* `plain_correctSpecifier`: a specifier without quotes stays one where no fix brings a quote in.
* `forall₂_importsFrom`: where specifiers stand once others have taken their places.
* `ofText_content_fixSource`: the clauses of a fixed source are those of the source.
-/

namespace TrueCase

open SourceText

theorem plain_iff {t : Text} : Plain t ↔ t ≠ [] ∧ ¬ HoldsQuote t := by
  simp [Plain, HoldsQuote]

section

variable {index : FileIndex} {current source : Text}

/-- What stands in place of a specifier is the specifier itself, or the new one of a fix. -/
theorem correctSpecifier_cases (index : FileIndex) (current : Text) {specifier : Text}
    (h : specifier ∈ (ofText source).specifiers) :
    correctSpecifier index current specifier = specifier ∨
      ∃ fix ∈ (fixSource index current source).fixes,
        correctSpecifier index current specifier = fix.new ∧ fix.new ≠ [] := by
  rw [← fixedSpecifier_eq_correctSpecifier, fixedSpecifier]
  cases hj : judge index current specifier with
  | keep => exact Or.inl rfl
  | missing => exact Or.inl rfl
  | replace new target =>
    obtain ⟨r, -, rfl, -⟩ := exists_of_judge_eq_replace hj
    refine Or.inr ⟨⟨current, specifier, canonicalSpecifier index current r, target⟩, ?_, rfl,
      List.ne_nil_of_mem (slash_mem_canonicalSpecifier index current r)⟩
    rw [fixes_fixSource]
    exact List.mem_filterMap.2 ⟨specifier, h, by rw [hj]; rfl⟩

/-- What stands in place of the specifiers of a source is plain as long as no fix brings a quote
in. -/
theorem plain_correctSpecifier
    (hquote : ∀ fix ∈ (fixSource index current source).fixes, ¬ HoldsQuote fix.new) :
    ∀ clause ∈ (ofText source).clauses,
      Plain (correctSpecifier index current clause.specifier) := by
  intro clause hclause
  rcases correctSpecifier_cases index current (List.mem_map_of_mem hclause) with
    h | ⟨fix, hfix, h, hne⟩ <;> rw [h]
  · exact plain_of_mem_ofText clause hclause
  · exact plain_iff.2 ⟨hne, hquote fix hfix⟩

end

/-- Behind any two texts, a specifier and the one that takes its place stand between quotes of one
kind. -/
theorem forall₂_importsFrom (f : Text → Text) (clauses : List ImportClause) (a b tail : Text) :
    List.Forall₂ (fun m n => n.specifier = f m.specifier ∧ ∃ quote,
        m.QuotedIn quote (a ++ text ⟨clauses, tail⟩) ∧
          n.QuotedIn quote (b ++ (mapSpecifiers f ⟨clauses, tail⟩).text))
      (importsFrom a.utf8Size (a.lineFeeds + 1) clauses)
      (importsFrom b.utf8Size (b.lineFeeds + 1) (mapSpecifiers f ⟨clauses, tail⟩).clauses) := by
  induction clauses generalizing a b with
  | nil => exact List.Forall₂.nil
  | cons clause clauses ih =>
    rw [mapSpecifiers_cons, importsFrom_cons_placed, importsFrom_cons_placed]
    simp only [text_cons]
    refine .cons ⟨rfl, clause.quote, quotedIn_placed a _ clause, quotedIn_placed b _ _⟩ ?_
    simpa only [List.append_assoc] using ih (a ++ clause.text)
      (b ++ ImportClause.text { clause with specifier := f clause.specifier })

/-- As long as no fix brings a quote in, a fixed source has the clauses of its source, with all that
stands between them, and each has the correct specifier in place of its own: no clause appears,
disappears or runs into another. So scanning finds one specifier for each that it found in the
source, which is the correct one, between quotes of the same kind. -/
theorem ofText_content_fixSource (index : FileIndex) (current source : Text)
    (hquote : ∀ fix ∈ (fixSource index current source).fixes, ¬ HoldsQuote fix.new) :
    let fixed := fixSource index current source
    ofText fixed.content = (ofText source).mapSpecifiers (correctSpecifier index current) ∧
      List.Forall₂ (fun m n => n.specifier = correctSpecifier index current m.specifier ∧
          ∃ quote, m.QuotedIn quote source ∧ n.QuotedIn quote fixed.content)
        (ofText source).imports (ofText fixed.content).imports := by
  intro fixed
  have hcontent : fixed.content =
      ((ofText source).mapSpecifiers (correctSpecifier index current)).text := by
    rw [← funext (fixedSpecifier_eq_correctSpecifier index current)]
    rfl
  have hscan : ofText fixed.content =
      (ofText source).mapSpecifiers (correctSpecifier index current) := by
    rw [hcontent]
    exact ofText_text_mapSpecifiers (plain_correctSpecifier hquote)
  refine ⟨hscan, ?_⟩
  have hplaces := forall₂_importsFrom (correctSpecifier index current) (ofText source).clauses
    [] [] (ofText source).tail
  simp only [List.nil_append] at hplaces
  rw [imports, imports, hscan, hcontent]
  nth_rewrite 1 [← text_ofText source]
  exact hplaces

set_option maxRecDepth 20000 in
/-- A new specifier may end in the word itself, with white space between that and the closing
quote. The clause behind it is found all the same. -/
theorem specifiers_content_from :
    (∀ fix ∈ (fixSource (FileIndex.ofPaths ["x from .ts".toList]) "App.ts".toList
        "from './X FROM ' + from './b'".toList).fixes, ¬ HoldsQuote fix.new) ∧
      (ofText (fixSource (FileIndex.ofPaths ["x from .ts".toList]) "App.ts".toList
        "from './X FROM ' + from './b'".toList).content).specifiers =
          ["./x from ".toList, "./b".toList] := by
  have hspecifiers : (ofText "from './X FROM ' + from './b'".toList).specifiers =
      ["./X FROM ".toList, "./b".toList] := by cbv
  have hquote : ∀ fix ∈ (fixSource (FileIndex.ofPaths ["x from .ts".toList]) "App.ts".toList
      "from './X FROM ' + from './b'".toList).fixes, ¬ HoldsQuote fix.new := by
    rw [fixes_fixSource, hspecifiers]
    decide
  refine ⟨hquote, ?_⟩
  rw [(ofText_content_fixSource _ _ _ hquote).1, specifiers_mapSpecifiers, hspecifiers]
  decide

end TrueCase

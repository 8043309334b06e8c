import TrueCase.Import.Fix
import TrueCase.Proofs.Import.Canonical
import TrueCase.Proofs.Import.Clause

/-!
# Fixing a fixed source

A source is fixed specifier by specifier, so what fixing does to it is said by its list of
specifiers. Where no path holds a quote or a capital sigma, a specifier that has been put in is kept
from then on, and fixing a source a second time finds nothing to do.

## Main definitions

* `Tame`: a text with neither a quote nor a capital sigma.

## Main statements

* `judge_fixedSpecifier`: the verdict on a specifier that has been fixed.
* `content_fixSource_of_fixes_eq_nil`: a source without fixes is left as it is.
* `fixSource_content_fixSource`: a fixed source has no fixes, and the same missing specifiers.
-/

namespace TrueCase

open TrueCase.Path

/-- A text with neither a quote nor a capital sigma. -/
def Tame (t : Text) : Prop :=
  ∀ c ∈ t, isQuote c = false ∧ c ≠ 'Σ'

instance (t : Text) : Decidable (Tame t) :=
  List.decidableBAll (fun c => isQuote c = false ∧ c ≠ 'Σ') t

theorem Tame.sigma_not_mem {t : Text} (h : Tame t) : 'Σ' ∉ t :=
  fun hmem => (h 'Σ' hmem).2 rfl

section

variable {index : FileIndex} {current specifier : Text} {r : Resolution}

/-! ## What fixing does to the specifiers -/

theorem fixes_fixSource (index : FileIndex) (current source : Text) :
    (fixSource index current source).fixes = (SourceText.ofText source).specifiers.filterMap
      fun s => (judge index current s).fix? current s := by
  rw [← SourceText.specifiers_imports, List.filterMap_map]
  rfl

/-- The specifiers that are reported are those that name no file. -/
theorem issues_fixSource (index : FileIndex) (current source : Text) :
    (fixSource index current source).issues.map (fun i => (i.file, i.specifier)) =
      (SourceText.ofText source).specifiers.filterMap
        fun s => if judge index current s = .missing then some (current, s) else none := by
  rw [← SourceText.specifiers_imports, List.filterMap_map, fixSource, List.map_filterMap]
  congr 1
  funext i
  cases h : judge index current i.specifier <;> simp [h, Verdict.issue?]

/-- A specifier is replaced when another one should stand in its place. -/
theorem fix?_judge_eq_none_iff : (judge index current specifier).fix? current specifier = none ↔
    fixedSpecifier index current specifier = specifier := by
  unfold fixedSpecifier judge
  cases resolve index current specifier with
  | external => simp [Verdict.fix?, Verdict.specifier]
  | notFound => simp [Verdict.fix?, Verdict.specifier]
  | found r =>
    dsimp only
    split
    · simp [Verdict.fix?, Verdict.specifier]
    · next hne => simp [Verdict.fix?, Verdict.specifier, hne]

/-- A source has no fixes when each of its specifiers is as it should be. -/
theorem fixes_fixSource_eq_nil_iff {source : Text} : (fixSource index current source).fixes = [] ↔
    ∀ s ∈ (SourceText.ofText source).specifiers, fixedSpecifier index current s = s := by
  rw [fixes_fixSource, List.filterMap_eq_nil_iff]
  exact forall₂_congr fun s _ => fix?_judge_eq_none_iff

/-- A source without fixes is left as it is. -/
theorem content_fixSource_of_fixes_eq_nil {source : Text}
    (h : (fixSource index current source).fixes = []) :
    (fixSource index current source).content = source := by
  have hself := SourceText.mapSpecifiers_eq_self (fixes_fixSource_eq_nil_iff.1 h)
  rw [fixSource, hself, SourceText.text_ofText]

/-! ## The verdict on a fixed specifier -/

/-- What is put in for a specifier is the canonical specifier of the file that it names. -/
theorem exists_of_judge_eq_replace {new target : Text}
    (h : judge index current specifier = .replace new target) :
    ∃ r, resolve index current specifier = .found r ∧
      new = canonicalSpecifier index current r ∧ target = r.entry.actualPath := by
  unfold judge at h
  split at h
  · cases h
  · cases h
  · next r hr =>
    dsimp only at h
    split at h
    · cases h
    · cases h
      exact ⟨r, hr, rfl, rfl⟩

theorem Verdict.file_of_fix? {verdict : Verdict} {file old : Text} {fix : FixRecord}
    (h : verdict.fix? file old = some fix) : fix.file = file := by
  cases verdict <;> cases h
  rfl

/-- The fixes of a source bear the name of its file. -/
theorem file_of_mem_fixes {source : Text} {fix : FixRecord}
    (h : fix ∈ (fixSource index current source).fixes) : fix.file = current := by
  obtain ⟨imported, -, hfix⟩ := List.mem_filterMap.1 h
  exact Verdict.file_of_fix? hfix

/-- What a fix says: a specifier of the source names the target, whose canonical specifier takes its
place. -/
theorem exists_of_mem_fixes {source : Text} {fix : FixRecord}
    (h : fix ∈ (fixSource index current source).fixes) :
    ∃ specifier r, Plain specifier ∧ resolve index current specifier = .found r ∧
      fix.new = canonicalSpecifier index current r ∧ fix.target = r.entry.actualPath := by
  rw [fixes_fixSource] at h
  obtain ⟨specifier, hmem, hfix⟩ := List.mem_filterMap.1 h
  obtain ⟨clause, hclause, rfl⟩ := List.mem_map.1 hmem
  have hplain := SourceText.plain_of_mem_ofText clause hclause
  cases hj : judge index current clause.specifier with
  | keep => simp [hj, Verdict.fix?] at hfix
  | missing => simp [hj, Verdict.fix?] at hfix
  | replace new target =>
    obtain ⟨r, hr, rfl, rfl⟩ := exists_of_judge_eq_replace hj
    rw [hj] at hfix
    cases hfix
    exact ⟨clause.specifier, r, hplain, hr, rfl, rfl⟩

/-- A canonical specifier that leads back in the same way is kept. -/
theorem judge_canonicalSpecifier
    (h : resolve index current (canonicalSpecifier index current r) = .found r) :
    judge index current (canonicalSpecifier index current r) = .keep := by
  simp [judge, h]

/-- The characters of a canonical specifier are those of the path of its file, slashes and dots. -/
theorem mem_of_mem_canonicalSpecifier {c : Char} (h : c ∈ canonicalSpecifier index current r) :
    c = '/' ∨ c = '.' ∨ c ∈ r.entry.actualPath := by
  rcases canonicalSpecifier_cases index current r with ⟨heq, -⟩ | ⟨heq, -⟩ <;> rw [heq] at h
  · unfold preferredSpecifier at h
    dsimp only at h
    split at h
    · exact mem_of_mem_explicit (mem_of_mem_dropExtension h)
    · exact (mem_of_mem_explicit h).imp_right (Or.imp_right mem_of_mem_parent)
  · exact mem_of_mem_explicit h

/-- A canonical specifier has a slash in it, whatever it is for. -/
theorem slash_mem_canonicalSpecifier (index : FileIndex) (current : Text) (r : Resolution) :
    '/' ∈ canonicalSpecifier index current r := by
  rcases canonicalSpecifier_cases index current r with ⟨h, -⟩ | ⟨h, -⟩ <;> rw [h]
  · unfold preferredSpecifier
    dsimp only
    split
    · exact slash_mem_dropExtension (slash_mem_explicit _ _)
    · exact slash_mem_explicit _ _
  · exact slash_mem_explicit _ _

/-- A canonical specifier holds a quote only if the path of its file does. -/
theorem plain_canonicalSpecifier (hq : ∀ c ∈ r.entry.actualPath, isQuote c = false) :
    Plain (canonicalSpecifier index current r) := by
  refine ⟨List.ne_nil_of_mem (slash_mem_canonicalSpecifier index current r), fun c hc => ?_⟩
  rcases mem_of_mem_canonicalSpecifier hc with rfl | rfl | hc
  · rfl
  · rfl
  · exact hq c hc

section

variable (hi : index.Normal) (hcur : Path.Normal current)
  (htame : ∀ entry ∈ index.entries, Tame entry.actualPath)

include htame

theorem plain_fixedSpecifier (hs : Plain specifier) :
    Plain (fixedSpecifier index current specifier) := by
  unfold fixedSpecifier
  cases hj : judge index current specifier with
  | keep => exact hs
  | missing => exact hs
  | replace new target =>
    obtain ⟨r, hr, rfl, -⟩ := exists_of_judge_eq_replace hj
    have he := mem_entries_of_resolve hr
    exact plain_canonicalSpecifier fun c hc => (htame r.entry he c hc).1

variable (hσ : 'Σ' ∉ current)

include hi hcur hσ

/-- A fixed specifier is kept, unless it names no file. Then it is what it was before. -/
theorem judge_fixedSpecifier (hs : 'Σ' ∉ specifier) :
    judge index current (fixedSpecifier index current specifier) =
      if judge index current specifier = .missing then .missing else .keep := by
  unfold fixedSpecifier
  cases hj : judge index current specifier with
  | keep => simpa [Verdict.specifier] using hj
  | missing => simpa [Verdict.specifier] using hj
  | replace new target =>
    obtain ⟨r, hr, rfl, -⟩ := exists_of_judge_eq_replace hj
    have htarget : 'Σ' ∉ targetOf current specifier := by
      intro hmem
      rcases mem_of_mem_join hmem with h | h | h | h
      · exact absurd h (by decide)
      · exact absurd h (by decide)
      · exact hσ (mem_of_mem_parent h)
      · exact hs h
    have hactual := (htame r.entry (mem_entries_of_resolve hr)).sigma_not_mem
    have hback := resolve_canonicalSpecifier_eq hi hcur hr fun hk =>
      leadsTo_preferredSpecifier hi hcur hr hk htarget hactual
    simpa [Verdict.specifier] using judge_canonicalSpecifier hback

/-- Fixing a fixed source finds nothing to do. -/
theorem fixSource_content_fixSource {source : Text} (hs : 'Σ' ∉ source) :
    let fixed := fixSource index current source
    let again := fixSource index current fixed.content
    again.fixes = [] ∧ again.issues.map (fun i => (i.file, i.specifier)) =
      fixed.issues.map (fun i => (i.file, i.specifier)) := by
  intro fixed again
  have hspecs : (SourceText.ofText fixed.content).specifiers =
      (SourceText.ofText source).specifiers.map (fixedSpecifier index current) := by
    rw [← SourceText.specifiers_mapSpecifiers]
    congr 1
    exact SourceText.ofText_text_mapSpecifiers fun clause hc =>
      plain_fixedSpecifier htame (SourceText.plain_of_mem_ofText clause hc)
  have hverdict : ∀ s ∈ (SourceText.ofText source).specifiers,
      judge index current (fixedSpecifier index current s) =
        if judge index current s = .missing then .missing else .keep := by
    intro s hmem
    refine judge_fixedSpecifier hi hcur htame hσ fun hσs => hs ?_
    simpa using SourceText.mem_text_of_mem_specifiers hmem hσs
  constructor
  · rw [fixes_fixSource, hspecs, List.filterMap_map, List.filterMap_eq_nil_iff]
    intro s hmem
    rw [Function.comp_apply, hverdict s hmem]
    split <;> rfl
  · rw [issues_fixSource, issues_fixSource, hspecs, List.filterMap_map]
    refine List.filterMap_congr fun s hmem => ?_
    by_cases hmissing : judge index current s = .missing
    · have hself : fixedSpecifier index current s = s :=
        fix?_judge_eq_none_iff.1 (by rw [hmissing]; rfl)
      rw [Function.comp_apply, hself]
    · rw [Function.comp_apply, hverdict s hmem, if_neg hmissing, if_neg (by simp), if_neg hmissing]

end

end

end TrueCase

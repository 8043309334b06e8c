import TrueCase.Proofs.Import.Resolution
import TrueCase.Proofs.Text.FinalSigma

/-!
# Letter case

Two specifiers with one lower-case form lead to paths with one lower-case form, so the paths
themselves and their index files are found alike. With an extension behind them they can fall apart:
a capital sigma at the end of a path is no longer final then. Two specifiers that differ in nothing
but case are resolved alike exactly when this makes no difference to the index.

## Main statements

* `resolve_congr`: paths that agree on the final sigma are found alike.
* `lower_append_suffix_ne`: those that do not agree have no path with an extension in common.
* `resolve_eq_iff_of_lower_eq`: which specifiers that differ in case only are resolved alike.
-/

namespace TrueCase

open Text

set_option maxRecDepth 20000 in
theorem startsCased_suffix (e : Extension) : startsCased e.suffix = true := by
  cases e <;> decide

/-! ## Specifiers and their targets -/

theorem isRelative_lower (specifier : Text) : isRelative specifier.lower = isRelative specifier := by
  have hdot : '.'.toNat < 0x41 := by decide
  rw [isRelative, isRelative, decide_eq_decide, List.head?_eq_some_iff, List.head?_eq_some_iff]
  constructor
  · rintro ⟨x, hx⟩
    obtain ⟨t, ht, -⟩ := exists_of_lowerAfter_eq_cons hdot hx
    exact ⟨t, ht⟩
  · rintro ⟨t, rfl⟩
    exact ⟨_, lowerAfter_cons_of_lt hdot false t⟩

section

variable {index : FileIndex} {current s t : Text}

/-- Once the target itself is missing, a file is found directly by one of the extensions. -/
theorem exists_suffix_of_resolve_direct {entry : FileEntry}
    (hnone : index.get? (targetOf current s) = none)
    (h : resolve index current s = .found ⟨entry, .direct⟩) :
    ∃ e : Extension, index.get? (targetOf current s ++ e.suffix) = some entry := by
  obtain ⟨-, ⟨-, hfind⟩ | ⟨hk, -⟩⟩ := resolve_eq_found_iff.1 h
  · obtain ⟨c, hc, hget⟩ := List.exists_of_findSome?_eq_some hfind
    rcases mem_directCandidates.1 hc with rfl | ⟨e, rfl⟩
    · cases hnone.symm.trans hget
    · exact ⟨e, hget⟩
  · cases hk

theorem exists_resolve_direct_of_suffix {entry : FileEntry} {e : Extension}
    (hrel : isRelative s = true) (h : index.get? (targetOf current s ++ e.suffix) = some entry) :
    ∃ found, resolve index current s = .found ⟨found, .direct⟩ := by
  cases hfind : (directCandidates (targetOf current s)).findSome? index.get? with
  | some found => exact ⟨found, resolve_eq_found_iff.2 ⟨hrel, Or.inl ⟨rfl, hfind⟩⟩⟩
  | none =>
    rw [(findSome?_directCandidates_eq_none_iff.1 hfind).2 e] at h
    cases h

/-- A resolution depends on nothing but what is found with the direct candidates and with the index
files. -/
theorem resolve_congr_of_findSome? (hrel : isRelative s = isRelative t)
    (hdirect : (directCandidates (targetOf current s)).findSome? index.get? =
      (directCandidates (targetOf current t)).findSome? index.get?)
    (hdirectory : (directoryCandidates (targetOf current s)).findSome? index.get? =
      (directoryCandidates (targetOf current t)).findSome? index.get?) :
    resolve index current s = resolve index current t := by
  simp only [resolve, hrel, hdirect, hdirectory]

variable (h : s.lower = t.lower)

include h

theorem isRelative_congr : isRelative s = isRelative t := by
  rw [← isRelative_lower s, h, isRelative_lower]

theorem lower_targetOf_congr (current : Text) :
    (targetOf current s).lower = (targetOf current t).lower :=
  lower_join_congr _ h

/-- Specifiers with one lower-case form are resolved alike if both targets end in a final sigma or
neither does. -/
theorem resolve_congr
    (hends : endsInSigma (targetOf current s) = endsInSigma (targetOf current t)) :
    resolve index current s = resolve index current t := by
  have htarget := lower_targetOf_congr h current
  have hsuffix (e : Extension) : index.get? (targetOf current s ++ e.suffix) =
      index.get? (targetOf current t ++ e.suffix) :=
    FileIndex.get?_congr (lower_append_congr htarget hends (settled_suffix e)
      (startsCased_suffix e))
  refine resolve_congr_of_findSome? (isRelative_congr h) ?_
    (findSome?_directoryCandidates_congr htarget)
  simp only [directCandidates, List.findSome?_cons, List.findSome?_map, Function.comp_def, hsuffix,
    FileIndex.get?_congr htarget]

/-- If one of two targets ends in a final sigma and the other does not, no path that the one makes
with an extension has the lower-case form of one that the other makes. -/
theorem lower_append_suffix_ne (hends : endsInSigma s ≠ endsInSigma t) (e f : Extension) :
    (s ++ e.suffix).lower ≠ (t ++ f.suffix).lower := by
  cases hs : endsInSigma s with
  | true =>
    have ht : endsInSigma t = false := by simpa [hs] using hends.symm
    exact lower_append_ne h hs ht (settled_suffix e) (settled_suffix f) (startsCased_suffix e)
  | false =>
    have ht : endsInSigma t = true := by simpa [hs] using hends.symm
    exact (lower_append_ne h.symm ht hs (settled_suffix f) (settled_suffix e)
      (startsCased_suffix f)).symm

/-- Specifiers that are resolved alike, though their targets do not agree on the final sigma, find
nothing with an extension. -/
theorem get?_suffix_eq_none (hrel : isRelative s = true)
    (hnone : index.get? (targetOf current s) = none)
    (hends : endsInSigma (targetOf current s) ≠ endsInSigma (targetOf current t))
    (heq : resolve index current s = resolve index current t) (e : Extension) :
    index.get? (targetOf current s ++ e.suffix) = none := by
  by_contra hsome
  obtain ⟨entry, hentry⟩ := Option.ne_none_iff_exists'.1 hsome
  have htarget := lower_targetOf_congr h current
  obtain ⟨found, hs⟩ := exists_resolve_direct_of_suffix hrel hentry
  obtain ⟨f, hf⟩ := exists_suffix_of_resolve_direct hnone hs
  rw [FileIndex.get?_congr htarget] at hnone
  obtain ⟨g, hg⟩ := exists_suffix_of_resolve_direct hnone (heq ▸ hs)
  -- the key of that entry would be the lower-case form of both paths
  have hkey := (FileIndex.mem_of_find?_eq_some hf).2.symm.trans
    (FileIndex.mem_of_find?_eq_some hg).2
  exact lower_append_suffix_ne htarget hends f g hkey

/-- Two specifiers with one lower-case form are resolved alike, except in one case, where they are
not: only one of the two paths that they lead to ends in a final sigma, there is no file of that
path itself, and an extension behind one of the two makes the path of a file. -/
theorem resolve_eq_iff_of_lower_eq (index : FileIndex) (current : Text) :
    resolve index current s = resolve index current t ↔
      (isRelative s = true → index.get? (targetOf current s) = none →
        endsInSigma (targetOf current s) ≠ endsInSigma (targetOf current t) →
        ∀ e : Extension, index.get? (targetOf current s ++ e.suffix) = none ∧
          index.get? (targetOf current t ++ e.suffix) = none) := by
  have htarget := lower_targetOf_congr h current
  have hrel := isRelative_congr h
  constructor
  · intro heq hs hnone hends e
    refine ⟨get?_suffix_eq_none h hs hnone hends heq e, ?_⟩
    rw [hrel] at hs
    rw [FileIndex.get?_congr htarget] at hnone
    exact get?_suffix_eq_none h.symm hs hnone hends.symm heq.symm e
  · intro hno
    by_cases hends : endsInSigma (targetOf current s) = endsInSigma (targetOf current t)
    · exact resolve_congr h hends
    cases hs : isRelative s with
    | false => simp [resolve, hs, ← hrel]
    | true =>
      cases hget : index.get? (targetOf current s) with
      | some entry =>
        rw [resolve_of_get?_target hs hget,
          resolve_of_get?_target (hrel ▸ hs) (FileIndex.get?_congr htarget ▸ hget)]
      | none =>
        -- neither path is found directly
        have hnone := hno hs hget hends
        have hfind := findSome?_directCandidates_eq_none_iff.2 ⟨hget, fun e => (hnone e).1⟩
        rw [FileIndex.get?_congr htarget] at hget
        have hfind' := findSome?_directCandidates_eq_none_iff.2 ⟨hget, fun e => (hnone e).2⟩
        exact resolve_congr_of_findSome? hrel (hfind.trans hfind'.symm)
          (findSome?_directoryCandidates_congr htarget)

end

set_option maxRecDepth 20000 in
/-- A small letter in front of a capital sigma makes no difference. -/
theorem resolve_capital_sigma_congr :
    lower "./ΟΔΟΣ".toList = lower "./οδοΣ".toList ∧
      resolve (FileIndex.ofPaths ["ΟΔΟΣ.js".toList]) "App.tsx".toList "./ΟΔΟΣ".toList =
        resolve (FileIndex.ofPaths ["ΟΔΟΣ.js".toList]) "App.tsx".toList "./οδοΣ".toList := by
  have hlower : lower "./ΟΔΟΣ".toList = lower "./οδοΣ".toList := by decide
  refine ⟨hlower, (resolve_eq_iff_of_lower_eq hlower _ _).2 fun _ _ hends => absurd ?_ hends⟩
  decide

set_option maxRecDepth 20000 in
/-- A final sigma finds no file whose name has a capital sigma in front of its extension, though the
same specifier in capital letters does. -/
theorem resolve_final_sigma_not_found :
    (FileIndex.ofPaths ["ΟΔΟΣ.js".toList]).Regular ∧ Path.Clean "App.tsx".toList ∧
      lower "./ΟΔΟΣ".toList = lower "./οδος".toList ∧
      resolve (FileIndex.ofPaths ["ΟΔΟΣ.js".toList]) "App.tsx".toList "./ΟΔΟΣ".toList =
        .found ⟨FileEntry.ofPath "ΟΔΟΣ.js".toList, .direct⟩ ∧
      resolve (FileIndex.ofPaths ["ΟΔΟΣ.js".toList]) "App.tsx".toList "./οδος".toList =
        .notFound :=
  ⟨FileIndex.regular_ofPaths (by decide), by decide, by decide, by decide,
    by decide⟩

end TrueCase

import TrueCase.Proofs.FileIndex
import TrueCase.Proofs.Import.Candidates

/-!
# The search for a file

A specifier names the first file that one of nine candidates finds. The candidates of one target
differ even without regard to case, so the file that is found says which of them has found it.

## Main statements

* `resolve_eq_found_iff`: a resolution in terms of the two lists of candidates.
* `exists_resolve_iff`: the file that is found is that of the first candidate that finds one.
* `entry_eq_iff`: when a file whose path is a candidate is the one that is found.
* `findSome?_candidates_congr`: without a capital sigma the case of a target does not matter.
* `findSome?_directoryCandidates_congr`: the case of a directory does not matter to its index file.
-/

namespace TrueCase

open Extension

/-! ## What is found -/

section

variable {index : FileIndex} {current specifier : Text} {r : Resolution}

theorem resolve_eq_found_iff : resolve index current specifier = .found r ↔
    isRelative specifier = true ∧
      (r.kind = .direct ∧
          (directCandidates (targetOf current specifier)).findSome? index.get? = some r.entry ∨
        r.kind = .directoryIndex ∧
          (directCandidates (targetOf current specifier)).findSome? index.get? = none ∧
          (directoryCandidates (targetOf current specifier)).findSome? index.get? =
            some r.entry) := by
  obtain ⟨entry, kind⟩ := r
  unfold resolve
  by_cases hrel : isRelative specifier = true
  · rw [if_pos hrel]
    dsimp only
    cases (directCandidates (targetOf current specifier)).findSome? index.get? with
    | some e => cases kind <;> simp [hrel]
    | none =>
      cases (directoryCandidates (targetOf current specifier)).findSome? index.get? with
      | some e => cases kind <;> simp [hrel]
      | none => simp
  · simp [hrel]

/-- A relative specifier is missing when no candidate finds a file. -/
theorem resolve_eq_notFound_iff (hrel : isRelative specifier = true) :
    resolve index current specifier = .notFound ↔
      (directCandidates (targetOf current specifier)).findSome? index.get? = none ∧
        (directoryCandidates (targetOf current specifier)).findSome? index.get? = none := by
  rw [resolve, if_pos hrel]
  dsimp only
  cases (directCandidates (targetOf current specifier)).findSome? index.get? with
  | some e => simp
  | none =>
    cases (directoryCandidates (targetOf current specifier)).findSome? index.get? with
    | some e => simp
    | none => simp

/-- The file that is found is that of the first candidate that finds one. -/
theorem exists_resolve_iff {entry : FileEntry} :
    (∃ kind, resolve index current specifier = .found ⟨entry, kind⟩) ↔
      isRelative specifier = true ∧
        (candidates (targetOf current specifier)).findSome? index.get? = some entry := by
  simp only [resolve_eq_found_iff, candidates, List.findSome?_append]
  constructor
  · rintro ⟨kind, hrel, ⟨-, h⟩ | ⟨-, h₀, h⟩⟩
    · exact ⟨hrel, by rw [h, Option.some_or]⟩
    · exact ⟨hrel, by rw [h₀, Option.none_or, h]⟩
  · rintro ⟨hrel, h⟩
    cases hd : (directCandidates (targetOf current specifier)).findSome? index.get? with
    | some e => exact ⟨.direct, hrel, Or.inl ⟨rfl, by simpa [hd] using h⟩⟩
    | none => exact ⟨.directoryIndex, hrel, Or.inr ⟨rfl, rfl, by simpa [hd] using h⟩⟩

/-- The candidate that finds the file, with those before it that find nothing. -/
theorem exists_candidate (h : resolve index current specifier = .found r) :
    ∃ before c after, candidates (targetOf current specifier) = before ++ c :: after ∧
      index.get? c = some r.entry ∧ ∀ b ∈ before, index.get? b = none :=
  List.findSome?_eq_some_iff.1 (exists_resolve_iff.1 ⟨r.kind, h⟩).2

/-- A specifier names some file as soon as one of its candidates finds one. -/
theorem exists_resolve_of_get? (hrel : isRelative specifier = true) {c : Text}
    (hc : c ∈ candidates (targetOf current specifier)) {entry : FileEntry}
    (hget : index.get? c = some entry) : ∃ r, resolve index current specifier = .found r := by
  cases hsome : (candidates (targetOf current specifier)).findSome? index.get? with
  | none =>
    rw [List.findSome?_eq_none_iff.1 hsome c hc] at hget
    cases hget
  | some found =>
    obtain ⟨kind, hkind⟩ := exists_resolve_iff.2 ⟨hrel, hsome⟩
    exact ⟨_, hkind⟩

/-- A file whose path is a candidate is the one that is found exactly when no candidate before that
one finds any. -/
theorem entry_eq_iff (hi : index.Normal) (h : resolve index current specifier = .found r)
    {entry : FileEntry} (he : entry ∈ index.entries)
    (hmem : entry.actualPath ∈ candidates (targetOf current specifier)) :
    r.entry = entry ↔
      ∀ c ∈ (candidates (targetOf current specifier)).takeWhile (· ≠ entry.actualPath),
        index.get? c = none := by
  have hentry := FileIndex.get?_actualPath hi he
  obtain ⟨before, c, after, hc, hget, hbefore⟩ := exists_candidate h
  have hnot : ∀ b ∈ before, b ≠ entry.actualPath := by
    rintro b hb rfl
    rw [hbefore _ hb] at hentry
    cases hentry
  have htake : (candidates (targetOf current specifier)).takeWhile (· ≠ entry.actualPath) =
      before ++ (c :: after).takeWhile (· ≠ entry.actualPath) := by
    rw [hc, List.takeWhile_append_of_pos (by simpa using hnot)]
  rw [htake]
  constructor
  · intro heq
    have hlower := ((FileIndex.get?_eq_some_iff hi).1 hget).2
    obtain rfl : entry.actualPath = c := eq_of_lower_eq hmem (hc ▸ by simp) (heq ▸ hlower)
    simpa using hbefore
  · intro hnone
    by_cases hce : c = entry.actualPath
    · rw [← hce, hget] at hentry
      exact Option.some.inj hentry
    · have := hnone c (by simp [hce])
      rw [hget] at this
      cases this

/-- What the target itself finds comes first. -/
theorem resolve_of_get?_target {entry : FileEntry} (hrel : isRelative specifier = true)
    (h : index.get? (targetOf current specifier) = some entry) :
    resolve index current specifier = .found ⟨entry, .direct⟩ :=
  resolve_eq_found_iff.2 ⟨hrel, Or.inl ⟨rfl, by simp [directCandidates, h]⟩⟩

/-- No file is named directly when there is none of the path itself or with an extension behind. -/
theorem findSome?_directCandidates_eq_none_iff {target : Text} :
    (directCandidates target).findSome? index.get? = none ↔
      index.get? target = none ∧ ∀ e : Extension, index.get? (target ++ e.suffix) = none := by
  rw [List.findSome?_eq_none_iff]
  constructor
  · intro h
    exact ⟨h _ List.mem_cons_self, fun e => h _ (mem_directCandidates.2 (Or.inr ⟨e, rfl⟩))⟩
  · rintro ⟨hself, hsuffix⟩ c hc
    rcases mem_directCandidates.1 hc with rfl | ⟨e, rfl⟩
    · exact hself
    · exact hsuffix e

/-- A file that a direct candidate finds keeps the index files from being tried. -/
theorem kind_eq_direct (h : resolve index current specifier = .found r) {c : Text}
    (hc : c ∈ directCandidates (targetOf current specifier)) {entry : FileEntry}
    (hget : index.get? c = some entry) : r.kind = .direct := by
  obtain ⟨-, ⟨hk, -⟩ | ⟨-, hnone, -⟩⟩ := resolve_eq_found_iff.1 h
  · exact hk
  · rw [List.findSome?_eq_none_iff.1 hnone c hc] at hget
    cases hget

/-- A file that is named by its directory has the lower-case form of an index file. -/
theorem exists_indexFile (hi : index.Normal) (h : resolve index current specifier = .found r)
    (hk : r.kind = .directoryIndex) :
    ∃ e, r.entry.actualPath.lower = (indexFile (targetOf current specifier) e).lower := by
  obtain ⟨-, ⟨hk', -⟩ | ⟨-, -, hsome⟩⟩ := resolve_eq_found_iff.1 h
  · cases hk.symm.trans hk'
  · obtain ⟨c, hc, hget⟩ := List.exists_of_findSome?_eq_some hsome
    obtain ⟨e, rfl⟩ := mem_directoryCandidates.1 hc
    exact ⟨e, ((FileIndex.get?_eq_some_iff hi).1 hget).2⟩

/-- The file that is found is in the index. -/
theorem mem_entries_of_resolve (h : resolve index current specifier = .found r) :
    r.entry ∈ index.entries := by
  obtain ⟨before, c, after, -, hget, -⟩ := exists_candidate h
  exact (FileIndex.mem_of_find?_eq_some hget).1

/-- Without a capital sigma, targets with the same lower-case form find the same file. -/
theorem findSome?_candidates_congr {s t : Text} (hs : 'Σ' ∉ s) (ht : 'Σ' ∉ t)
    (h : s.lower = t.lower) :
    (candidates s).findSome? index.get? = (candidates t).findSome? index.get? := by
  have hfind (u : Text) (hu : 'Σ' ∉ u) :
      (candidates u).findSome? index.get? = (candidates u.lower).findSome? index.find? := by
    rw [← map_lower_candidates hu, List.findSome?_map]
    rfl
  rw [hfind s hs, hfind t ht, h]

/-- Directories with the same lower-case form have the same index file. -/
theorem findSome?_directoryCandidates_congr {s t : Text} (h : s.lower = t.lower) :
    (directoryCandidates s).findSome? index.get? =
      (directoryCandidates t).findSome? index.get? := by
  have hsame (e : Extension) : index.get? (indexFile s e) = index.get? (indexFile t e) :=
    FileIndex.get?_congr (by rw [lower_indexFile, lower_indexFile, h])
  simp only [directoryCandidates_eq, List.findSome?_map, Function.comp_def, hsame]

theorem isRelative_of_marked (h : ['.', '/'] <+: specifier ∨ ['.', '.', '/'] <+: specifier) :
    isRelative specifier = true := by
  rcases h with ⟨t, rfl⟩ | ⟨t, rfl⟩ <;> simp [isRelative]

end

end TrueCase

import TrueCase.Proofs.Import.Resolution

/-!
# A new file in an index

An entry that is put into an index takes the place of the one with its key, or is added to the
others. Either way it changes no search among paths unless the search ends at the new entry. So a
specifier leads where it did before, or to the new file.

## Main statements

* `FileIndex.findSome?_get?_insert`: a search after an insertion.
* `FileIndex.findSome?_get?_insert_eq_some_iff`: when a search ends at the new entry.
* `resolve_insert`: a specifier before and after an insertion.
-/

namespace TrueCase

namespace FileIndex

variable {index : FileIndex} {entry : FileEntry}

/-- A search among paths finds what it found before, or the new entry. -/
theorem findSome?_get?_insert (index : FileIndex) (entry : FileEntry) (paths : List Text) :
    paths.findSome? (index.insert entry).get? = paths.findSome? index.get? ∨
      paths.findSome? (index.insert entry).get? = some entry := by
  induction paths with
  | nil => exact Or.inl rfl
  | cons path paths ih =>
    rw [List.findSome?_cons, List.findSome?_cons, get?_insert]
    by_cases hkey : entry.key = path.lower
    · -- the new entry stands where the search looks, over whatever has been there
      rw [if_pos hkey]
      exact Or.inr rfl
    · rw [if_neg hkey]
      cases index.get? path with
      | some found => exact Or.inl rfl
      | none => exact ih

theorem findSome?_eq_none_of_insert {paths : List Text}
    (h : paths.findSome? (index.insert entry).get? = none) :
    paths.findSome? index.get? = none := by
  rcases findSome?_get?_insert index entry paths with hsame | hnew
  · rw [← hsame, h]
  · rw [h] at hnew
    cases hnew

/-- A search ends at the new entry if it comes to its key before it has found anything. -/
theorem findSome?_get?_insert_eq_some_iff {paths : List Text} :
    paths.findSome? (index.insert entry).get? = some entry ↔
      ∃ earlier path later, paths = earlier ++ path :: later ∧ entry.key = path.lower ∧
        ∀ p ∈ earlier, index.get? p = none := by
  constructor
  · intro h
    obtain ⟨earlier, path, later, hpaths, hfound, hearlier⟩ := List.findSome?_eq_some_iff.1 h
    refine ⟨earlier, path, later, hpaths, (mem_of_find?_eq_some hfound).2, ?_⟩
    exact List.findSome?_eq_none_iff.1
      (findSome?_eq_none_of_insert (List.findSome?_eq_none_iff.2 hearlier))
  · rintro ⟨earlier, path, later, rfl, hkey, hearlier⟩
    have hpath : (path :: later).findSome? (index.insert entry).get? = some entry := by
      rw [List.findSome?_cons, get?_insert, if_pos hkey]
    rw [List.findSome?_append, hpath]
    rcases findSome?_get?_insert index entry earlier with hsame | hnew
    · rw [hsame, List.findSome?_eq_none_iff.2 hearlier, Option.none_or]
    · rw [hnew, Option.some_or]

end FileIndex

section

variable {index : FileIndex} {entry : FileEntry} {current specifier : Text}

/-- The new file, found by its own path or as the index file of a directory, or what was found
before. -/
theorem resolve_insert_cases (index : FileIndex) (entry : FileEntry) (current specifier : Text) :
    resolve (index.insert entry) current specifier = resolve index current specifier ∨
      ∃ kind, resolve (index.insert entry) current specifier = .found ⟨entry, kind⟩ := by
  unfold resolve
  split
  · dsimp only
    rcases FileIndex.findSome?_get?_insert index entry
        (directCandidates (targetOf current specifier)) with hsame | hnew
    · rw [hsame]
      cases (directCandidates (targetOf current specifier)).findSome? index.get? with
      | some found => exact Or.inl rfl
      | none =>
        rcases FileIndex.findSome?_get?_insert index entry
            (directoryCandidates (targetOf current specifier)) with hsame | hnew
        · rw [hsame]
          exact Or.inl rfl
        · rw [hnew]
          exact Or.inr ⟨.directoryIndex, rfl⟩
    · rw [hnew]
      exact Or.inr ⟨.direct, rfl⟩
  · exact Or.inl rfl

/-- A specifier before and after an entry is put into the index. What comes of it is the same, or it
names the new entry; a file is found if one was found before. It names the new entry exactly when
it is relative and one of its candidates has the key of the entry, with none before that finds
anything. -/
theorem resolve_insert (index : FileIndex) (entry : FileEntry) (current specifier : Text) :
    (resolve (index.insert entry) current specifier = resolve index current specifier ∨
      ∃ kind, resolve (index.insert entry) current specifier = .found ⟨entry, kind⟩) ∧
    (∀ r, resolve index current specifier = .found r →
      ∃ r', resolve (index.insert entry) current specifier = .found r' ∧
        (r' = r ∨ r'.entry = entry)) ∧
    ((∃ kind, resolve (index.insert entry) current specifier = .found ⟨entry, kind⟩) ↔
      isRelative specifier = true ∧ ∃ earlier c later,
        candidates (targetOf current specifier) = earlier ++ c :: later ∧ entry.key = c.lower ∧
          ∀ b ∈ earlier, index.get? b = none) := by
  have hcases := resolve_insert_cases index entry current specifier
  refine ⟨hcases, ?_, ?_⟩
  · intro r hr
    rcases hcases with hsame | ⟨kind, hnew⟩
    · exact ⟨r, hsame.trans hr, Or.inl rfl⟩
    · exact ⟨_, hnew, Or.inr rfl⟩
  · rw [exists_resolve_iff, FileIndex.findSome?_get?_insert_eq_some_iff]

end

end TrueCase

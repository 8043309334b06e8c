import Mathlib.Data.List.Induction
import TrueCase.Import.Fix
import TrueCase.Proofs.FileIndex

/-!
# Indexes of the same files

The order in which files are put into an index leaves no trace in what is found there, as long as no
two of them have the same key. So a source is fixed in the same way with each of these indexes.

## Main statements

* `FileIndex.entries_ofList`: files with different keys are all kept.
* `FileIndex.find?_eq_of_perm`: indexes of the same files find the same.
* `fixSource_get?_congr`: what is found decides how a source is fixed.
-/

namespace TrueCase

namespace FileIndex

/-- Of entries with different keys none gives way to another. -/
theorem entries_ofList {entries : List FileEntry} (h : (entries.map (·.key)).Nodup) :
    (ofList entries).entries = entries.reverse := by
  induction entries using List.reverseRecOn with
  | nil => rfl
  | append_singleton entries entry ih =>
    rw [List.map_append, List.nodup_append] at h
    obtain ⟨hentries, -, hne⟩ := h
    have hinsert : (ofList (entries ++ [entry])).entries =
        entry :: (ofList entries).entries.filter (·.key ≠ entry.key) := by
      rw [ofList_concat, insert]
    have hkeep : entries.reverse.filter (·.key ≠ entry.key) = entries.reverse := by
      refine List.filter_eq_self.2 fun e he => ?_
      have hkey := hne e.key (List.mem_map_of_mem (List.mem_reverse.1 he)) entry.key (by simp)
      simpa using hkey
    rw [hinsert, ih hentries, hkeep, List.reverse_append]
    rfl

theorem find?_eq_some_iff {index : FileIndex} {key : Text} {entry : FileEntry} :
    index.find? key = some entry ↔ entry ∈ index.entries ∧ entry.key = key := by
  constructor
  · exact mem_of_find?_eq_some
  · rintro ⟨hmem, rfl⟩
    exact find?_key hmem

variable {index index' : FileIndex}

/-- Indexes of the same files find the same. -/
theorem find?_eq_of_perm (h : index.entries.Perm index'.entries) (key : Text) :
    index.find? key = index'.find? key := by
  refine Option.ext fun entry => ?_
  rw [find?_eq_some_iff, find?_eq_some_iff, h.mem_iff]

theorem get?_eq_of_perm (h : index.entries.Perm index'.entries) : index.get? = index'.get? :=
  funext fun path => find?_eq_of_perm h path.lower

end FileIndex

variable {index index' : FileIndex} (h : index.get? = index'.get?)

include h

theorem resolve_get?_congr : resolve index = resolve index' := by
  funext current specifier
  rw [resolve, resolve, h]

theorem leadsTo_get?_congr : leadsTo index = leadsTo index' := by
  funext current specifier key
  rw [leadsTo, leadsTo, resolve_get?_congr h]

theorem canonicalSpecifier_get?_congr : canonicalSpecifier index = canonicalSpecifier index' := by
  funext current resolution
  rw [canonicalSpecifier, canonicalSpecifier, leadsTo_get?_congr h]

theorem judge_get?_congr : judge index = judge index' := by
  funext current specifier
  rw [judge, judge, resolve_get?_congr h, canonicalSpecifier_get?_congr h]

/-- How a source is fixed is decided by what is found in the index. -/
theorem fixSource_get?_congr : fixSource index = fixSource index' := by
  have hfixed : fixedSpecifier index = fixedSpecifier index' := by
    funext current specifier
    rw [fixedSpecifier, fixedSpecifier, judge_get?_congr h]
  funext current source
  rw [fixSource, fixSource, hfixed, judge_get?_congr h]

end TrueCase

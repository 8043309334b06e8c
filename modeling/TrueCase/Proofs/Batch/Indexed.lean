import Mathlib.Data.Finset.Card
import TrueCase.Proofs.Batch.Run

/-!
# The index of a walk

The files that a walk collects are put into the index one after the other. Of files whose relative
paths differ in nothing but case, the last one is kept. No other file is lost, so a path finds a file
whenever one has been collected that it names without regard to case.

## Main statements

* `FileIndex.size_ofList`: an index has one entry for each key.
* `get?_indexBelow`: the last file of a key is found.
* `exists_indexOf_of_collect`: what is in the index of the files that a walk collects.
-/

namespace TrueCase

namespace FileIndex

theorem isSome_find?_iff {index : FileIndex} {key : Text} :
    (index.find? key).isSome = true ↔ key ∈ index.entries.map (·.key) := by
  simp [find?, List.find?_isSome]

/-- An index has as many entries as there are different keys among those that were put into it. -/
theorem size_ofList (entries : List FileEntry) :
    (ofList entries).size = (entries.map (·.key)).toFinset.card := by
  have hkeys : ((ofList entries).entries.map (·.key)).toFinset =
      (entries.map (·.key)).toFinset := by
    ext key
    rw [List.mem_toFinset, List.mem_toFinset, ← isSome_find?_iff, find?_ofList]
    simp [List.find?_isSome]
  calc (ofList entries).size
      = ((ofList entries).entries.map (·.key)).length := by rw [size, List.length_map]
    _ = ((ofList entries).entries.map (·.key)).toFinset.card :=
      (List.toFinset_card_of_nodup (ofList entries).nodup_keys).symm
    _ = (entries.map (·.key)).toFinset.card := by rw [hkeys]

end FileIndex

section

variable {root : RawPath} {paths : List RawPath}

/-- A path finds the last of the files that have its lower-case form. -/
theorem get?_indexBelow (root : RawPath) (paths : List RawPath) (q : Text) :
    (indexBelow root paths).get? q =
      (paths.reverse.find? fun path => (nameBelow root path).lower = q.lower).map
        (entryBelow root) := by
  rw [indexBelow, FileIndex.get?, FileIndex.find?_ofList, ← List.map_reverse, List.find?_map]
  rfl

theorem exists_get?_indexBelow_iff {q : Text} :
    (∃ entry, (indexBelow root paths).get? q = some entry) ↔
      ∃ path ∈ paths, (nameBelow root path).lower = q.lower := by
  rw [← Option.isSome_iff_exists, get?_indexBelow, Option.isSome_map, List.find?_isSome]
  simp

/-- The file that is found, with those behind it, none of which has its key. -/
theorem exists_last_of_get?_indexBelow {q : Text} {entry : FileEntry}
    (h : (indexBelow root paths).get? q = some entry) :
    ∃ earlier path later, paths = earlier ++ path :: later ∧ entry = entryBelow root path ∧
      (nameBelow root path).lower = q.lower ∧
      ∀ other ∈ later, (nameBelow root other).lower ≠ q.lower := by
  rw [get?_indexBelow] at h
  obtain ⟨path, hfind, rfl⟩ := Option.map_eq_some_iff.1 h
  obtain ⟨hkey, later, earlier, hrev, hlater⟩ := List.find?_eq_some_iff_append.1 hfind
  refine ⟨earlier.reverse, path, later.reverse, ?_, rfl, by simpa using hkey, ?_⟩
  · have hpaths := congrArg List.reverse hrev
    simpa using hpaths
  · intro other hother
    simpa using hlater other (List.mem_reverse.1 hother)

theorem size_indexBelow (root : RawPath) (paths : List RawPath) : (indexBelow root paths).size =
    (paths.map fun path => (nameBelow root path).lower).toFinset.card := by
  rw [indexBelow, FileIndex.size_ofList, List.map_map]
  rfl

/-- No file is lost exactly when no two have one key. -/
theorem size_indexBelow_eq_iff : (indexBelow root paths).size = paths.length ↔
    paths.Pairwise fun p q => (nameBelow root p).lower ≠ (nameBelow root q).lower := by
  have hcard (keys : List Text) : keys.toFinset.card = keys.length ↔ keys.Nodup :=
    Multiset.toFinset_card_eq_card_iff_nodup (m := (keys : Multiset Text))
  rw [size_indexBelow, ← List.pairwise_map, ← List.Nodup, ← hcard, List.length_map]

/-- What is in the index of the files that a walk collects. There is such an index, as each of the
files has a path relative to the root. A path finds a file exactly when one has been collected whose
relative path has the same lower-case form. The entry is then that of the last such file: all that it
says comes from there. There are as many entries as different keys, which are as many as files exactly
when no two of these have one key. -/
theorem exists_indexOf_of_collect {top : Node} {filter : Filter}
    (hcollect : top.collect filter root = .ok paths) :
    ∃ index, indexOf root paths = .ok index ∧
      (∀ path ∈ paths, relativePath root path = .ok (nameBelow root path)) ∧
      (∀ q, (∃ entry, index.get? q = some entry) ↔
        ∃ path ∈ paths, (nameBelow root path).lower = q.lower) ∧
      (∀ q entry, index.get? q = some entry → ∃ earlier path later,
        paths = earlier ++ path :: later ∧
        relativePath root path = .ok entry.actualPath ∧ entry.fullPath = path ∧
        entry.key = entry.actualPath.lower ∧ entry.key = q.lower ∧
        ∀ other ∈ later, (nameBelow root other).lower ≠ q.lower) ∧
      index.size = (paths.map fun path => (nameBelow root path).lower).toFinset.card ∧
      (index.size = paths.length ↔
        paths.Pairwise fun p q => (nameBelow root p).lower ≠ (nameBelow root q).lower) := by
  have hname := Node.exists_relativeTo?_of_mem_collect hcollect
  have hrelative : ∀ path ∈ paths, relativePath root path = .ok (nameBelow root path) := by
    intro path hpath
    obtain ⟨name, hrel⟩ := hname path hpath
    exact relativePath_eq hrel
  refine ⟨indexBelow root paths, indexOf_eq hname, hrelative,
    fun q => exists_get?_indexBelow_iff, ?_, size_indexBelow root paths, size_indexBelow_eq_iff⟩
  intro q entry hget
  obtain ⟨earlier, path, later, hpaths, rfl, hkey, hlater⟩ := exists_last_of_get?_indexBelow hget
  have hpath : path ∈ paths := by
    rw [hpaths]
    exact List.mem_append_right earlier List.mem_cons_self
  exact ⟨earlier, path, later, hpaths, hrelative path hpath, rfl, rfl, hkey, hlater⟩

end

/-- A tree with two files whose names differ in case only. -/
def collidingButtons : Node :=
  .directory [(RawPath.ofText "Button.ts".toList, .file []),
    (RawPath.ofText "button.ts".toList, .file [])]

/-- The paths of the two files. -/
def collidingPaths : List RawPath :=
  [RawPath.ofText "./Button.ts".toList, RawPath.ofText "./button.ts".toList]

theorem collect_collidingButtons :
    collidingButtons.collect .empty (RawPath.ofText ['.']) = .ok collidingPaths := by
  decide +kernel

theorem keys_collidingPaths :
    collidingPaths.map (fun path => (nameBelow (RawPath.ofText ['.']) path).lower) =
      ["button.ts".toList, "button.ts".toList] := by
  decide +kernel

/-- Of the two buttons the one that is listed last is found, by any spelling of its name, and the
index has one entry less than there are files. -/
theorem exists_indexOf_collidingButtons : ∃ index entry,
    collidingButtons.collect .empty (RawPath.ofText ['.']) = .ok collidingPaths ∧
      indexOf (RawPath.ofText ['.']) collidingPaths = .ok index ∧ index.size = 1 ∧
      index.get? "BUTTON.TS".toList = some entry ∧
      entry.fullPath = RawPath.ofText "./button.ts".toList := by
  obtain ⟨index, hindex, -, hfound, hlast, hsize, -⟩ :=
    exists_indexOf_of_collect collect_collidingButtons
  have hsecond : (nameBelow (RawPath.ofText ['.']) (RawPath.ofText "./button.ts".toList)).lower =
      Text.lower "BUTTON.TS".toList := by
    decide +kernel
  obtain ⟨entry, hentry⟩ := (hfound "BUTTON.TS".toList).2
    ⟨RawPath.ofText "./button.ts".toList, List.mem_of_getLast? rfl, hsecond⟩
  refine ⟨index, entry, collect_collidingButtons, hindex, ?_, hentry, ?_⟩
  · rw [hsize, keys_collidingPaths]
    decide
  · obtain ⟨earlier, path, later, hpaths, -, hfull, -, -, hlater⟩ := hlast _ _ hentry
    cases earlier with
    | nil =>
      -- behind the first file there is another one with its key
      obtain ⟨-, rfl⟩ := List.cons.inj hpaths
      exact absurd hsecond (hlater _ List.mem_cons_self)
    | cons first earlier =>
      have hrest := (List.cons.inj hpaths).2
      cases earlier with
      | nil => rw [hfull, ← (List.cons.inj hrest).1]
      | cons second earlier => simp at hrest

end TrueCase

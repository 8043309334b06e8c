import TrueCase.Proofs.Import.Resolution

/-!
# Directories

A specifier that ends in a slash or in dots is followed before anything is looked up, and nothing of
its ending is left in the path that it leads to. So it finds what any other specifier that leads
there finds: a file beside the directory that has its name comes before the index file inside.

## Main definitions

* `First`: the first of some names that is there.
* `FileIndex.HasPath`, `FileIndex.HasIndexFile`: what is in an index, whatever its case.

## Main statements

* `findSome?_eq_some_iff_first`: a search finds the first that is there.
* `resolve_iff_first`: what a specifier finds beside a directory and inside.
-/

namespace TrueCase

open TrueCase.Path

/-- The entry is there under the first of the names under which any entry is. -/
inductive First {α : Type} (There : α → FileEntry → Prop) : List α → FileEntry → Prop where
  | here {name : α} {names : List α} {entry : FileEntry} (there : There name entry) :
      First There (name :: names) entry
  | later {name : α} {names : List α} {entry : FileEntry} (absent : ∀ other, ¬ There name other)
      (more : First There names entry) : First There (name :: names) entry

section

variable {α : Type} {There : α → FileEntry → Prop} {names : List α} {find : α → Option FileEntry}

theorem findSome?_eq_some_iff_first
    (hfind : ∀ name entry, find name = some entry ↔ There name entry) {entry : FileEntry} :
    names.findSome? find = some entry ↔ First There names entry := by
  induction names with
  | nil =>
    constructor
    · intro h
      cases h
    · intro h
      cases h
  | cons name names ih =>
    rw [List.findSome?_cons]
    cases hname : find name with
    | some found =>
      have hthere := (hfind name found).1 hname
      constructor
      · rintro ⟨⟩
        exact .here hthere
      · intro h
        cases h with
        | here there => rw [← hname, (hfind name entry).2 there]
        | later absent => exact absurd hthere (absent found)
    | none =>
      have habsent (other : FileEntry) : ¬ There name other := by
        rw [← hfind, hname]
        simp
      rw [ih]
      constructor
      · exact .later habsent
      · intro h
        cases h with
        | here there => exact absurd there (habsent entry)
        | later _ more => exact more

theorem findSome?_eq_none_iff_first
    (hfind : ∀ name entry, find name = some entry ↔ There name entry) :
    names.findSome? find = none ↔ ∀ entry, ¬ First There names entry := by
  simp only [Option.eq_none_iff_forall_ne_some, ne_eq, findSome?_eq_some_iff_first hfind]

end

namespace FileIndex

/-- The entry has the given path, whatever the case of its letters. -/
def HasPath (index : FileIndex) (path : Text) (entry : FileEntry) : Prop :=
  entry ∈ index.entries ∧ entry.actualPath.lower = path.lower

/-- The entry lies in the given directory and is an index file with the given extension, whatever
the case of its letters. -/
def HasIndexFile (index : FileIndex) (dir : Text) (e : Extension) (entry : FileEntry) : Prop :=
  entry ∈ index.entries ∧ (parent entry.actualPath).lower = dir.lower ∧
    (fileName entry.actualPath).lower = indexName e

theorem get?_indexFile_eq_some_iff {index : FileIndex} (hi : index.Regular) {dir : Text}
    {e : Extension} {entry : FileEntry} :
    index.get? (indexFile dir e) = some entry ↔ index.HasIndexFile dir e entry := by
  rw [get?_eq_some_iff hi.toNormal, HasIndexFile]
  exact and_congr_right fun he => lower_eq_indexFile_iff (hi entry he).clean

end FileIndex

/-- A relative specifier, also one that ends in a slash or in dots, names a file directly if there is
one that has the path it leads to, without or with an extension; the first of these counts. Only if
there is none it names the first of the index files in that directory, and if there is none of these
either, it is missing. -/
theorem resolve_iff_first {index : FileIndex} (hi : index.Regular) {specifier : Text}
    (hrel : isRelative specifier = true) (current : Text) (entry : FileEntry) :
    let dir := targetOf current specifier
    let beside := First index.HasPath (dir :: Extension.all.map (dir ++ ·.suffix))
    let inside := First (index.HasIndexFile dir) Extension.all
    (resolve index current specifier = .found ⟨entry, .direct⟩ ↔ beside entry) ∧
      (resolve index current specifier = .found ⟨entry, .directoryIndex⟩ ↔
        (∀ other, ¬ beside other) ∧ inside entry) ∧
      (resolve index current specifier = .notFound ↔
        (∀ other, ¬ beside other) ∧ ∀ other, ¬ inside other) := by
  intro dir beside inside
  have hpath (path : Text) (found : FileEntry) :
      index.get? path = some found ↔ index.HasPath path found :=
    FileIndex.get?_eq_some_iff hi.toNormal
  have hindex (e : Extension) (found : FileEntry) :
      (index.get? ∘ indexFile dir) e = some found ↔ index.HasIndexFile dir e found :=
    FileIndex.get?_indexFile_eq_some_iff hi
  have hnoBeside : (directCandidates dir).findSome? index.get? = none ↔
      ∀ other, ¬ beside other :=
    findSome?_eq_none_iff_first hpath
  have hbeside : (directCandidates dir).findSome? index.get? = some entry ↔ beside entry :=
    findSome?_eq_some_iff_first hpath
  have hnoInside : (directoryCandidates dir).findSome? index.get? = none ↔
      ∀ other, ¬ inside other := by
    rw [directoryCandidates_eq, List.findSome?_map]
    exact findSome?_eq_none_iff_first hindex
  have hinside : (directoryCandidates dir).findSome? index.get? = some entry ↔ inside entry := by
    rw [directoryCandidates_eq, List.findSome?_map]
    exact findSome?_eq_some_iff_first hindex
  rw [← hnoBeside, ← hbeside, ← hnoInside, ← hinside]
  refine ⟨?_, ?_, ?_⟩
  · simp [resolve_eq_found_iff, hrel, dir]
  · simp [resolve_eq_found_iff, hrel, dir]
  · exact resolve_eq_notFound_iff hrel

/-- Nothing stands beside the importing directory, so its index file is found. -/
theorem resolve_dot_index :
    resolve (FileIndex.ofPaths ["hooks/index.js".toList, "hooks/useAuth.js".toList])
        "hooks/useAuth.js".toList ".".toList =
          .found ⟨FileEntry.ofPath "hooks/index.js".toList, .directoryIndex⟩ ∧
      First ((FileIndex.ofPaths ["hooks/index.js".toList, "hooks/useAuth.js".toList]).HasIndexFile
        (targetOf "hooks/useAuth.js".toList ".".toList)) Extension.all
          (FileEntry.ofPath "hooks/index.js".toList) := by
  have hres : resolve (FileIndex.ofPaths ["hooks/index.js".toList, "hooks/useAuth.js".toList])
      "hooks/useAuth.js".toList ".".toList =
        .found ⟨FileEntry.ofPath "hooks/index.js".toList, .directoryIndex⟩ := by decide
  have hi : (FileIndex.ofPaths ["hooks/index.js".toList, "hooks/useAuth.js".toList]).Regular :=
    FileIndex.regular_ofPaths (by decide)
  have hrel : isRelative ".".toList = true := by decide
  obtain ⟨-, hindex, -⟩ := resolve_iff_first hi hrel "hooks/useAuth.js".toList
    (FileEntry.ofPath "hooks/index.js".toList)
  exact ⟨hres, (hindex.1 hres).2⟩

/-- A file that has the name of the directory takes the place of the index file in it, though the
specifier ends in a slash. -/
theorem resolve_slash_beside :
    (FileIndex.ofPaths ["hooks.js".toList, "hooks/index.js".toList]).Regular ∧
      Clean "hooks/useAuth.js".toList ∧ isRelative "./".toList = true ∧
      (segments "./".toList).getLast? = some [] ∧
      resolve (FileIndex.ofPaths ["hooks.js".toList, "hooks/index.js".toList])
        "hooks/useAuth.js".toList "./".toList =
          .found ⟨FileEntry.ofPath "hooks.js".toList, .direct⟩ ∧
      (FileIndex.ofPaths ["hooks.js".toList, "hooks/index.js".toList]).HasIndexFile
        (targetOf "hooks/useAuth.js".toList "./".toList) .js
        (FileEntry.ofPath "hooks/index.js".toList) :=
  ⟨FileIndex.regular_ofPaths (by decide), by decide, by decide, by decide, by decide, by decide,
    by decide, by decide⟩

end TrueCase

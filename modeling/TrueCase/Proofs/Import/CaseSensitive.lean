import TrueCase.Import.Fix
import TrueCase.Proofs.Import.Canonical

/-!
# Resolving letter for letter

On a case-sensitive file system a specifier names the first of its candidates that is spelled as a
file is. Where the search without regard to case finds a file, the two agree exactly when the path
of that file is a candidate. This relates canonical specifiers to the files that they name there.

## Main definitions

* `FileIndex.spells`: whether a path is that of a file, letter for letter.
* `resolveExactly`: the path that a specifier names letter for letter.

## Main statements

* `resolveExactly_eq_some_iff`: when the two ways to resolve a specifier agree.
* `resolveExactly_canonicalSpecifier_iff`: which canonical specifiers name their file exactly.
* `resolve_of_resolveExactly`: what becomes of a specifier that names a file exactly.
-/

namespace TrueCase

open TrueCase.Path

/-- Whether the path is that of an indexed file, letter for letter. -/
def FileIndex.spells (index : FileIndex) (path : Text) : Bool :=
  index.entries.any (·.actualPath = path)

/-- The path that a specifier in the file `current` names on a case-sensitive file system. -/
def resolveExactly (index : FileIndex) (current specifier : Text) : Option Text :=
  (candidates (targetOf current specifier)).find? index.spells

variable {index : FileIndex} {current specifier : Text} {r : Resolution}

theorem FileIndex.spells_iff {path : Text} :
    index.spells path = true ↔ ∃ entry ∈ index.entries, entry.actualPath = path := by
  simp [FileIndex.spells]

/-- A file that is there letter for letter is found without regard to case. -/
theorem FileIndex.get?_of_spells (hi : index.Normal) {path : Text}
    (h : index.spells path = true) :
    ∃ entry, index.get? path = some entry ∧ entry.actualPath = path := by
  obtain ⟨entry, he, rfl⟩ := FileIndex.spells_iff.1 h
  exact ⟨entry, FileIndex.get?_actualPath hi he, rfl⟩

/-- Where a file is found without regard to case, it is found letter for letter exactly when its
path is a candidate. -/
theorem resolveExactly_eq_some_iff (hi : index.Normal)
    (h : resolve index current specifier = .found r) :
    resolveExactly index current specifier = some r.entry.actualPath ↔
      r.entry.actualPath ∈ candidates (targetOf current specifier) := by
  constructor
  · exact List.mem_of_find?_eq_some
  · intro hmem
    obtain ⟨before, c, after, hc, hget, hbefore⟩ := exists_candidate h
    have hlower := ((FileIndex.get?_eq_some_iff hi).1 hget).2
    obtain rfl := eq_of_lower_eq hmem (hc ▸ by simp) hlower
    refine List.find?_eq_some_iff_append.2 ⟨?_, before, after, hc, ?_⟩
    · exact FileIndex.spells_iff.2 ⟨r.entry, mem_entries_of_resolve h, rfl⟩
    · intro b hb
      by_contra hspells
      obtain ⟨entry, hentry, -⟩ := FileIndex.get?_of_spells hi (by simpa using hspells)
      rw [hbefore b hb] at hentry
      cases hentry

/-! ## Canonical specifiers -/

/-- An index file is a candidate of its directory exactly when its name is spelled in small
letters. -/
theorem mem_candidates_parent_iff {actual : Text} {e : Extension} (hp : Path.Normal actual)
    (hname : (fileName actual).lower = indexName e) :
    actual ∈ candidates (parent actual) ↔ ∃ f, fileName actual = indexName f := by
  constructor
  · intro h
    have := congrArg fileName (eq_indexFile_of_lower_eq hp hname h rfl)
    exact ⟨e, this.trans (fileName_indexFile _ e)⟩
  · rintro ⟨f, hf⟩
    have := eq_indexFile_of_fileName (clean_of_lower_fileName hp hname) hf
    exact List.mem_append_right _ (mem_directoryCandidates.2 ⟨f, this⟩)

/-- The canonical specifier of a file names it letter for letter as well, except where it is the
directory of an index file whose name is not spelled in small letters. -/
theorem mem_candidates_canonicalSpecifier_iff (hi : index.Normal) (hcur : Path.Normal current)
    (h : resolve index current specifier = .found r) :
    r.entry.actualPath ∈ candidates (targetOf current (canonicalSpecifier index current r)) ↔
      (r.kind = .directoryIndex →
        leadsTo index current (preferredSpecifier current r) r.entry.key = true →
        ∃ e, fileName r.entry.actualPath = indexName e) := by
  have hp := (hi r.entry (mem_entries_of_resolve h)).normal
  rcases canonicalSpecifier_cases index current r with ⟨hcan, hleads⟩ | ⟨hcan, hleads⟩
  · rw [hcan, hleads]
    cases hk : r.kind with
    | direct =>
      have hmem := actualPath_mem_directCandidates hi hcur (mem_entries_of_resolve h) hk hleads
      exact iff_of_true (List.mem_append_left _ hmem) (fun hd => by cases hd)
    | directoryIndex =>
      obtain ⟨e, he⟩ := exists_indexFile hi h hk
      rw [targetOf_preferred_directoryIndex hcur hk hp,
        mem_candidates_parent_iff hp (lower_eq_indexFile he).2]
      simp
  · rw [hcan, targetOf_explicit hcur hp, hleads]
    simp [candidates, directCandidates]

/-- What the canonical specifier of a file names letter for letter. -/
theorem resolveExactly_canonicalSpecifier (hi : index.Normal) (hcur : Path.Normal current)
    (h : resolve index current specifier = .found r) :
    resolveExactly index current (canonicalSpecifier index current r) =
        some r.entry.actualPath ↔
      (r.kind = .directoryIndex →
        leadsTo index current (preferredSpecifier current r) r.entry.key = true →
        ∃ e, fileName r.entry.actualPath = indexName e) := by
  obtain ⟨kind, hres⟩ := resolve_canonicalSpecifier hi hcur (mem_entries_of_resolve h)
  rw [← mem_candidates_canonicalSpecifier_iff hi hcur h]
  exact resolveExactly_eq_some_iff (r := ⟨r.entry, kind⟩) hi hres

/-- In a regular index the canonical specifier of a file names that very file on a case-sensitive
file system, except in one case, where it does not: the specifier is the directory of an index file,
and the name of the index file itself is not spelled in small letters. -/
theorem resolveExactly_canonicalSpecifier_iff (hi : index.Regular) (hcur : Clean current)
    (h : resolve index current specifier = .found r) :
    resolveExactly index current (canonicalSpecifier index current r) =
        some r.entry.actualPath ↔
      (r.kind = .directoryIndex →
        leadsTo index current (preferredSpecifier current r) r.entry.key = true →
        ∃ e, fileName r.entry.actualPath = indexName e) :=
  resolveExactly_canonicalSpecifier hi.toNormal hcur.normal h

/-- A file that needs its extension is named exactly by the path that keeps it. -/
theorem resolveExactly_canonicalSpecifier_button :
    resolve (FileIndex.ofPaths ["Button.jsx".toList, "Button.tsx".toList]) "App.tsx".toList
        "./button.TSX".toList = .found ⟨FileEntry.ofPath "Button.tsx".toList, .direct⟩ ∧
      resolveExactly (FileIndex.ofPaths ["Button.jsx".toList, "Button.tsx".toList])
        "App.tsx".toList (canonicalSpecifier
          (FileIndex.ofPaths ["Button.jsx".toList, "Button.tsx".toList]) "App.tsx".toList
          ⟨FileEntry.ofPath "Button.tsx".toList, .direct⟩) = some "Button.tsx".toList := by
  have hres : resolve (FileIndex.ofPaths ["Button.jsx".toList, "Button.tsx".toList])
      "App.tsx".toList "./button.TSX".toList =
        .found ⟨FileEntry.ofPath "Button.tsx".toList, .direct⟩ := by decide
  refine ⟨hres, (resolveExactly_canonicalSpecifier_iff
    (FileIndex.regular_ofPaths (by decide)) (by decide) hres).2 ?_⟩
  intro hk
  cases hk

/-- The directory of an index file that is spelled with a capital is canonical and names nothing
letter for letter. -/
theorem canonicalSpecifier_capital_index :
    (FileIndex.ofPaths ["utils/Index.ts".toList]).Regular ∧ Clean "App.tsx".toList ∧
      resolve (FileIndex.ofPaths ["utils/Index.ts".toList]) "App.tsx".toList "./utils".toList =
        .found ⟨FileEntry.ofPath "utils/Index.ts".toList, .directoryIndex⟩ ∧
      canonicalSpecifier (FileIndex.ofPaths ["utils/Index.ts".toList]) "App.tsx".toList
        ⟨FileEntry.ofPath "utils/Index.ts".toList, .directoryIndex⟩ = "./utils".toList ∧
      resolveExactly (FileIndex.ofPaths ["utils/Index.ts".toList]) "App.tsx".toList
        "./utils".toList = none :=
  ⟨FileIndex.regular_ofPaths (by decide), by decide, by decide, by decide, by decide⟩

/-! ## Specifiers that are right already -/

/-- A specifier that names a file is fixed to the canonical specifier of that file. -/
theorem fixedSpecifier_of_found (h : resolve index current specifier = .found r) :
    fixedSpecifier index current specifier = canonicalSpecifier index current r := by
  unfold fixedSpecifier judge
  rw [h]
  dsimp only
  split
  · next heq => exact heq.symm
  · rfl

/-- The file that is found is the one that is named letter for letter exactly when no candidate
before that one finds any. -/
theorem actualPath_eq_iff (hi : index.Normal) (h : resolve index current specifier = .found r)
    {actual : Text} (hexact : resolveExactly index current specifier = some actual) :
    r.entry.actualPath = actual ↔
      ∀ c ∈ (candidates (targetOf current specifier)).takeWhile (· ≠ actual),
        index.get? c = none := by
  have hmem := List.mem_of_find?_eq_some hexact
  obtain ⟨entry, he, rfl⟩ :=
    FileIndex.spells_iff.1 (List.find?_some (p := index.spells) hexact)
  have hr := mem_entries_of_resolve h
  rw [← entry_eq_iff hi h he hmem]
  refine ⟨fun heq => ?_, fun heq => heq ▸ rfl⟩
  exact FileIndex.eq_of_key_eq hr he (by rw [(hi r.entry hr).key_eq, (hi entry he).key_eq, heq])

/-- A specifier that names a file letter for letter names one without regard to case. It is the same
file exactly when no candidate that is tried before finds any file. In that case the specifier that
takes its place names the same file letter for letter. -/
theorem resolve_of_resolveExactly (hi : index.Regular) (hcur : Clean current)
    (hrel : isRelative specifier = true) {actual : Text}
    (h : resolveExactly index current specifier = some actual) :
    ∃ r, resolve index current specifier = .found r ∧
      (r.entry.actualPath = actual ↔
        ∀ c ∈ (candidates (targetOf current specifier)).takeWhile (· ≠ actual),
          index.get? c = none) ∧
      (r.entry.actualPath = actual →
        resolveExactly index current (fixedSpecifier index current specifier) = some actual) := by
  have hi := hi.toNormal
  have hmem := List.mem_of_find?_eq_some h
  obtain ⟨r, hr⟩ : ∃ r, resolve index current specifier = .found r := by
    obtain ⟨entry, hentry, -⟩ :=
      FileIndex.get?_of_spells hi (List.find?_some (p := index.spells) h)
    cases hsome : (candidates (targetOf current specifier)).findSome? index.get? with
    | none =>
      rw [List.findSome?_eq_none_iff.1 hsome actual hmem] at hentry
      cases hentry
    | some found =>
      obtain ⟨kind, hkind⟩ := exists_resolve_iff.2 ⟨hrel, hsome⟩
      exact ⟨_, hkind⟩
  refine ⟨r, hr, actualPath_eq_iff hi hr h, ?_⟩
  rintro rfl
  rw [fixedSpecifier_of_found hr]
  refine (resolveExactly_canonicalSpecifier hi hcur.normal hr).2 fun hk _ => ?_
  -- the file was named as an index file, so its name is spelled as one
  obtain ⟨e, he⟩ := exists_indexFile hi hr hk
  have hindex : indexFile (targetOf current specifier) e ∈
      candidates (targetOf current specifier) :=
    List.mem_append_right _ (mem_directoryCandidates.2 ⟨e, rfl⟩)
  rw [eq_of_lower_eq hmem hindex he]
  exact ⟨e, fileName_indexFile _ e⟩

/-- `./Card` names `Card.tsx` letter for letter, and nothing that is tried before is there in any
spelling. -/
theorem resolve_card_of_resolveExactly :
    resolveExactly (FileIndex.ofPaths ["card/index.ts".toList, "Card.tsx".toList])
        "App.tsx".toList "./Card".toList = some "Card.tsx".toList ∧
      resolveExactly (FileIndex.ofPaths ["card/index.ts".toList, "Card.tsx".toList])
        "App.tsx".toList (fixedSpecifier
          (FileIndex.ofPaths ["card/index.ts".toList, "Card.tsx".toList]) "App.tsx".toList
          "./Card".toList) = some "Card.tsx".toList := by
  have hexact : resolveExactly (FileIndex.ofPaths ["card/index.ts".toList, "Card.tsx".toList])
      "App.tsx".toList "./Card".toList = some "Card.tsx".toList := by decide
  obtain ⟨r, -, hiff, hfixed⟩ := resolve_of_resolveExactly
    (FileIndex.regular_ofPaths (by decide)) (by decide) (by decide) hexact
  exact ⟨hexact, hfixed (hiff.2 (by decide))⟩

/-- A file whose stem differs in case only, but whose extension is tried before, takes the place of
the file that is named letter for letter. -/
theorem resolve_foo_redirected :
    (FileIndex.ofPaths ["Foo.ts".toList, "foo.js".toList]).Regular ∧ Clean "App.tsx".toList ∧
      isRelative "./Foo".toList = true ∧
      resolveExactly (FileIndex.ofPaths ["Foo.ts".toList, "foo.js".toList]) "App.tsx".toList
        "./Foo".toList = some "Foo.ts".toList ∧
      resolve (FileIndex.ofPaths ["Foo.ts".toList, "foo.js".toList]) "App.tsx".toList
        "./Foo".toList = .found ⟨FileEntry.ofPath "foo.js".toList, .direct⟩ ∧
      fixedSpecifier (FileIndex.ofPaths ["Foo.ts".toList, "foo.js".toList]) "App.tsx".toList
        "./Foo".toList = "./foo".toList :=
  ⟨FileIndex.regular_ofPaths (by decide), by decide, by decide, by decide, by decide, by decide⟩

end TrueCase

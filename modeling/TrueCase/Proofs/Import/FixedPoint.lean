import TrueCase.Proofs.Import.Canonical

/-!
# Canonical specifiers of canonical specifiers

A canonical specifier is resolved again like any other, and is canonical for what it then names,
with one exception. The directory of an index file leads to it unless another file takes the name of
the directory. Then the explicit path stands in for the directory. It names the index file itself,
and as such loses its extension the next time.

## Main statements

* `leadsTo_directory_iff`: when the directory of an index file leads to it.
* `leadsTo_stem_iff`: when the path of an index file without its extension leads to it.
* `canonicalSpecifier_again_iff`: when a canonical specifier is canonical once more.
-/

namespace TrueCase

open TrueCase.Path

/-! ## The stem of an index file -/

section

variable {actual : Text} {e : Extension} (ha : Clean actual)
  (hname : (fileName actual).lower = indexName e)
  (hdrop : dropExtension (fileName actual) ≠ fileName actual)

include ha hname hdrop

/-- An index file without its extension is the file to which its directory and its name without
extension lead. -/
theorem join_stem : join (parent actual) (dropExtension (fileName actual)) =
    dropExtension actual := by
  obtain ⟨ds, n, hd, hn, rfl⟩ := ha.exists_eq
  rw [fileName_ofSegments hd hn] at hname hdrop ⊢
  have hlower := lower_dropExtension_append hname hdrop .jsx
  have hslash : '/' ∉ dropExtension n := fun h => hn.slash_not_mem (mem_of_mem_dropExtension h)
  rw [parent_ofSegments hd hn, dropExtension_ofSegments_concat, join_segment hd hslash]
  have hstem : IsName (dropExtension n) := by
    refine ⟨?_, ?_, ?_, hslash⟩ <;> intro h <;> rw [h] at hlower <;> revert hlower <;>
      decide
  rw [step_name hstem, List.reverse_cons, List.reverse_reverse]

/-- With any extension it is the index file of its directory that has this extension. -/
theorem lower_stem_append (f : Extension) :
    (dropExtension actual ++ f.suffix).lower = (indexFile (parent actual) f).lower := by
  obtain ⟨ds, n, hd, hn, rfl⟩ := ha.exists_eq
  rw [fileName_ofSegments hd hn] at hname hdrop
  rw [parent_ofSegments hd hn, dropExtension_ofSegments_concat, ← ofSegments_append_concat,
    indexFile_ofSegments hd, Text.lower_ofSegments, Text.lower_ofSegments, List.map_append,
    List.map_append, List.map_singleton, List.map_singleton,
    lower_dropExtension_append hname hdrop f, (settled_indexName f).lower_eq]

/-- So what it names is what stands at its own path, or else the index file of its directory. -/
theorem findSome?_directCandidates_stem (index : FileIndex) :
    (directCandidates (dropExtension actual)).findSome? index.get? =
      (index.get? (dropExtension actual)).or
        ((directoryCandidates (parent actual)).findSome? index.get?) := by
  have hsame (f : Extension) :
      index.get? (dropExtension actual ++ f.suffix) = index.get? (indexFile (parent actual) f) :=
    FileIndex.get?_congr (lower_stem_append ha hname hdrop f)
  rw [directCandidates, List.findSome?_cons, directoryCandidates_eq, List.findSome?_map,
    List.findSome?_map]
  simp only [Function.comp_def, hsame]
  cases index.get? (dropExtension actual) <;> rfl

end

variable {index : FileIndex} {current specifier : Text} {r : Resolution}

section

variable (hi : index.Normal) (hspec : resolve index current specifier = .found r)
  (hk : r.kind = .directoryIndex)

include hi hspec hk

/-- A file that is named by its directory is the first index file of the directory that it is in. -/
theorem findSome?_directoryCandidates_parent :
    (directoryCandidates (parent r.entry.actualPath)).findSome? index.get? = some r.entry := by
  obtain ⟨e, he⟩ := exists_indexFile hi hspec hk
  rw [findSome?_directoryCandidates_congr (lower_eq_indexFile he).1]
  obtain ⟨-, ⟨hk', -⟩ | ⟨-, -, hsome⟩⟩ := resolve_eq_found_iff.1 hspec
  · cases hk.symm.trans hk'
  · exact hsome

variable (hcur : Path.Normal current)

include hcur

/-- The directory of an index file leads to it if no file takes the name of the directory. -/
theorem leadsTo_directory_iff :
    leadsTo index current (preferredSpecifier current r) r.entry.key = true ↔
      ∀ d ∈ directCandidates (parent r.entry.actualPath), index.get? d = none := by
  have hmem := mem_entries_of_resolve hspec
  have hp := (hi r.entry hmem).normal
  have htarget := targetOf_preferred_directoryIndex hcur hk hp
  rw [leadsTo_iff, ← List.findSome?_eq_none_iff]
  constructor
  · rintro ⟨found, hfound, hkey⟩
    have hentry := FileIndex.eq_of_key_eq (mem_entries_of_resolve hfound) hmem hkey
    have hkind : found.kind = .directoryIndex := by
      rw [← hk]
      exact kind_eq_of_resolve_preferred hi hcur hspec (hentry ▸ hfound)
    obtain ⟨-, ⟨hdirect, -⟩ | ⟨-, hnone, -⟩⟩ := resolve_eq_found_iff.1 hfound
    · cases hkind.symm.trans hdirect
    · rwa [htarget] at hnone
  · intro hnone
    have hsome := findSome?_directoryCandidates_parent hi hspec hk
    rw [← htarget] at hnone hsome
    exact ⟨r, resolve_eq_found_iff.2 ⟨isRelative_of_marked (preferredSpecifier_marked hcur hp),
      Or.inr ⟨hk, hnone, hsome⟩⟩, rfl⟩

/-- The explicit path of an index file without its extension leads to it if no file takes that
name. -/
theorem leadsTo_stem_iff (hdrop : dropExtension (explicit (parent current) r.entry.actualPath) ≠
      explicit (parent current) r.entry.actualPath) :
    leadsTo index current (dropExtension (explicit (parent current) r.entry.actualPath))
        r.entry.key = true ↔
      index.get? (dropExtension r.entry.actualPath) = none := by
  have hmem := mem_entries_of_resolve hspec
  have hp := (hi r.entry hmem).normal
  obtain ⟨e, he⟩ := exists_indexFile hi hspec hk
  obtain ⟨hparent, hname⟩ := lower_eq_indexFile he
  obtain ⟨hmarked, hcase⟩ := dropExtension_explicit hcur.normal_parent hp
  obtain ⟨hclean, hstem, htarget⟩ := hcase.resolve_left hdrop
  replace htarget : targetOf current
      (dropExtension (explicit (parent current) r.entry.actualPath)) =
        dropExtension r.entry.actualPath :=
    htarget.trans (join_stem hclean hname hstem)
  have hfind := findSome?_directCandidates_stem hclean hname hstem index
  rw [findSome?_directoryCandidates_parent hi hspec hk, ← htarget] at hfind
  have hresolve {entry : FileEntry} (h : (directCandidates (targetOf current (dropExtension
        (explicit (parent current) r.entry.actualPath)))).findSome? index.get? = some entry) :
      resolve index current (dropExtension (explicit (parent current) r.entry.actualPath)) =
        .found ⟨entry, .direct⟩ :=
    resolve_eq_found_iff.2 ⟨isRelative_of_marked hmarked, Or.inl ⟨rfl, h⟩⟩
  rw [leadsTo_iff, ← htarget]
  cases hget : index.get? (targetOf current
      (dropExtension (explicit (parent current) r.entry.actualPath))) with
  | none =>
    rw [hget, Option.none_or] at hfind
    exact iff_of_true ⟨_, hresolve hfind, rfl⟩ rfl
  | some other =>
    rw [hget, Option.some_or] at hfind
    refine iff_of_false ?_ (by simp)
    rintro ⟨found, hfound, hkey⟩
    cases (hresolve hfind).symm.trans hfound
    -- the other file would have to be the index file, which has an extension more
    obtain ⟨hother, hlower⟩ := (FileIndex.get?_eq_some_iff hi).1 hget
    rw [FileIndex.eq_of_key_eq hother hmem hkey, htarget, he, lower_indexFile, ← hparent,
      ← lower_indexFile, ← lower_stem_append hclean hname hstem e] at hlower
    have hnil := Text.eq_of_lower_append_eq (settled_suffix e) (fun _ => rfl)
      (hlower.trans (congrArg Text.lower (List.append_nil _).symm))
    cases hnil

end

/-- In a regular index the canonical specifier of a file names that file again, and it is canonical
for what it then names, with one exception, in which it is not. The exception is an index file that
was named by its directory, while another file takes the name of that directory; its canonical
specifier is then the explicit path, and loses its extension the next time, unless yet another file
has the name that is left. Without a capital sigma in the paths the exception does not occur. -/
theorem canonicalSpecifier_again_iff (hi : index.Regular) (hcur : Clean current)
    (h : resolve index current specifier = .found r) :
    ∃ again, resolve index current (canonicalSpecifier index current r) = .found again ∧
      again.entry = r.entry ∧
      (canonicalSpecifier index current again = canonicalSpecifier index current r ↔
        (r.kind = .directoryIndex →
          (∃ d ∈ directCandidates (parent r.entry.actualPath), index.get? d ≠ none) →
          dropExtension (canonicalSpecifier index current r) =
              canonicalSpecifier index current r ∨
            index.get? (dropExtension r.entry.actualPath) ≠ none)) ∧
      ('Σ' ∉ targetOf current specifier → 'Σ' ∉ r.entry.actualPath →
        canonicalSpecifier index current again = canonicalSpecifier index current r) := by
  have hi := hi.toNormal
  have hcur := hcur.normal
  have hmem := mem_entries_of_resolve h
  by_cases hleads : r.kind = .directoryIndex →
      leadsTo index current (preferredSpecifier current r) r.entry.key = true
  · -- the file is named in the same way again
    refine ⟨r, resolve_canonicalSpecifier_eq hi hcur h hleads, rfl, ?_, fun _ _ => rfl⟩
    refine iff_of_true rfl fun hk ⟨d, hd, hget⟩ => ?_
    exact absurd ((leadsTo_directory_iff hi h hk hcur).1 (hleads hk) d hd) hget
  · obtain ⟨hk, hnot⟩ := Classical.not_imp.1 hleads
    have hcanonical : canonicalSpecifier index current r =
        explicit (parent current) r.entry.actualPath := by
      unfold canonicalSpecifier
      rw [if_neg hnot]
    have hagain : canonicalSpecifier index current ⟨r.entry, .direct⟩ =
        if leadsTo index current (dropExtension (explicit (parent current) r.entry.actualPath))
          r.entry.key then dropExtension (explicit (parent current) r.entry.actualPath)
        else explicit (parent current) r.entry.actualPath := rfl
    rw [hcanonical]
    refine ⟨⟨r.entry, .direct⟩, resolve_explicit hcur hi hmem, rfl, ?_, fun htarget hactual => ?_⟩
    · have htaken : ∃ d ∈ directCandidates (parent r.entry.actualPath), index.get? d ≠ none := by
        simpa using mt (leadsTo_directory_iff hi h hk hcur).2 hnot
      simp only [hk, htaken, forall_const]
      rw [hagain]
      by_cases hdrop : dropExtension (explicit (parent current) r.entry.actualPath) =
          explicit (parent current) r.entry.actualPath
      · simp [hdrop]
      · have hstem := leadsTo_stem_iff hi h hk hcur hdrop
        by_cases hget : index.get? (dropExtension r.entry.actualPath) = none
        · simp [hstem.2 hget, hdrop, hget]
        · simp [mt hstem.1 hget, hdrop, hget]
    · exact absurd (leadsTo_preferredSpecifier hi hcur h hk htarget hactual) hnot

set_option maxRecDepth 20000 in
/-- The exception is not made for an index file whose directory has a name of its own, whatever the
case of its letters. -/
theorem canonicalSpecifier_again_sigma :
    resolve (FileIndex.ofPaths ["ΟΔΟΣ/index.ts".toList, "App.tsx".toList]) "App.tsx".toList
        "./οδος".toList = .found ⟨FileEntry.ofPath "ΟΔΟΣ/index.ts".toList, .directoryIndex⟩ ∧
      ∃ again, resolve (FileIndex.ofPaths ["ΟΔΟΣ/index.ts".toList, "App.tsx".toList])
          "App.tsx".toList (canonicalSpecifier
            (FileIndex.ofPaths ["ΟΔΟΣ/index.ts".toList, "App.tsx".toList]) "App.tsx".toList
            ⟨FileEntry.ofPath "ΟΔΟΣ/index.ts".toList, .directoryIndex⟩) = .found again ∧
        canonicalSpecifier (FileIndex.ofPaths ["ΟΔΟΣ/index.ts".toList, "App.tsx".toList])
            "App.tsx".toList again =
          canonicalSpecifier (FileIndex.ofPaths ["ΟΔΟΣ/index.ts".toList, "App.tsx".toList])
            "App.tsx".toList ⟨FileEntry.ofPath "ΟΔΟΣ/index.ts".toList, .directoryIndex⟩ := by
  have hres : resolve (FileIndex.ofPaths ["ΟΔΟΣ/index.ts".toList, "App.tsx".toList])
      "App.tsx".toList "./οδος".toList =
        .found ⟨FileEntry.ofPath "ΟΔΟΣ/index.ts".toList, .directoryIndex⟩ := by decide
  obtain ⟨again, hagain, -, hiff, -⟩ := canonicalSpecifier_again_iff
    (FileIndex.regular_ofPaths (by decide)) (by decide) hres
  refine ⟨hres, again, hagain, hiff.2 ?_⟩
  rintro - ⟨d, hd, hget⟩
  exact absurd ((by decide : ∀ d ∈ directCandidates (parent "ΟΔΟΣ/index.ts".toList),
    (FileIndex.ofPaths ["ΟΔΟΣ/index.ts".toList, "App.tsx".toList]).get? d = none) d hd) hget

set_option maxRecDepth 20000 in
/-- A capital sigma is final at the end of a directory and not before an extension, so that a file
can take the name of a directory in one spelling only. The explicit path that stands in for this
directory loses its extension the next time. -/
theorem canonicalSpecifier_sigma_twice :
    (FileIndex.ofPaths ["aΣ/index.ts".toList, "aσ.js".toList]).Regular ∧
      Clean "App.tsx".toList ∧
      resolve (FileIndex.ofPaths ["aΣ/index.ts".toList, "aσ.js".toList]) "App.tsx".toList
        "./aς".toList = .found ⟨FileEntry.ofPath "aΣ/index.ts".toList, .directoryIndex⟩ ∧
      canonicalSpecifier (FileIndex.ofPaths ["aΣ/index.ts".toList, "aσ.js".toList])
        "App.tsx".toList ⟨FileEntry.ofPath "aΣ/index.ts".toList, .directoryIndex⟩ =
          "./aΣ/index.ts".toList ∧
      resolve (FileIndex.ofPaths ["aΣ/index.ts".toList, "aσ.js".toList]) "App.tsx".toList
        "./aΣ/index.ts".toList = .found ⟨FileEntry.ofPath "aΣ/index.ts".toList, .direct⟩ ∧
      canonicalSpecifier (FileIndex.ofPaths ["aΣ/index.ts".toList, "aσ.js".toList])
        "App.tsx".toList ⟨FileEntry.ofPath "aΣ/index.ts".toList, .direct⟩ =
          "./aΣ/index".toList :=
  ⟨FileIndex.regular_ofPaths (by decide), by decide, by decide, by decide,
    by decide, by decide⟩

end TrueCase

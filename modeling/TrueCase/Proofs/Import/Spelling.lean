import TrueCase.Proofs.FileSystem.SourceName
import TrueCase.Proofs.Import.Canonical

/-!
# The spelling of canonical specifiers

A canonical specifier is cut out of the way to a path, and yet what it leads to is spelled as the
file system spells it, letter for letter. The extension is left out exactly when nothing else would
be found without it.

## Main statements

* `join_canonicalSpecifier`: what a canonical specifier leads to.
* `leadsTo_iff_takeWhile`: when a specifier leads to a file whose path is a candidate.
* `canonicalSpecifier_direct`: which canonical specifiers have an extension.
-/

namespace TrueCase

open TrueCase.Path

variable {index : FileIndex} {current specifier : Text} {r : Resolution}

/-! ## What is led to -/

theorem eq_or_eq_dropExtension {target actual : Text} (h : actual ∈ directCandidates target) :
    target = actual ∨ target = dropExtension actual := by
  rcases mem_directCandidates.1 h with rfl | ⟨e, rfl⟩
  · exact Or.inl rfl
  · exact Or.inr (dropExtension_append_suffix target e).symm

/-- What a canonical specifier leads to is spelled letter for letter as the file system spells the
file: the path of a file that is named directly, with its extension or without, and the directory of
an index file or its path. -/
theorem join_canonicalSpecifier (hi : index.Regular) (hcur : Clean current)
    (h : resolve index current specifier = .found r) :
    let spelled := join (parent current) (canonicalSpecifier index current r)
    (r.kind = .direct →
        spelled = r.entry.actualPath ∨ spelled = dropExtension r.entry.actualPath) ∧
      (r.kind = .directoryIndex →
        spelled = parent r.entry.actualPath ∨ spelled = r.entry.actualPath) := by
  intro spelled
  have he := mem_entries_of_resolve h
  have hp := (hi r.entry he).clean.normal
  rcases canonicalSpecifier_cases index current r with ⟨hcan, hleads⟩ | ⟨hcan, -⟩
  · have hspelled : spelled = targetOf current (preferredSpecifier current r) := by
      rw [targetOf, ← hcan]
    rw [hspelled]
    refine ⟨fun hk => eq_or_eq_dropExtension ?_, fun hk => Or.inl ?_⟩
    · exact actualPath_mem_directCandidates hi.toNormal hcur.normal he hk hleads
    · exact targetOf_preferred_directoryIndex hcur.normal hk hp
  · have hspelled : spelled = r.entry.actualPath := by
      rw [← targetOf_explicit hcur.normal hp, targetOf, ← hcan]
    exact ⟨fun _ => Or.inl hspelled, fun _ => Or.inr hspelled⟩

/-- A file whose name is made of dots but for the extension is spelled with the extension, as the
dots alone lead up. -/
theorem join_canonicalSpecifier_dots :
    resolve (FileIndex.ofPaths ["lib/...ts".toList]) "lib/App.tsx".toList "./...TS".toList =
        .found ⟨FileEntry.ofPath "lib/...ts".toList, .direct⟩ ∧
      join (parent "lib/App.tsx".toList) (canonicalSpecifier
        (FileIndex.ofPaths ["lib/...ts".toList]) "lib/App.tsx".toList
        ⟨FileEntry.ofPath "lib/...ts".toList, .direct⟩) = "lib/...ts".toList := by
  have hres : resolve (FileIndex.ofPaths ["lib/...ts".toList]) "lib/App.tsx".toList
      "./...TS".toList = .found ⟨FileEntry.ofPath "lib/...ts".toList, .direct⟩ := by decide
  obtain ⟨hdirect, -⟩ := join_canonicalSpecifier
    (FileIndex.regular_ofPaths (by decide)) (by decide) hres
  exact ⟨hres, (hdirect rfl).resolve_right (by decide)⟩

/-! ## Extensions -/

theorem takeWhile_candidates (stem : Text) (e : Extension) :
    (candidates stem).takeWhile (· ≠ stem ++ e.suffix) =
      stem :: (Extension.all.takeWhile (· ≠ e)).map (stem ++ ·.suffix) := by
  cases e <;> simp [candidates, directCandidates, Extension.all, Extension.suffix, Extension.text]

/-- A specifier leads to a file whose path is a candidate exactly when no candidate before that one
finds any. -/
theorem leadsTo_iff_takeWhile (hi : index.Normal) (hrel : isRelative specifier = true)
    {entry : FileEntry} (he : entry ∈ index.entries)
    (hmem : entry.actualPath ∈ candidates (targetOf current specifier)) :
    leadsTo index current specifier entry.key = true ↔
      ∀ c ∈ (candidates (targetOf current specifier)).takeWhile (· ≠ entry.actualPath),
        index.get? c = none := by
  obtain ⟨r, hr⟩ := exists_resolve_of_get? hrel hmem (FileIndex.get?_actualPath hi he)
  have hkey : r.entry.key = entry.key ↔ r.entry = entry :=
    ⟨FileIndex.eq_of_key_eq (mem_entries_of_resolve hr) he, fun heq => heq ▸ rfl⟩
  rw [← entry_eq_iff hi hr he hmem, ← hkey, leadsTo, hr, decide_eq_true_iff]

/-- What is left of the name of a source file is a name again, unless dots are all that is left. -/
theorem isName_fileName_stem {stem : Text} {e : Extension} (h : Clean (stem ++ e.suffix))
    (hsource : isSourceFile (RawPath.ofText (stem ++ e.suffix)) = true)
    (hdot : fileName stem ≠ dot) (hdotDot : fileName stem ≠ dotDot) : IsName (fileName stem) := by
  obtain ⟨rest, f, hne, hname⟩ := (RawPath.isSourceFile_ofText_iff h).1 hsource
  rw [fileName_append stem e.slash_not_mem_suffix] at hname
  obtain rfl := Extension.eq_of_append_suffix_eq hname
  rw [List.append_cancel_right hname] at hdot hdotDot ⊢
  have hslash := h.isName_fileName.slash_not_mem
  rw [fileName_append stem e.slash_not_mem_suffix, hname] at hslash
  exact ⟨hne, hdot, hdotDot, fun hmem => hslash (List.mem_append_left _ hmem)⟩

/-- A file that is named directly keeps its extension exactly when without it another file would be
found before: one that has the rest of the path for its own, or that has another extension behind
it. Otherwise the extension is dropped from the explicit path. That path has it at its end, unless
the importing file lies inside the path of the imported one; then there is none to drop. -/
theorem canonicalSpecifier_direct (hi : index.Regular) (hcur : Clean current) {entry : FileEntry}
    (he : entry ∈ index.entries)
    (hsource : isSourceFile (RawPath.ofText entry.actualPath) = true) {stem : Text} {e : Extension}
    (hstem : entry.actualPath = stem ++ e.suffix) (hdot : fileName stem ≠ dot)
    (hdotDot : fileName stem ≠ dotDot) :
    let full := explicit (parent current) entry.actualPath
    let taken := (index.get? stem).isSome ∨
      ∃ f ∈ Extension.all.takeWhile (· ≠ e), (index.get? (stem ++ f.suffix)).isSome
    (taken → canonicalSpecifier index current ⟨entry, .direct⟩ = full) ∧
      (¬ taken → canonicalSpecifier index current ⟨entry, .direct⟩ = dropExtension full) ∧
      (full = dropExtension full ++ e.suffix ∨
        names entry.actualPath <+: names (parent current) ∧ dropExtension full = full) := by
  intro full taken
  have hclean := (hi entry he).clean
  have hrel := isRelative_of_marked
    (preferredSpecifier_marked (r := ⟨entry, .direct⟩) hcur.normal hclean.normal)
  have hcases := canonicalSpecifier_cases index current ⟨entry, .direct⟩
  have hending := explicit_append_suffix hcur.normal_parent (hstem ▸ hclean)
    (isName_fileName_stem (hstem ▸ hclean) (hstem ▸ hsource) hdot hdotDot)
  rw [← hstem] at hending
  rcases hending with ⟨hinside, hsame⟩ | ⟨hsuffix, htarget⟩
  · have hcan : canonicalSpecifier index current ⟨entry, .direct⟩ = full := by
      rcases hcases with ⟨hcan, -⟩ | ⟨hcan, -⟩
      · exact hcan.trans hsame
      · exact hcan
    exact ⟨fun _ => hcan, fun _ => hcan.trans hsame.symm, Or.inr ⟨hinside, hsame⟩⟩
  · have htarget : targetOf current (preferredSpecifier current ⟨entry, .direct⟩) = stem := htarget
    have hleads : leadsTo index current (preferredSpecifier current ⟨entry, .direct⟩) entry.key =
        true ↔ ¬ taken := by
      have hmem : entry.actualPath ∈ candidates stem :=
        hstem ▸ List.mem_append_left _ (mem_directCandidates.2 (Or.inr ⟨e, rfl⟩))
      rw [leadsTo_iff_takeWhile hi.toNormal hrel he (htarget ▸ hmem), htarget, hstem,
        takeWhile_candidates]
      simp [taken]
    rcases hcases with ⟨hcan, htrue⟩ | ⟨hcan, hfalse⟩
    · exact ⟨fun ht => absurd ht (hleads.1 htrue), fun _ => hcan, Or.inl hsuffix⟩
    · refine ⟨fun _ => hcan, fun ht => ?_, Or.inl hsuffix⟩
      rw [hleads.2 ht] at hfalse
      cases hfalse

/-- A name with two extensions keeps the second one next to a file that ends in the first, though
that is spelled in other letters. -/
theorem canonicalSpecifier_direct_twice :
    (FileIndex.ofPaths ["FOO.js".toList, "foo.js.ts".toList]).get? "foo.js".toList =
        some (FileEntry.ofPath "FOO.js".toList) ∧
      canonicalSpecifier (FileIndex.ofPaths ["FOO.js".toList, "foo.js.ts".toList])
        "App.tsx".toList ⟨FileEntry.ofPath "foo.js.ts".toList, .direct⟩ =
          "./foo.js.ts".toList := by
  have hget : (FileIndex.ofPaths ["FOO.js".toList, "foo.js.ts".toList]).get? "foo.js".toList =
      some (FileEntry.ofPath "FOO.js".toList) := by decide
  have hi : (FileIndex.ofPaths ["FOO.js".toList, "foo.js.ts".toList]).Regular :=
    FileIndex.regular_ofPaths (by decide)
  have he : FileEntry.ofPath "foo.js.ts".toList ∈
      (FileIndex.ofPaths ["FOO.js".toList, "foo.js.ts".toList]).entries := by decide
  have hcur : Clean "App.tsx".toList := by decide
  have hstem : "foo.js.ts".toList = "foo.js".toList ++ Extension.ts.suffix := by decide
  obtain ⟨htaken, -⟩ :=
    canonicalSpecifier_direct hi hcur he (by decide) hstem (by decide) (by decide)
  exact ⟨hget, htaken (Or.inl (by rw [hget]; rfl))⟩

end TrueCase

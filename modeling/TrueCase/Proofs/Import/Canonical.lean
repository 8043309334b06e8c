import TrueCase.Import.Canonical
import TrueCase.Proofs.Import.Resolution

/-!
# The canonical specifier leads back

The canonical specifier of a file leads to that file again. If it is the preferred form, it leads
there in the same way as before, and from then on nothing changes any more.

## Main statements

* `canonicalSpecifier_cases`: the canonical specifier is the preferred form or the explicit path.
* `resolve_canonicalSpecifier`: the canonical specifier of a file leads to that file.
* `resolve_canonicalSpecifier_eq`: when it leads there in the same way.
* `leadsTo_preferredSpecifier`: without a capital sigma the directory of an index file leads to it.
-/

namespace TrueCase

open TrueCase.Path

variable {index : FileIndex} {current specifier : Text} {r : Resolution}

theorem leadsTo_iff {key : Text} : leadsTo index current specifier key = true ↔
    ∃ r, resolve index current specifier = .found r ∧ r.entry.key = key := by
  unfold leadsTo
  split
  · next r h => simp [h]
  · next h => simpa using fun r hr => absurd hr (h r)

/-- The canonical specifier is the preferred form where that leads to the file. -/
theorem canonicalSpecifier_cases (index : FileIndex) (current : Text) (r : Resolution) :
    canonicalSpecifier index current r = preferredSpecifier current r ∧
        leadsTo index current (preferredSpecifier current r) r.entry.key = true ∨
      canonicalSpecifier index current r = explicit (parent current) r.entry.actualPath ∧
        leadsTo index current (preferredSpecifier current r) r.entry.key = false := by
  unfold canonicalSpecifier
  cases h : leadsTo index current (preferredSpecifier current r) r.entry.key <;> simp [h]

/-! ## The explicit path -/

section

variable (hcur : Path.Normal current)

include hcur

theorem targetOf_explicit {path : Text} (hp : Path.Normal path) :
    targetOf current (explicit (parent current) path) = path :=
  join_explicit hcur.normal_parent hp

theorem isRelative_explicit {path : Text} (hp : Path.Normal path) :
    isRelative (explicit (parent current) path) = true :=
  isRelative_of_marked (explicit_marked hcur.normal_parent hp)

/-- The explicit path to a file leads to it. -/
theorem resolve_explicit (hi : index.Normal) {entry : FileEntry} (he : entry ∈ index.entries) :
    resolve index current (explicit (parent current) entry.actualPath) =
      .found ⟨entry, .direct⟩ := by
  have hp := (hi entry he).normal
  refine resolve_of_get?_target (isRelative_explicit hcur hp) ?_
  rw [targetOf_explicit hcur hp]
  exact FileIndex.get?_actualPath hi he

/-! ## The preferred form -/

/-- The preferred form starts with `./` or `../`. -/
theorem preferredSpecifier_marked (hp : Path.Normal r.entry.actualPath) :
    ['.', '/'] <+: preferredSpecifier current r ∨
      ['.', '.', '/'] <+: preferredSpecifier current r := by
  unfold preferredSpecifier
  split
  · exact (dropExtension_explicit hcur.normal_parent hp).1
  · exact explicit_marked hcur.normal_parent hp.normal_parent

/-- The file that a direct preferred form stands for is among its direct candidates as soon as any
of its candidates is that file apart from case. -/
theorem eq_actual_of_direct (hk : r.kind = .direct) (hp : Path.Normal r.entry.actualPath) {c : Text}
    (hc : c ∈ candidates (targetOf current (preferredSpecifier current r)))
    (h : c.lower = r.entry.actualPath.lower) : c = r.entry.actualPath ∧
      r.entry.actualPath ∈ directCandidates (targetOf current (preferredSpecifier current r)) := by
  have hpref : preferredSpecifier current r =
      dropExtension (explicit (parent current) r.entry.actualPath) := by
    simp only [preferredSpecifier, hk]
  rw [hpref, targetOf] at hc ⊢
  rcases (dropExtension_explicit hcur.normal_parent hp).2 with hself | ⟨hclean, -, ht⟩
  · rw [hself, join_explicit hcur.normal_parent hp] at hc ⊢
    have hmem : r.entry.actualPath ∈ directCandidates r.entry.actualPath := List.mem_cons_self
    exact ⟨eq_of_lower_eq hc (List.mem_append_left _ hmem) h, hmem⟩
  · rw [ht] at hc ⊢
    exact eq_actual_of_lower_eq hclean hc h

/-- The preferred form of an index file leads to its directory. -/
theorem targetOf_preferred_directoryIndex (hk : r.kind = .directoryIndex)
    (hp : Path.Normal r.entry.actualPath) :
    targetOf current (preferredSpecifier current r) = parent r.entry.actualPath := by
  have hpref : preferredSpecifier current r =
      explicit (parent current) (parent r.entry.actualPath) := by
    simp only [preferredSpecifier, hk]
  rw [hpref]
  exact targetOf_explicit hcur hp.normal_parent

end

/-! ## Leading back -/

section

variable (hi : index.Normal) (hcur : Path.Normal current)

include hi hcur

/-- The canonical specifier of a file starts with `./` or `../`. -/
theorem canonicalSpecifier_marked (he : r.entry ∈ index.entries) :
    ['.', '/'] <+: canonicalSpecifier index current r ∨
      ['.', '.', '/'] <+: canonicalSpecifier index current r := by
  have hp := (hi r.entry he).normal
  rcases canonicalSpecifier_cases index current r with ⟨h, -⟩ | ⟨h, -⟩ <;> rw [h]
  · exact preferredSpecifier_marked hcur hp
  · exact explicit_marked hcur.normal_parent hp

/-- The canonical specifier of a file leads to that file. -/
theorem resolve_canonicalSpecifier (he : r.entry ∈ index.entries) :
    ∃ kind, resolve index current (canonicalSpecifier index current r) =
      .found ⟨r.entry, kind⟩ := by
  rcases canonicalSpecifier_cases index current r with ⟨h, hleads⟩ | ⟨h, -⟩ <;> rw [h]
  · obtain ⟨found, hfound, hkey⟩ := leadsTo_iff.1 hleads
    rw [← FileIndex.eq_of_key_eq (mem_entries_of_resolve hfound) he hkey]
    exact ⟨found.kind, hfound⟩
  · exact ⟨.direct, resolve_explicit hcur hi he⟩

/-- A direct preferred form that leads to its file has the path of the file among its direct
candidates. -/
theorem actualPath_mem_directCandidates (he : r.entry ∈ index.entries) (hk : r.kind = .direct)
    (hleads : leadsTo index current (preferredSpecifier current r) r.entry.key = true) :
    r.entry.actualPath ∈ directCandidates (targetOf current (preferredSpecifier current r)) := by
  obtain ⟨found, hfound, hkey⟩ := leadsTo_iff.1 hleads
  obtain ⟨before, c, after, hc, hget, -⟩ := exists_candidate hfound
  rw [FileIndex.eq_of_key_eq (mem_entries_of_resolve hfound) he hkey] at hget
  have hlower := ((FileIndex.get?_eq_some_iff hi).1 hget).2.symm
  exact (eq_actual_of_direct hcur hk (hi r.entry he).normal (by simp [hc]) hlower).2

/-- The preferred form leads to the file in the way for which it is preferred. -/
theorem kind_eq_of_resolve_preferred (hspec : resolve index current specifier = .found r)
    {kind : Resolution.Kind}
    (h : resolve index current (preferredSpecifier current r) = .found ⟨r.entry, kind⟩) :
    kind = r.kind := by
  have hmem := mem_entries_of_resolve hspec
  have hp := (hi r.entry hmem).normal
  cases hk : r.kind with
  | direct =>
    have hactual := actualPath_mem_directCandidates hi hcur hmem hk (leadsTo_iff.2 ⟨_, h, rfl⟩)
    exact kind_eq_direct h hactual (FileIndex.get?_actualPath hi hmem)
  | directoryIndex =>
    obtain ⟨e, he⟩ := exists_indexFile hi hspec hk
    obtain ⟨-, hname⟩ := lower_eq_indexFile he
    obtain ⟨-, ⟨-, hsome⟩ | ⟨hkind, -⟩⟩ := resolve_eq_found_iff.1 h
    · -- a direct candidate of the directory would have to be the index file
      obtain ⟨c, hc, hget⟩ := List.exists_of_findSome?_eq_some hsome
      rw [targetOf_preferred_directoryIndex hcur hk hp] at hc
      have hlower := ((FileIndex.get?_eq_some_iff hi).1 hget).2.symm
      have := eq_indexFile_of_lower_eq hp hname (List.mem_append_left _ hc) hlower
      exact absurd (this ▸ hc) (indexFile_not_mem_directCandidates _ e)
    · exact hkind

/-- If the directory of an index file leads to it, the canonical specifier leads to a file in the
same way as the specifier that it replaces. -/
theorem resolve_canonicalSpecifier_eq (hspec : resolve index current specifier = .found r)
    (hdir : r.kind = .directoryIndex →
      leadsTo index current (preferredSpecifier current r) r.entry.key = true) :
    resolve index current (canonicalSpecifier index current r) = .found r := by
  have he := mem_entries_of_resolve hspec
  rcases canonicalSpecifier_cases index current r with ⟨h, -⟩ | ⟨h, hleads⟩
  · obtain ⟨kind, hkind⟩ := resolve_canonicalSpecifier (r := r) hi hcur he
    rw [h] at hkind ⊢
    rw [hkind, kind_eq_of_resolve_preferred hi hcur hspec hkind]
  · have hk : r.kind = .direct := by
      cases hk : r.kind with
      | direct => rfl
      | directoryIndex => rw [hdir hk] at hleads; cases hleads
    rw [h, resolve_explicit hcur hi he, ← hk]

/-- Without a capital sigma the directory of an index file leads to it, as any other specifier that
names the file by its directory does. -/
theorem leadsTo_preferredSpecifier (hspec : resolve index current specifier = .found r)
    (hk : r.kind = .directoryIndex) (htarget : 'Σ' ∉ targetOf current specifier)
    (hactual : 'Σ' ∉ r.entry.actualPath) :
    leadsTo index current (preferredSpecifier current r) r.entry.key = true := by
  have hp := (hi r.entry (mem_entries_of_resolve hspec)).normal
  obtain ⟨e, he⟩ := exists_indexFile hi hspec hk
  obtain ⟨hlower, -⟩ := lower_eq_indexFile he
  have hparent : 'Σ' ∉ parent r.entry.actualPath := mt mem_of_mem_parent hactual
  have hfound := (exists_resolve_iff.1 ⟨r.kind, hspec⟩).2
  rw [← findSome?_candidates_congr hparent htarget hlower,
    ← targetOf_preferred_directoryIndex hcur hk hp] at hfound
  obtain ⟨kind, hres⟩ := exists_resolve_iff.2
    ⟨isRelative_of_marked (preferredSpecifier_marked hcur hp), hfound⟩
  exact leadsTo_iff.2 ⟨_, hres, rfl⟩

end

/-- In an index that is built up from regular entries, the canonical specifier of whatever a
specifier names starts with `./` or `../` and names the same file. -/
theorem canonicalSpecifier_leads_back {entries : List FileEntry}
    (he : ∀ entry ∈ entries, entry.Regular) (hcur : Clean current)
    (h : resolve (FileIndex.ofList entries) current specifier = .found r) :
    (['.', '/'] <+: canonicalSpecifier (FileIndex.ofList entries) current r ∨
      ['.', '.', '/'] <+: canonicalSpecifier (FileIndex.ofList entries) current r) ∧
    ∃ kind, resolve (FileIndex.ofList entries) current
      (canonicalSpecifier (FileIndex.ofList entries) current r) = .found ⟨r.entry, kind⟩ := by
  have hi := (FileIndex.regular_ofList he).toNormal
  have hmem := mem_entries_of_resolve h
  exact ⟨canonicalSpecifier_marked hi hcur.normal hmem,
    resolve_canonicalSpecifier hi hcur.normal hmem⟩

/-- A name of dots in front of an extension, reached from above the root, is led back to. -/
theorem canonicalSpecifier_dots_leads_back :
    resolve (FileIndex.ofPaths ["...ts".toList]) "a/App.tsx".toList "../..".toList =
        .found ⟨FileEntry.ofPath "...ts".toList, .direct⟩ ∧
      ∃ kind, resolve (FileIndex.ofPaths ["...ts".toList]) "a/App.tsx".toList
        (canonicalSpecifier (FileIndex.ofPaths ["...ts".toList]) "a/App.tsx".toList
          ⟨FileEntry.ofPath "...ts".toList, .direct⟩) =
            .found ⟨FileEntry.ofPath "...ts".toList, kind⟩ := by
  have hres : resolve (FileIndex.ofPaths ["...ts".toList]) "a/App.tsx".toList "../..".toList =
      .found ⟨FileEntry.ofPath "...ts".toList, .direct⟩ := by decide
  exact ⟨hres, (canonicalSpecifier_leads_back
    (FileIndex.regular_ofPath_of_mem_map (by decide)) (by decide) hres).2⟩

end TrueCase

import TrueCase.Proofs.FileSystem.SourceName
import TrueCase.Proofs.Import.Resolution

/-!
# Specifiers that lead above the root

Steps that lead above the root stay in front of the path that a specifier leads to, and the path of
no file starts with one. But an extension is put behind whatever a path ends in, and behind a single
step up it makes the name of a file in the root: two dots and the extension. Such a file is found by
a specifier that leads to the directory above the root, and by nothing else that leads out.

## Main statements

* `lower_ne_of_above`: no file has a path above the root, whatever its case.
* `head?_segments_of_mem_candidates`: the candidates of a path above the root.
* `resolve_above_eq_notFound_iff`: when a specifier that leads above the root finds nothing.
-/

namespace TrueCase

open TrueCase.Path

theorem lower_dotDot : Text.lower dotDot = dotDot := by
  decide

/-- No clean path has the lower-case form of one that starts with a step up. -/
theorem lower_ne_of_above {actual c : Text} (ha : Clean actual)
    (hc : (segments c).head? = some dotDot) : actual.lower ≠ c.lower := by
  intro h
  have hfirst := congrArg (fun p => (segments p).head?) h
  simp only [Text.segments_lower, List.head?_map, hc, Option.map_some, lower_dotDot,
    Option.map_eq_some_iff] at hfirst
  obtain ⟨s, hs, hlower⟩ := hfirst
  obtain rfl := (Text.lower_eq_iff (by simp)).1 hlower
  exact (ha _ (List.mem_of_head? hs)).2.2 rfl

/-- The candidates of a path above the root start with a step up as well, unless they are the two
dots of a single one with an extension behind. -/
theorem head?_segments_of_mem_candidates {target c : Text}
    (habove : (segments target).head? = some dotDot) (hc : c ∈ candidates target) :
    (segments c).head? = some dotDot ∨
      target = dotDot ∧ ∃ e : Extension, c = dotDot ++ e.suffix := by
  rcases List.mem_append.1 hc with hc | hc
  · rcases mem_directCandidates.1 hc with rfl | ⟨e, rfl⟩
    · exact .inl habove
    · obtain ⟨rest, hrest⟩ := List.head?_eq_some_iff.1 habove
      cases rest with
      | nil =>
        have htarget : target = dotDot := by
          rw [← ofSegments_segments target, hrest, ofSegments_singleton]
        exact .inr ⟨htarget, e, by rw [htarget]⟩
      | cons s rest =>
        -- the extension goes to a later segment
        left
        rw [segments_append target e.slash_not_mem_suffix, hrest]
        rfl
  · obtain ⟨e, rfl⟩ := mem_directoryCandidates.1 hc
    left
    have hne : target ≠ [] := by
      rintro rfl
      cases habove
    rw [segments_indexFile, if_neg hne, List.head?_append_of_ne_nil _ (segments_ne_nil target),
      habove]

theorem toNat_lt_of_mem_suffix {e : Extension} {c : Char} (h : c ∈ e.suffix) : c.toNat < 0x80 := by
  have hall : e.suffix.all (·.toNat < 0x80) = true := by cases e <;> decide
  simpa using List.all_eq_true.1 hall c h

/-- What stands before an extension is known from the lower-case form, if that has no letters
there. -/
theorem eq_of_lower_append_suffix_eq {stem x : Text} {e f : Extension}
    (hx : ∀ c ∈ x, c.toNat < 0x41) (h : (stem ++ f.suffix).lower = x ++ e.suffix) :
    stem = x ∧ f = e := by
  have hascii : ∀ c ∈ x ++ e.suffix, c.toNat < 0x80 := by
    intro c hc
    rcases List.mem_append.1 hc with hc | hc
    · exact Nat.lt_trans (hx c hc) (by decide)
    · exact toNat_lt_of_mem_suffix hc
  have hσ : 'Σ' ∉ stem := by
    intro hσ
    rcases Text.mem_lower_of_sigma_mem (List.mem_append_left f.suffix hσ) with hl | hl
    · exact absurd (hascii 'σ' (h ▸ hl)) (by decide)
    · exact absurd (hascii 'ς' (h ▸ hl)) (by decide)
  rw [Text.lower_append_of_sigma_not_mem hσ (sigma_not_mem_suffix f),
    (settled_suffix f).lower_eq] at h
  obtain rfl := Extension.eq_of_append_suffix_eq h
  exact ⟨(Text.lower_eq_iff hx).1 (List.append_cancel_right h), rfl⟩

/-- A source file with the lower-case form of two dots and an extension has just that for its
path. -/
theorem eq_of_lower_eq_dotDot_suffix {actual : Text} {e : Extension} (ha : Clean actual)
    (hsource : isSourceFile (RawPath.ofText actual) = true)
    (h : actual.lower = (dotDot ++ e.suffix).lower) : actual = dotDot ++ e.suffix := by
  have hlower : actual.lower = dotDot ++ e.suffix := by
    rw [h]
    cases e <;> decide
  have hslash : '/' ∉ actual := by
    rw [← Text.mem_lower_iff (by decide), hlower]
    cases e <;> decide
  have hname : fileName actual = actual := by
    rw [fileName, segments_eq_singleton hslash]
    rfl
  obtain ⟨stem, f, -, hstem⟩ := (RawPath.isSourceFile_ofText_iff ha).1 hsource
  rw [hname] at hstem
  rw [hstem] at hlower
  obtain ⟨rfl, rfl⟩ := eq_of_lower_append_suffix_eq (by simp) hlower
  exact hstem

theorem get?_candidates_eq_none_iff {index : FileIndex} {target : Text} :
    (∀ c ∈ candidates target, index.get? c = none) ↔
      (directCandidates target).findSome? index.get? = none ∧
        (directoryCandidates target).findSome? index.get? = none := by
  rw [List.findSome?_eq_none_iff, List.findSome?_eq_none_iff, candidates, List.forall_mem_append]

/-- A relative specifier that leads above the root finds nothing, unless it leads to the directory
above the root itself and a source file in the root has two dots and its extension for a name. -/
theorem resolve_above_eq_notFound_iff {index : FileIndex} (hi : index.Regular)
    (hsource : ∀ entry ∈ index.entries, isSourceFile (RawPath.ofText entry.actualPath) = true)
    {current specifier : Text} (hrel : isRelative specifier = true)
    (habove : (segments (targetOf current specifier)).head? = some dotDot) :
    resolve index current specifier = .notFound ↔
      ¬(targetOf current specifier = dotDot ∧
        ∃ entry ∈ index.entries, ∃ e : Extension, entry.actualPath = dotDot ++ e.suffix) := by
  rw [resolve_eq_notFound_iff hrel, ← get?_candidates_eq_none_iff]
  generalize targetOf current specifier = target at habove
  constructor
  · rintro hnone ⟨rfl, entry, hentry, e, hactual⟩
    have hc : dotDot ++ e.suffix ∈ candidates dotDot :=
      List.mem_append_left _ (mem_directCandidates.2 (.inr ⟨e, rfl⟩))
    have hget := FileIndex.get?_actualPath hi.toNormal hentry
    rw [hactual, hnone _ hc] at hget
    cases hget
  · intro hnot c hc
    refine Option.eq_none_iff_forall_ne_some.2 fun entry hget => ?_
    obtain ⟨hentry, hlower⟩ := (FileIndex.get?_eq_some_iff hi.toNormal).1 hget
    have hclean := (hi entry hentry).clean
    rcases head?_segments_of_mem_candidates habove hc with hhead | ⟨rfl, e, rfl⟩
    · exact lower_ne_of_above hclean hhead hlower
    · exact hnot ⟨rfl, entry, hentry, e,
        eq_of_lower_eq_dotDot_suffix hclean (hsource entry hentry) hlower⟩

/-- The index of the samples: a file that is named by two dots and an extension, and one below a
directory. -/
def dotsIndex : FileIndex :=
  FileIndex.ofPaths ["...js".toList, "pages/Home.tsx".toList]

theorem regular_dotsIndex : dotsIndex.Regular :=
  FileIndex.regular_ofPaths (by decide)

theorem isSourceFile_of_mem_dotsIndex :
    ∀ entry ∈ dotsIndex.entries, isSourceFile (RawPath.ofText entry.actualPath) = true := by
  decide

/-- Two directories above the root nothing is found, though there is a file with such a name. -/
theorem resolve_two_above :
    resolve dotsIndex "pages/Home.tsx".toList "../../..".toList = .notFound ∧
      targetOf "pages/Home.tsx".toList "../../..".toList = "../..".toList := by
  have htarget : targetOf "pages/Home.tsx".toList "../../..".toList = "../..".toList := by decide
  refine ⟨(resolve_above_eq_notFound_iff regular_dotsIndex isSourceFile_of_mem_dotsIndex
    (by decide) (by decide)).2 ?_, htarget⟩
  rw [htarget]
  exact fun h => absurd h.1 (by decide)

/-- The directory above the root is taken for the file of that name. -/
theorem resolve_one_above :
    dotsIndex.Regular ∧
      (∀ entry ∈ dotsIndex.entries, isSourceFile (RawPath.ofText entry.actualPath) = true) ∧
      Clean "pages/Home.tsx".toList ∧ isRelative "../..".toList = true ∧
      (segments (targetOf "pages/Home.tsx".toList "../..".toList)).head? = some dotDot ∧
      resolve dotsIndex "pages/Home.tsx".toList "../..".toList =
        .found ⟨FileEntry.ofPath "...js".toList, .direct⟩ :=
  ⟨regular_dotsIndex, isSourceFile_of_mem_dotsIndex, by decide, by decide, by decide, by decide⟩

end TrueCase

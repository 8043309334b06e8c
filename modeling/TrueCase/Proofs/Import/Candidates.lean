import TrueCase.Import.Resolution
import TrueCase.Proofs.Path.Relative
import TrueCase.Proofs.Text.LowerCase

/-!
# Candidates

A target can stand for nine paths. They differ even without regard to case, so a file that is found
by one of them says by which. A path that is cut short to its canonical form is among the candidates
of what is left of it, unless what is left is made of dots; then no candidate comes back to it.

## Main definitions

* `candidates`: the paths that a target can stand for, in the order in which they are tried.
* `indexFile`: the index file of a directory.

## Main statements

* `eq_of_lower_eq`: no two candidates of a target have the same lower-case form.
* `eq_actual_of_lower_eq`: a file without its extension is found again under its own path only.
* `lower_eq_indexFile`: what a path has in common with an index file.
-/

namespace TrueCase

open TrueCase.Path

/-- The paths that `target` can stand for, in the order in which they are tried. -/
def candidates (target : Text) : List Text :=
  directCandidates target ++ directoryCandidates target

/-- The index file with the given extension of the directory `target`. -/
def indexFile (target : Text) (e : Extension) : Text :=
  (if target = [] then "index".toList else target ++ "/index".toList) ++ e.suffix

theorem mem_directCandidates {target c : Text} : c ∈ directCandidates target ↔
    c = target ∨ ∃ e : Extension, c = target ++ e.suffix := by
  simp only [directCandidates, List.mem_cons, List.mem_map, eq_comm (a := c)]
  exact or_congr Iff.rfl ⟨fun ⟨e, _, h⟩ => ⟨e, h⟩, fun ⟨e, h⟩ => ⟨e, e.mem_all, h⟩⟩

theorem directoryCandidates_eq (target : Text) :
    directoryCandidates target = Extension.all.map (indexFile target) :=
  rfl

theorem mem_directoryCandidates {target c : Text} : c ∈ directoryCandidates target ↔
    ∃ e : Extension, c = indexFile target e := by
  simp only [directoryCandidates_eq, List.mem_map, eq_comm (a := c)]
  exact ⟨fun ⟨e, _, h⟩ => ⟨e, h⟩, fun ⟨e, h⟩ => ⟨e, e.mem_all, h⟩⟩

/-! ## Without regard to case -/

set_option maxRecDepth 20000 in
theorem settled_suffix (e : Extension) : Text.Settled e.suffix := by
  intro b
  cases e <;> cases b <;> decide

/-- The name of an index file. -/
def indexName (e : Extension) : Text :=
  ['i', 'n', 'd', 'e', 'x'] ++ e.suffix

set_option maxRecDepth 20000 in
theorem settled_indexName (e : Extension) : Text.Settled (indexName e) := by
  intro b
  cases e <;> cases b <;> decide

theorem slash_not_mem_indexName (e : Extension) : '/' ∉ indexName e := by
  cases e <;> decide

theorem indexName_injective {e f : Extension} (h : indexName e = indexName f) : e = f :=
  Extension.eq_of_append_suffix_eq h

theorem indexFile_nil (e : Extension) : indexFile [] e = indexName e := by
  cases e <;> decide

theorem indexFile_of_ne_nil {target : Text} (h : target ≠ []) (e : Extension) :
    indexFile target e = target ++ '/' :: indexName e := by
  have hslash : "/index".toList = '/' :: ['i', 'n', 'd', 'e', 'x'] := by decide
  rw [indexFile, if_neg h, hslash, indexName]
  simp

set_option maxRecDepth 20000 in
theorem settled_slash_indexName (e : Extension) : Text.Settled ('/' :: indexName e) := by
  intro b
  cases e <;> cases b <;> decide

/-- Each candidate is the target with a settled ending. -/
theorem exists_ending {target c : Text} (h : c ∈ candidates target) :
    ∃ x, Text.Settled x ∧ c = target ++ x := by
  rcases List.mem_append.1 h with h | h
  · rcases mem_directCandidates.1 h with rfl | ⟨e, rfl⟩
    · exact ⟨[], fun _ => rfl, by simp⟩
    · exact ⟨e.suffix, settled_suffix e, rfl⟩
  · obtain ⟨e, rfl⟩ := mem_directoryCandidates.1 h
    by_cases ht : target = []
    · subst ht
      exact ⟨indexName e, settled_indexName e, indexFile_nil e⟩
    · exact ⟨'/' :: indexName e, settled_slash_indexName e, indexFile_of_ne_nil ht e⟩

/-- No two candidates of a target have the same lower-case form. -/
theorem eq_of_lower_eq {target c d : Text} (hc : c ∈ candidates target)
    (hd : d ∈ candidates target) (h : c.lower = d.lower) : c = d := by
  obtain ⟨x, hx, rfl⟩ := exists_ending hc
  obtain ⟨y, hy, rfl⟩ := exists_ending hd
  rw [Text.eq_of_lower_append_eq hx hy h]

theorem segments_indexFile (target : Text) (e : Extension) : segments (indexFile target e) =
    (if target = [] then [] else segments target) ++ [indexName e] := by
  have hname : segments (indexName e) = [indexName e] :=
    segments_eq_singleton (slash_not_mem_indexName e)
  by_cases ht : target = []
  · subst ht
    rw [indexFile_nil]
    exact hname
  · rw [indexFile_of_ne_nil ht, segments_append_slash, hname, if_neg ht]

theorem fileName_indexFile (target : Text) (e : Extension) :
    fileName (indexFile target e) = indexName e := by
  rw [fileName, segments_indexFile, List.getLastD_concat]

theorem indexFile_ofSegments {ds : List Text} (hd : ∀ d ∈ ds, IsName d) (e : Extension) :
    indexFile (ofSegments ds) e = ofSegments (ds ++ [indexName e]) := by
  by_cases h0 : ds = []
  · subst h0
    simpa [ofSegments] using indexFile_nil e
  · rw [indexFile_of_ne_nil (mt (ofSegments_eq_nil hd).1 h0), ofSegments_append h0 (by simp),
      ofSegments_singleton]

/-- A clean path with the name of an index file is the index file of its directory. -/
theorem eq_indexFile_of_fileName {path : Text} {e : Extension} (h : Clean path)
    (hname : fileName path = indexName e) : path = indexFile (parent path) e := by
  obtain ⟨ds, n, hd, hn, rfl⟩ := h.exists_eq
  rw [fileName_ofSegments hd hn] at hname
  rw [parent_ofSegments hd hn, hname, indexFile_ofSegments hd]

/-- What a path has in common with an index file, apart from case. -/
theorem lower_eq_indexFile {actual target : Text} {e : Extension}
    (h : actual.lower = (indexFile target e).lower) :
    (parent actual).lower = target.lower ∧ (fileName actual).lower = indexName e := by
  have hsegs := congrArg segments h
  rw [Text.segments_lower, Text.segments_lower, segments_indexFile,
    ← dropLast_segments_concat actual,
    List.map_append, List.map_append] at hsegs
  obtain ⟨hdirs, hname⟩ := List.append_inj' hsegs (by simp)
  refine ⟨?_, ?_⟩
  · rw [parent, Text.lower_ofSegments, hdirs, ← Text.lower_ofSegments]
    split
    · next ht => simp [ht, ofSegments]
    · rw [ofSegments_segments]
  · simpa [(settled_indexName e).lower_eq] using hname

/-- The case of a directory does not matter to its index files. -/
theorem lower_indexFile (target : Text) (e : Extension) :
    (indexFile target e).lower = indexFile target.lower e := by
  by_cases ht : target = []
  · subst ht
    rw [Text.lower_nil, indexFile_nil, (settled_indexName e).lower_eq]
  · rw [indexFile_of_ne_nil ht, indexFile_of_ne_nil (mt Text.lower_eq_nil.1 ht),
      Text.lower_append_slash, (settled_indexName e).lower_eq]

/-- A clean path is an index file, apart from case, by its directory and its name. -/
theorem lower_eq_indexFile_iff {actual target : Text} {e : Extension} (ha : Clean actual) :
    actual.lower = (indexFile target e).lower ↔
      (parent actual).lower = target.lower ∧ (fileName actual).lower = indexName e := by
  refine ⟨lower_eq_indexFile, ?_⟩
  rintro ⟨hparent, hname⟩
  obtain ⟨ds, n, hd, hn, rfl⟩ := ha.exists_eq
  rw [parent_ofSegments hd hn] at hparent
  rw [fileName_ofSegments hd hn] at hname
  rw [lower_indexFile, ← hparent, ← lower_indexFile, indexFile_ofSegments hd, Text.lower_ofSegments,
    Text.lower_ofSegments, List.map_append, List.map_append, List.map_singleton, List.map_singleton,
    hname, (settled_indexName e).lower_eq]

theorem sigma_not_mem_suffix (e : Extension) : 'Σ' ∉ e.suffix := by
  cases e <;> decide

/-- Without a capital sigma the candidates of a target go over into those of its lower-case form. -/
theorem map_lower_candidates {target : Text} (h : 'Σ' ∉ target) :
    (candidates target).map Text.lower = candidates target.lower := by
  have hsuffix (e : Extension) : (target ++ e.suffix).lower = target.lower ++ e.suffix := by
    rw [Text.lower_append_of_sigma_not_mem h (sigma_not_mem_suffix e), (settled_suffix e).lower_eq]
  simp only [candidates, directCandidates, directoryCandidates_eq, List.map_append, List.map_cons,
    List.map_map, Function.comp_def, hsuffix, lower_indexFile]

/-! ## A path and what is left of it -/

theorem count_slash_of_mem_directCandidates {target c : Text} (h : c ∈ directCandidates target) :
    c.count '/' = target.count '/' := by
  rcases mem_directCandidates.1 h with rfl | ⟨e, rfl⟩
  · rfl
  · simp [List.count_eq_zero_of_not_mem e.slash_not_mem_suffix]

theorem clean_of_lower_fileName {actual : Text} {e : Extension} (ha : Path.Normal actual)
    (hname : (fileName actual).lower = indexName e) : Clean actual := by
  rcases ha with rfl | ha
  · cases e <;> cases hname
  · exact ha

/-- What is left of the name of an index file without its extension makes an index file with any
extension. -/
theorem lower_dropExtension_append {n : Text} {e : Extension} (hname : n.lower = indexName e)
    (hdrop : dropExtension n ≠ n) (f : Extension) :
    (dropExtension n ++ f.suffix).lower = indexName f := by
  have hσ : 'Σ' ∉ n := by
    intro hσ
    rcases Text.mem_lower_of_sigma_mem hσ with h | h <;> rw [hname] at h <;> revert h <;>
      cases e <;> decide
  obtain ⟨g, hg⟩ := (dropExtension_cases n).resolve_right hdrop
  have hstem : 'Σ' ∉ dropExtension n := fun h => hσ (mem_of_mem_dropExtension h)
  have hlower (x : Extension) :
      (dropExtension n ++ x.suffix).lower = (dropExtension n).lower ++ x.suffix := by
    rw [Text.lower_append_of_sigma_not_mem hstem (sigma_not_mem_suffix x),
      (settled_suffix x).lower_eq]
  rw [hg, hlower, indexName] at hname
  obtain rfl := Extension.eq_of_append_suffix_eq hname
  rw [hlower, List.append_cancel_right hname, indexName]

/-- The directory of an index file comes back to that index file only. -/
theorem eq_indexFile_of_lower_eq {actual c : Text} {e : Extension} (ha : Path.Normal actual)
    (hname : (fileName actual).lower = indexName e) (hc : c ∈ candidates (parent actual))
    (h : c.lower = actual.lower) : c = indexFile (parent actual) e := by
  have hclean := clean_of_lower_fileName ha hname
  rcases List.mem_append.1 hc with hc | hc
  · exfalso
    obtain ⟨ds, n, hd, hn, rfl⟩ := hclean.exists_eq
    rw [fileName_ofSegments hd hn] at hname
    rw [parent_ofSegments hd hn] at hc
    -- a direct candidate of the directory has one slash less than the file, if there is one
    have hcount := count_slash_of_mem_directCandidates hc
    rw [← Text.count_slash_lower c, h, Text.count_slash_lower, count_slash_ofSegments_concat hd hn,
      count_slash_ofSegments hd] at hcount
    obtain rfl : ds = [] := List.length_eq_zero_iff.1 (by omega)
    rw [List.nil_append, ofSegments_singleton, hname] at h
    rcases mem_directCandidates.1 hc with rfl | ⟨f, rfl⟩
    · revert h
      cases e <;> decide
    · have hf : (ofSegments [] ++ f.suffix).lower = f.suffix := (settled_suffix f).lower_eq
      rw [hf] at h
      revert h
      cases e <;> cases f <;> decide
  · obtain ⟨f, rfl⟩ := mem_directoryCandidates.1 hc
    obtain ⟨-, hf⟩ := lower_eq_indexFile h.symm
    rw [indexName_injective (hname.symm.trans hf)]

theorem count_slash_of_mem_candidates {target c : Text} (h : c ∈ candidates target) :
    c.count '/' ≤ target.count '/' + 1 ∧ (target = [] → c.count '/' = 0) := by
  rcases List.mem_append.1 h with h | h
  · rw [count_slash_of_mem_directCandidates h]
    exact ⟨by omega, by rintro rfl; rfl⟩
  · obtain ⟨e, rfl⟩ := mem_directoryCandidates.1 h
    have hindex : (indexName e).count '/' = 0 :=
      List.count_eq_zero_of_not_mem (slash_not_mem_indexName e)
    by_cases ht : target = []
    · subst ht
      rw [indexFile_nil, hindex]
      exact ⟨Nat.zero_le _, fun _ => rfl⟩
    · rw [indexFile_of_ne_nil ht, List.count_append, List.count_cons_self, hindex]
      exact ⟨by omega, fun h0 => absurd h0 ht⟩

/-- An index file is no direct candidate of its directory. -/
theorem indexFile_not_mem_directCandidates (target : Text) (e : Extension) :
    indexFile target e ∉ directCandidates target := by
  intro h
  have hcount := count_slash_of_mem_directCandidates h
  by_cases ht : target = []
  · subst ht
    revert h
    cases e <;> decide
  · rw [indexFile_of_ne_nil ht, List.count_append, List.count_cons_self] at hcount
    omega

set_option maxRecDepth 20000 in
theorem lower_ne_indexName {m : Text} (hm : m = [] ∨ m = dot) (e f : Extension) :
    (m ++ e.suffix).lower ≠ indexName f := by
  rcases hm with rfl | rfl <;> cases e <;> cases f <;> decide

set_option maxRecDepth 20000 in
theorem lower_dot_suffix_ne (e : Extension) :
    ∀ c ∈ candidates [], c.lower ≠ (dot ++ e.suffix).lower := by
  cases e <;> decide

section

variable {ds : List Text} {c m : Text} {e : Extension}

/-- The candidates of a directory lie no deeper than the files in it. -/
theorem count_slash_le_length (hd : ∀ d ∈ ds, IsName d) (hc : c ∈ candidates (ofSegments ds)) :
    c.count '/' ≤ ds.length := by
  obtain ⟨hle, hroot⟩ := count_slash_of_mem_candidates hc
  rw [count_slash_ofSegments hd] at hle
  rw [ofSegments_eq_nil hd] at hroot
  by_cases h0 : ds = []
  · simp [hroot h0]
  · have := List.length_pos_of_ne_nil h0
    omega

/-- No candidate of a directory below the root has the lower-case form of a file in it that is named
by an extension, or by a dot and an extension. -/
theorem lower_ne_of_stay (hd : ∀ d ∈ ds, IsName d) (hds : ds ≠ []) (hm : m = [] ∨ m = dot)
    (hn : IsName (m ++ e.suffix)) (hc : c ∈ candidates (ofSegments ds)) :
    c.lower ≠ (ofSegments (ds ++ [m ++ e.suffix])).lower := by
  intro h
  rcases List.mem_append.1 hc with hc | hc
  · have hcount := count_slash_of_mem_directCandidates hc
    rw [← Text.count_slash_lower, h, Text.count_slash_lower, count_slash_ofSegments_concat hd hn,
      count_slash_ofSegments hd] at hcount
    have := List.length_pos_of_ne_nil hds
    omega
  · obtain ⟨f, rfl⟩ := mem_directoryCandidates.1 hc
    obtain ⟨-, hf⟩ := lower_eq_indexFile h.symm
    rw [fileName_ofSegments hd hn] at hf
    exact lower_ne_indexName hm e f hf

/-- No candidate of the place to which dots lead has the lower-case form of the path whose name they
are left from, unless dots and extension make a candidate of the root. -/
theorem lower_ne_of_dots (hd : ∀ d ∈ ds, IsName d) (hm : m = [] ∨ m = dot ∨ m = dotDot)
    (hn : IsName (m ++ e.suffix)) (hc : c ∈ candidates (ofSegments (step ds.reverse m).reverse))
    (hne : ds ≠ [] ∨ m = dot) : c.lower ≠ (ofSegments (ds ++ [m ++ e.suffix])).lower := by
  by_cases hup : m = dotDot
  · subst hup
    have hds : ds ≠ [] := hne.resolve_right (by decide)
    obtain ⟨outer, d, rfl⟩ := List.eq_nil_or_concat' ds |>.resolve_left hds
    rw [List.reverse_append, List.reverse_singleton, List.singleton_append,
      step_dotDot_name (hd d (by simp)), List.reverse_reverse] at hc
    intro h
    -- one directory up there are too few slashes
    have hcount := count_slash_le_length (fun x hx => hd x (by simp [hx])) hc
    rw [← Text.count_slash_lower, h, Text.count_slash_lower, count_slash_ofSegments_concat hd hn,
      List.length_append, List.length_singleton] at hcount
    omega
  · have hm' : m = [] ∨ m = dot := by tauto
    have hstay : step ds.reverse m = ds.reverse := by
      rcases hm' with rfl | rfl <;> simp
    rw [hstay, List.reverse_reverse] at hc
    by_cases hds : ds = []
    · subst hds
      obtain rfl : m = dot := hne.resolve_left (by simp)
      rw [List.nil_append, ofSegments_singleton]
      exact lower_dot_suffix_ne e c hc
    · exact lower_ne_of_stay hd hds hm' hn hc

end

/-- A file whose extension is left out is found again under its own path only. -/
theorem eq_actual_of_lower_eq {actual c : Text} (ha : Clean actual)
    (hc : c ∈ candidates (join (parent actual) (dropExtension (fileName actual))))
    (h : c.lower = actual.lower) : c = actual ∧
      actual ∈ directCandidates (join (parent actual) (dropExtension (fileName actual))) := by
  suffices hmem : actual ∈ directCandidates (join (parent actual)
      (dropExtension (fileName actual))) from
    ⟨eq_of_lower_eq hc (List.mem_append_left _ hmem) h, hmem⟩
  obtain ⟨ds, n, hd, hn, rfl⟩ := ha.exists_eq
  rw [fileName_ofSegments hd hn, parent_ofSegments hd hn] at hc ⊢
  have hm : '/' ∉ dropExtension n := fun hm => hn.slash_not_mem (mem_of_mem_dropExtension hm)
  rw [join_segment hd hm] at hc ⊢
  generalize hmn : dropExtension n = m at hc hm ⊢
  have hx : n = m ∨ ∃ e : Extension, n = m ++ e.suffix := by
    rcases dropExtension_cases n with ⟨e, he⟩ | he
    · exact Or.inr ⟨e, hmn ▸ he⟩
    · exact Or.inl (hmn ▸ he.symm)
  by_cases hname : IsName m
  · rw [step_name hname, List.reverse_cons, List.reverse_reverse, mem_directCandidates]
    rcases hx with rfl | ⟨e, rfl⟩
    · exact Or.inl rfl
    · exact Or.inr ⟨e, ofSegments_append_concat ds m e.suffix⟩
  · rcases hx with rfl | ⟨e, rfl⟩
    · exact absurd hn hname
    · have hdots : m = [] ∨ m = dot ∨ m = dotDot := by
        by_contra hno
        rw [not_or, not_or] at hno
        exact hname ⟨hno.1, hno.2.1, hno.2.2, hm⟩
      by_cases hne : ds ≠ [] ∨ m = dot
      · exact absurd h (lower_ne_of_dots hd hdots hn hc hne)
      · rw [not_or, not_not] at hne
        obtain ⟨rfl, hdot⟩ := hne
        refine mem_directCandidates.2 (Or.inr ⟨e, ?_⟩)
        rcases hdots with rfl | rfl | rfl
        · simp [ofSegments]
        · exact absurd rfl hdot
        · simp [step]

end TrueCase

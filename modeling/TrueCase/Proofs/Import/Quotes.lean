import TrueCase.Proofs.Import.Fix
import TrueCase.Proofs.Text.LowerCase

/-!
# Quotes in corrected specifiers

A specifier stands between quotes and has none itself. What takes its place is read off two paths:
that of the imported file and that of the importing one. So a quote can get into it from a name on
the way to the imported file, and such a name has been found from the directory of the importing
file, where it stands in another spelling. That is the only way in which a quote gets in.

## Main definitions

* `HoldsQuote`: a text with a quote in it.

## Main statements

* `holdsQuote_explicit`: the quotes of an explicit relative path are those of the names that the
  base does not share.
* `holdsQuote_canonicalSpecifier`: the same of the canonical specifier of a file.
* `prefix_of_prefix_join`: the names with quotes that a specifier leads through are those of the
  importing directory.
* `canonicalSpecifier_ne_append_quote`: no quote is put behind what stands there already.
* `holdsQuote_new_iff`: which fixes put a quote into a source.
-/

namespace TrueCase

open TrueCase.Path

/-- A text with a quote in it. -/
def HoldsQuote (t : Text) : Prop :=
  ∃ c ∈ t, isQuote c = true

instance (t : Text) : Decidable (HoldsQuote t) :=
  List.decidableBEx (fun c => isQuote c = true) t

/-! ## Texts -/

theorem eq_of_isQuote {c : Char} (h : isQuote c = true) : c = '\'' ∨ c = '"' := by
  obtain ⟨quote, hq⟩ := Option.isSome_iff_exists.1 h
  rw [Quote.ofChar?_eq_some_iff.1 hq]
  cases quote
  · exact Or.inl rfl
  · exact Or.inr rfl

theorem Plain.not_holdsQuote {t : Text} (h : Plain t) : ¬ HoldsQuote t := by
  rintro ⟨c, hc, hq⟩
  rw [h.2 c hc] at hq
  cases hq

theorem holdsQuote_append {s t : Text} :
    HoldsQuote (s ++ t) ↔ HoldsQuote s ∨ HoldsQuote t := by
  simp only [HoldsQuote, List.mem_append, or_and_right, exists_or]

theorem holdsQuote_lower {t : Text} : HoldsQuote t.lower ↔ HoldsQuote t := by
  refine exists_congr fun c => and_congr_left fun hq => Text.mem_lower_iff ?_
  rcases eq_of_isQuote hq with rfl | rfl <;> decide

theorem holdsQuote_congr {s t : Text} (h : s.lower = t.lower) : HoldsQuote s ↔ HoldsQuote t := by
  rw [← holdsQuote_lower, h, holdsQuote_lower]

theorem not_holdsQuote_suffix (e : Extension) : ¬ HoldsQuote e.suffix := by
  cases e <;> decide

theorem not_holdsQuote_indexName (e : Extension) : ¬ HoldsQuote (indexName e) := by
  cases e <;> decide

theorem holdsQuote_append_suffix {t : Text} {e : Extension} :
    HoldsQuote (t ++ e.suffix) ↔ HoldsQuote t := by
  rw [holdsQuote_append]
  exact or_iff_left (not_holdsQuote_suffix e)

theorem holdsQuote_of_mem_directCandidates {t c : Text} (h : c ∈ directCandidates t) :
    HoldsQuote c ↔ HoldsQuote t := by
  rcases mem_directCandidates.1 h with rfl | ⟨e, rfl⟩
  · rfl
  · exact holdsQuote_append_suffix

theorem holdsQuote_dropExtension {p : Text} : HoldsQuote (dropExtension p) ↔ HoldsQuote p := by
  rcases dropExtension_cases p with ⟨e, he⟩ | hp
  · conv_rhs => rw [he]
    exact holdsQuote_append_suffix.symm
  · rw [hp]

theorem holdsQuote_ofSegments {ss : List Text} :
    HoldsQuote (ofSegments ss) ↔ ∃ s ∈ ss, HoldsQuote s := by
  constructor
  · rintro ⟨c, hc, hq⟩
    rcases mem_of_mem_ofSegments hc with rfl | ⟨s, hs, hcs⟩
    · exact absurd hq (by decide)
    · exact ⟨s, hs, c, hcs, hq⟩
  · rintro ⟨s, hs, c, hc, hq⟩
    exact ⟨c, mem_ofSegments hs hc, hq⟩

/-! ## The way to a path -/

/-- Apart from steps up, the segments of the way between two places are those of the second, from
where the first leaves it. -/
theorem mem_way_iff {bs ts : List Text} {s : Text} (hs : s ≠ dotDot) :
    s ∈ way bs ts ↔ ∃ es, es ++ [s] <+: ts ∧ ¬ es ++ [s] <+: bs := by
  induction bs generalizing ts with
  | nil =>
    have hway : way [] ts = ts := by simp [way]
    simp only [hway, List.prefix_nil, List.append_eq_nil_iff, List.cons_ne_nil, and_false,
      not_false_eq_true, and_true]
    constructor
    · intro h
      obtain ⟨es, fs, rfl⟩ := List.append_of_mem h
      exact ⟨es, fs, by simp⟩
    · rintro ⟨es, fs, rfl⟩
      simp
  | cons b bs ih =>
    cases ts with
    | nil => simp [way, hs]
    | cons t ts =>
      by_cases hbt : b = t
      · -- both places lie below the same directory
        subst hbt
        rw [way, if_pos rfl, ih]
        constructor
        · rintro ⟨es, ht, hb⟩
          exact ⟨b :: es, by simpa using ht, by simpa using hb⟩
        · rintro ⟨es, ht, hb⟩
          cases es with
          | nil => simp_all
          | cons e es =>
            rw [List.cons_append, List.cons_prefix_cons] at ht hb
            obtain ⟨rfl, ht⟩ := ht
            exact ⟨es, ht, fun h => hb ⟨rfl, h⟩⟩
      · have hdots : s ∉ (b :: bs).map fun _ => dotDot := by simp [hs]
        rw [way, if_neg hbt, List.mem_append, or_iff_right hdots]
        constructor
        · intro h
          obtain ⟨es, fs, heq⟩ := List.append_of_mem h
          refine ⟨es, ⟨fs, by simp [heq]⟩, fun hb => hbt ?_⟩
          cases es <;> simp_all
        · rintro ⟨es, ht, -⟩
          exact ht.subset (by simp)

theorem holdsQuote_explicit {base target : Text} : HoldsQuote (explicit base target) ↔
    ∃ es e, es ++ [e] <+: names target ∧ HoldsQuote e ∧ ¬ es ++ [e] <+: names base := by
  have hmarks : HoldsQuote (explicit base target) ↔ HoldsQuote (relative base target) := by
    unfold explicit
    dsimp only
    split
    · next hnil =>
      rw [hnil]
      decide
    split
    · rw [holdsQuote_append]
      exact or_iff_left (by decide)
    split
    · rfl
    · exact (holdsQuote_append (s := ['.', '/'])).trans (or_iff_right (by decide))
  rw [hmarks, relative, holdsQuote_ofSegments]
  have hway {e : Text} (he : HoldsQuote e) : e ∈ way (names base) (names target) ↔
      ∃ es, es ++ [e] <+: names target ∧ ¬ es ++ [e] <+: names base := by
    refine mem_way_iff ?_
    rintro rfl
    exact absurd he (by decide)
  constructor
  · rintro ⟨e, he, hq⟩
    obtain ⟨es, ht, hb⟩ := (hway hq).1 he
    exact ⟨es, e, ht, hq, hb⟩
  · rintro ⟨es, e, ht, hq, hb⟩
    exact ⟨e, (hway hq).2 ⟨es, ht, hb⟩, hq⟩

/-! ## Where a specifier leads -/

theorem HoldsQuote.ne_nil {t : Text} (h : HoldsQuote t) : t ≠ [] := by
  rintro rfl
  exact absurd h (by decide)

theorem not_holdsQuote_of_mem_segments {t s : Text} (ht : ¬ HoldsQuote t) (hs : s ∈ segments t) :
    ¬ HoldsQuote s := by
  rintro ⟨c, hc, hq⟩
  exact ht ⟨c, mem_of_mem_segments hs hc, hq⟩

/-- A specifier that comes, without quotes, from some other place than its base leads through no
names with quotes but the first ones of that place. -/
theorem prefix_of_prefix_join_eq {base specifier : Text} {place ss : List Text}
    (hplace : (segments specifier).foldl step (names base).reverse = ss.foldl step place.reverse)
    (hss : ∀ s ∈ ss, ¬ HoldsQuote s) {ds : List Text} {d : Text} (hd : HoldsQuote d)
    (h : ds ++ [d] <+: segments (join base specifier)) : ds ++ [d] <+: place := by
  rcases segments_join base specifier with hsegs | hsegs <;> rw [hsegs] at h
  · have hmem : d ∈ [[]] := h.subset (by simp)
    exact absurd (List.mem_singleton.1 hmem) hd.ne_nil
  · rw [hplace] at h
    have hstart := prefix_of_prefix_foldl_step (P := fun s => ¬ HoldsQuote s) (by decide)
      (not_not.2 hd) hss h
    rwa [List.reverse_reverse] at hstart

/-- The names with quotes that a specifier without quotes leads through are the first ones of the
directory that it starts from. -/
theorem prefix_of_prefix_join {base specifier : Text} (hs : ¬ HoldsQuote specifier)
    {ds : List Text} {d : Text} (hd : HoldsQuote d)
    (h : ds ++ [d] <+: segments (join base specifier)) : ds ++ [d] <+: names base :=
  prefix_of_prefix_join_eq rfl (fun _ hmem => not_holdsQuote_of_mem_segments hs hmem) hd h

/-- A name with a quote in a candidate is a name of the target, but for an extension behind it. -/
theorem exists_prefix_of_candidate {target c : Text} (hc : c ∈ candidates target)
    {fs : List Text} {f : Text} (hf : HoldsQuote f) (h : fs ++ [f] <+: segments c) :
    ∃ d, fs ++ [d] <+: segments target ∧ f ∈ directCandidates d := by
  rcases List.mem_append.1 hc with hc | hc
  · rcases mem_directCandidates.1 hc with rfl | ⟨e, rfl⟩
    · exact ⟨f, h, List.mem_cons_self⟩
    · have htarget := dropLast_segments_concat target
      rw [segments_append target e.slash_not_mem_suffix, concat_prefix_concat_iff] at h
      rcases h with ⟨rfl, rfl⟩ | h
      · refine ⟨fileName target, ⟨[], ?_⟩, mem_directCandidates.2 (Or.inr ⟨e, rfl⟩)⟩
        rw [List.append_nil, htarget]
      · refine ⟨f, ?_, List.mem_cons_self⟩
        rw [← htarget]
        exact h.trans (List.prefix_append _ _)
  · obtain ⟨e, rfl⟩ := mem_directoryCandidates.1 hc
    refine ⟨f, ?_, List.mem_cons_self⟩
    rw [segments_indexFile, concat_prefix_concat_iff] at h
    rcases h with ⟨-, rfl⟩ | h
    · exact absurd hf (not_holdsQuote_indexName e)
    · split at h
      · simp at h
      · exact h

/-! ## Corrected specifiers -/

section

variable {index : FileIndex} {current specifier : Text} {r : Resolution}

/-- A canonical specifier has the quotes of the names on the way to its file that the importing
directory does not share. -/
theorem holdsQuote_canonicalSpecifier (hi : index.Regular)
    (h : resolve index current specifier = .found r) :
    HoldsQuote (canonicalSpecifier index current r) ↔
      ∃ es e, es ++ [e] <+: names r.entry.actualPath ∧ HoldsQuote e ∧
        ¬ es ++ [e] <+: names (parent current) := by
  rcases canonicalSpecifier_cases index current r with ⟨heq, -⟩ | ⟨heq, -⟩ <;> rw [heq]
  · unfold preferredSpecifier
    cases hk : r.kind with
    | direct => exact holdsQuote_dropExtension.trans holdsQuote_explicit
    | directoryIndex =>
      obtain ⟨e, he⟩ := exists_indexFile hi.toNormal h hk
      obtain ⟨-, hname⟩ := lower_eq_indexFile he
      obtain ⟨ds, n, hd, hn, hp⟩ := (hi r.entry (mem_entries_of_resolve h)).clean.exists_eq
      rw [hp, fileName_ofSegments hd hn] at hname
      have hnot : ¬ HoldsQuote n := by
        rw [← holdsQuote_lower, hname]
        exact not_holdsQuote_indexName e
      -- the name of the index file is left out, and has no quote
      refine holdsQuote_explicit.trans (exists₂_congr fun es x => ?_)
      rw [hp, parent_ofSegments hd hn, names_ofSegments hd,
        names_ofSegments (isName_of_mem_concat hd hn), concat_prefix_concat_iff]
      refine and_congr_left fun hx => (or_iff_right ?_).symm
      rintro ⟨-, rfl⟩
      exact hnot hx.1
  · exact holdsQuote_explicit

/-- Where two lists have the same image, so have their fronts. -/
theorem exists_prefix_of_map_eq {f : Text → Text} {xs ys es : List Text} {e : Text}
    (h : xs.map f = ys.map f) (hx : es ++ [e] <+: xs) :
    ∃ fs d, fs ++ [d] <+: ys ∧ fs.map f = es.map f ∧ f d = f e := by
  obtain ⟨rest, rfl⟩ := hx
  rw [List.map_append, eq_comm, List.map_eq_append_iff] at h
  obtain ⟨front, back, rfl, hfront, -⟩ := h
  rw [List.map_append, List.map_eq_append_iff] at hfront
  obtain ⟨fs, last, rfl, hfs, hlast⟩ := hfront
  obtain ⟨d, rfl, hd⟩ := List.map_eq_singleton_iff.1 hlast
  exact ⟨fs, d, List.prefix_append _ _, hfs, hd⟩

/-- The file that is found has a name with a quote where the target has one with the same lower-case
form, but for an extension, below directories with the same lower-case forms. -/
theorem exists_prefix_targetOf (hi : index.Regular)
    (h : resolve index current specifier = .found r) {es : List Text} {e : Text}
    (he : HoldsQuote e) (hfront : es ++ [e] <+: names r.entry.actualPath) :
    ∃ ds d, ds ++ [d] <+: segments (targetOf current specifier) ∧ HoldsQuote d ∧
      es.map Text.lower = ds.map Text.lower ∧ ∃ c ∈ directCandidates d, e.lower = c.lower := by
  obtain ⟨before, c, after, hc, hget, -⟩ := exists_candidate h
  have hlower := ((FileIndex.get?_eq_some_iff hi.toNormal).1 hget).2
  have hsegs := congrArg segments hlower
  rw [Text.segments_lower, Text.segments_lower] at hsegs
  rw [(hi r.entry (mem_entries_of_resolve h)).clean.names_eq] at hfront
  obtain ⟨fs, f, hfs, hmap, hf⟩ := exists_prefix_of_map_eq hsegs hfront
  have hquote : HoldsQuote f := (holdsQuote_congr hf).2 he
  have hmem : c ∈ candidates (targetOf current specifier) := hc ▸ by simp
  obtain ⟨d, hd, hfd⟩ := exists_prefix_of_candidate hmem hquote hfs
  have hdquote := (holdsQuote_of_mem_directCandidates hfd).1 hquote
  exact ⟨fs, d, hd, hdquote, hmap.symm, f, hfd, hf.symm⟩

/-- For a specifier without quotes that name of the target is one of the importing directory. -/
theorem exists_prefix_of_resolve (hi : index.Regular)
    (h : resolve index current specifier = .found r) (hs : ¬ HoldsQuote specifier)
    {es : List Text} {e : Text} (he : HoldsQuote e)
    (hfront : es ++ [e] <+: names r.entry.actualPath) :
    ∃ ds d, ds ++ [d] <+: names (parent current) ∧ HoldsQuote d ∧
      es.map Text.lower = ds.map Text.lower ∧ ∃ c ∈ directCandidates d, e.lower = c.lower := by
  obtain ⟨ds, d, hd, hdquote, hrest⟩ := exists_prefix_targetOf hi h he hfront
  exact ⟨ds, d, prefix_of_prefix_join hs hdquote hd, hdquote, hrest⟩

/-- Fronts of one list that have the same image are the same. -/
theorem eq_of_prefix_of_map_eq {f : Text → Text} {xs ds es : List Text} {d e : Text}
    (hd : ds ++ [d] <+: xs) (he : es ++ [e] <+: xs) (h : es.map f = ds.map f) :
    es ++ [e] = ds ++ [d] := by
  have hlen : (es ++ [e]).length = (ds ++ [d]).length := by
    simpa using congrArg List.length h
  exact (List.prefix_of_prefix_length_le he hd hlen.le).eq_of_length hlen

/-- A canonical specifier is the front of an explicit path, to the file or to its directory. -/
theorem exists_canonicalSpecifier_prefix_explicit (index : FileIndex) (current : Text)
    (ha : Clean r.entry.actualPath) : ∃ path, Path.Normal path ∧
      names path <+: names r.entry.actualPath ∧
      canonicalSpecifier index current r <+: explicit (parent current) path := by
  rcases canonicalSpecifier_cases index current r with ⟨heq, -⟩ | ⟨heq, -⟩ <;> rw [heq]
  · unfold preferredSpecifier
    cases r.kind with
    | direct => exact ⟨r.entry.actualPath, ha.normal, List.prefix_rfl, dropExtension_prefix_self _⟩
    | directoryIndex =>
      exact ⟨parent r.entry.actualPath, ha.normal_parent, names_parent_prefix_names ha,
        List.prefix_rfl⟩
  · exact ⟨r.entry.actualPath, ha.normal, List.prefix_rfl, List.prefix_rfl⟩

/-- A canonical specifier does not go on with a quote behind the specifier that it stands for. -/
theorem canonicalSpecifier_ne_append_quote (hi : index.Regular) (hcur : Clean current)
    (h : resolve index current specifier = .found r) (hs : ¬ HoldsQuote specifier) {c : Char}
    (hc : isQuote c = true) (v : Text) :
    canonicalSpecifier index current r ≠ specifier ++ c :: v := by
  intro heq
  have hclean := (hi r.entry (mem_entries_of_resolve h)).clean
  obtain ⟨path, hpath, hnames, rest, hexplicit⟩ :=
    exists_canonicalSpecifier_prefix_explicit index current hclean
  rw [heq, List.append_assoc, List.cons_append] at hexplicit
  have hmarks : c ≠ '.' ∧ c ≠ '/' := by
    rcases eq_of_isQuote hc with rfl | rfl <;> decide
  -- so the specifier comes from a directory that the importing one shares with the file
  obtain ⟨shared, ss, hbase, htarget, hss, hplace⟩ := exists_shared_of_explicit_eq
    hcur.normal_parent hpath hmarks.1 hmarks.2 hexplicit.symm
  have hquote : HoldsQuote (canonicalSpecifier index current r) := ⟨c, by simp [heq], hc⟩
  obtain ⟨es, e, hfront, he, hnot⟩ := (holdsQuote_canonicalSpecifier hi h).1 hquote
  obtain ⟨ds, d, hd, hdquote, hmap, -⟩ := exists_prefix_targetOf hi h he hfront
  have hshared := prefix_of_prefix_join_eq hplace
    (fun s hmem => not_holdsQuote_of_mem_segments hs (hss s hmem)) hdquote hd
  -- and the name with the quote is one of those above that directory
  have hsame := eq_of_prefix_of_map_eq (hshared.trans (htarget.trans hnames)) hfront hmap
  rw [hsame] at hnot
  exact hnot (hshared.trans hbase)

/-- A fix puts a quote into a source exactly when a name of the importing directory that holds a
quote is led through in another spelling: a name of the imported file has its lower-case form, but
for an extension, and stands below directories with the lower-case forms of those above it. -/
theorem holdsQuote_new_iff (hi : index.Regular) {source : Text} {fix : FixRecord}
    (h : fix ∈ (fixSource index current source).fixes) :
    HoldsQuote fix.new ↔ ∃ ds d es e, ds ++ [d] <+: names (parent current) ∧ HoldsQuote d ∧
      es ++ [e] <+: names fix.target ∧ es.map Text.lower = ds.map Text.lower ∧
      (∃ c ∈ directCandidates d, e.lower = c.lower) ∧ es ++ [e] ≠ ds ++ [d] := by
  obtain ⟨specifier, r, hplain, hres, hnew, htarget⟩ := exists_of_mem_fixes h
  rw [hnew, htarget, holdsQuote_canonicalSpecifier hi hres]
  constructor
  · rintro ⟨es, e, hfront, he, hbase⟩
    obtain ⟨ds, d, hd, hdquote, hmap, hcand⟩ :=
      exists_prefix_of_resolve hi hres hplain.not_holdsQuote he hfront
    refine ⟨ds, d, es, e, hd, hdquote, hfront, hmap, hcand, fun heq => hbase ?_⟩
    rwa [heq]
  · rintro ⟨ds, d, es, e, hd, hdquote, hfront, hmap, ⟨c, hc, hlower⟩, hne⟩
    have he : HoldsQuote e :=
      (holdsQuote_congr hlower).2 ((holdsQuote_of_mem_directCandidates hc).2 hdquote)
    refine ⟨es, e, hfront, he, fun hbase => hne ?_⟩
    -- fronts of one length are the same
    have hlen : (es ++ [e]).length = (ds ++ [d]).length := by
      simpa using congrArg List.length hmap
    exact (List.prefix_of_prefix_length_le hbase hd hlen.le).eq_of_length hlen

end

/-- A directory of the importing file finds a file of its own name, with an extension behind it. -/
theorem holdsQuote_new_file :
    (⟨"it's/App.tsx".toList, ".".toList, "../it's".toList, "it's.js".toList⟩ : FixRecord) ∈
        (fixSource (FileIndex.ofPaths ["it's.js".toList]) "it's/App.tsx".toList
          "from '.'".toList).fixes ∧
      HoldsQuote "../it's".toList := by
  have hfix : (⟨"it's/App.tsx".toList, ".".toList, "../it's".toList, "it's.js".toList⟩ :
      FixRecord) ∈ (fixSource (FileIndex.ofPaths ["it's.js".toList]) "it's/App.tsx".toList
        "from '.'".toList).fixes := by
    have hspecifiers : (SourceText.ofText "from '.'".toList).specifiers = [".".toList] := by cbv
    rw [fixes_fixSource, hspecifiers]
    decide
  refine ⟨hfix, (holdsQuote_new_iff (FileIndex.regular_ofPaths (by decide)) hfix).2
    ⟨[], "it's".toList, [], "it's.js".toList, ?_⟩⟩
  refine ⟨by decide, by decide, by decide, rfl, ⟨"it's.js".toList, by decide, rfl⟩, by decide⟩

/-- A specifier that leads out of a directory with a quote and into another spelling of it ends its
own literal too early. -/
theorem content_quote_in_specifier :
    (FileIndex.ofPaths ["it's/Foo.ts".toList]).Regular ∧ Clean "It's/App.tsx".toList ∧
      (fixSource (FileIndex.ofPaths ["it's/Foo.ts".toList]) "It's/App.tsx".toList
        "from './foo'".toList).fixes = [⟨"It's/App.tsx".toList, "./foo".toList,
          "../it's/Foo".toList, "it's/Foo.ts".toList⟩] ∧
      HoldsQuote "../it's/Foo".toList ∧
      (fixSource (FileIndex.ofPaths ["it's/Foo.ts".toList]) "It's/App.tsx".toList
        "from './foo'".toList).content = "from '../it's/Foo'".toList ∧
      (SourceText.ofText "from '../it's/Foo'".toList).specifiers = ["../it".toList] := by
  have hparts : SourceText.ofText "from './foo'".toList =
      ⟨[⟨"from ".toList, .single, "./foo".toList⟩], []⟩ := by cbv
  refine ⟨FileIndex.regular_ofPaths (by decide), by decide, ?_, by decide, ?_, by cbv⟩
  · rw [fixes_fixSource, hparts]
    decide
  · rw [fixSource, hparts]
    decide

end TrueCase

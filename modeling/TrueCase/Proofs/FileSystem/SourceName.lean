import TrueCase.Proofs.FileSystem.RawPath
import TrueCase.Proofs.Path.Relative

/-!
# Names of source files

Whether a path is that of a source file shows in its last name alone: an extension is at the end of
it, with something in front of the full stop. For the path of a text the same can be said of the
text.

## Main definitions

* `RawPath.IsSourceName`: a name that ends in a recognised extension and has something before it.

## Main statements

* `RawPath.isSourceFile_child`: an entry of a directory is a source file by its name.
* `RawPath.isSourceFile_ofText_iff`: a clean path is that of a source file by its file name.
* `RawPath.isSourceFile_iff_dropExtension`: the source files are those paths that have an extension
  to drop and keep something of their file name.
-/

namespace TrueCase

/-- A list is cut at the last occurrence of an element. -/
theorem exists_eq_append_last {α : Type} {a : α} {xs : List α} (h : a ∈ xs) :
    ∃ front back, xs = front ++ a :: back ∧ a ∉ back := by
  obtain ⟨back, front, hrev, hback⟩ := List.eq_append_cons_of_mem (List.mem_reverse.2 h)
  refine ⟨front.reverse, back.reverse, ?_, by simpa using hback⟩
  rw [← List.reverse_reverse xs, hrev]
  simp

namespace RawPath

/-! ## Extensions of names -/

/-- A name that ends in a recognised extension and has something before it. -/
def IsSourceName (name : Bytes) : Prop :=
  ∃ stem, ∃ e : Extension, stem ≠ [] ∧ name = stem ++ Utf8.encode e.suffix

theorem encode_suffix (e : Extension) : Utf8.encode e.suffix = stop :: Utf8.encode e.text :=
  rfl

theorem stop_not_mem_encode_text (e : Extension) : stop ∉ Utf8.encode e.text := by
  cases e <;> decide

/-- Where the last full stop of a name stands says what its extension is. -/
theorem nameExtension?_append (stem : Bytes) {ext : Bytes} (h : stop ∉ ext) :
    nameExtension? (stem ++ stop :: ext) = if stem = [] then none else some ext := by
  have hstem : stem.splitOn stop = [[]] ↔ stem = [] := by
    constructor
    · intro hs
      have hjoined : [stop].intercalate (stem.splitOn stop) = stem := List.intercalate_splitOn stop
      rw [hs] at hjoined
      exact hjoined.symm
    · rintro rfl
      rfl
  have hpieces : (stem ++ stop :: ext).splitOn stop = stem.splitOn stop ++ [ext] := by
    rw [List.splitOn_append_cons_self, List.splitOn_eq_singleton h]
  simp [nameExtension?, hpieces, hstem, List.splitOn_ne_nil]

theorem nameExtension?_eq_none {name : Bytes} (h : stop ∉ name) : nameExtension? name = none := by
  rw [nameExtension?, List.splitOn_eq_singleton h]
  rfl

/-- The extension of a name stands behind its last full stop, and something stands before that. -/
theorem nameExtension?_eq_some_iff {name ext : Bytes} : nameExtension? name = some ext ↔
    ∃ stem, stem ≠ [] ∧ stop ∉ ext ∧ name = stem ++ stop :: ext := by
  constructor
  · intro h
    by_cases hstop : stop ∈ name
    · obtain ⟨front, back, hname, hback⟩ := exists_eq_append_last hstop
      rw [hname, nameExtension?_append _ hback] at h
      split at h
      · cases h
      · next hne =>
        cases h
        exact ⟨front, hne, hback, hname⟩
    · rw [nameExtension?_eq_none hstop] at h
      cases h
  · rintro ⟨stem, hne, hext, rfl⟩
    rw [nameExtension?_append _ hext, if_neg hne]

/-- A path with a file name is that of a source file by this name. -/
theorem isSourceFile_iff {p : RawPath} {name : Bytes} (h : fileName? p = some name) :
    isSourceFile p = true ↔ IsSourceName name := by
  have hext : p.extension? = nameExtension? name := by
    rw [extension?, h, Option.bind_some]
  rw [isSourceFile, hext]
  simp only [List.any_eq_true, decide_eq_true_eq, nameExtension?_eq_some_iff]
  constructor
  · rintro ⟨e, -, stem, hne, -, rfl⟩
    exact ⟨stem, e, hne, rfl⟩
  · rintro ⟨stem, e, hne, rfl⟩
    exact ⟨e, e.mem_all, stem, hne, stop_not_mem_encode_text e, rfl⟩

/-- An entry of a directory is a source file by its name. -/
theorem isSourceFile_child {p : RawPath} (hp : p ≠ []) {name : Bytes} (h : IsName name) :
    isSourceFile (child p name) = true ↔ IsSourceName name := by
  refine isSourceFile_iff ?_
  obtain ⟨-, hdot, hdotDot, hslash⟩ := id h
  have hroot : name ≠ rootDir := by
    rintro rfl
    exact hslash List.mem_cons_self
  rw [fileName?, components_child hp h, List.getLast?_concat, Option.filter_some]
  simp [hroot, hdot, hdotDot]

/-! ## Paths of texts -/

/-- The bytes of a path are those of its segments, with slashes between them. -/
theorem ofText_ofSegments (ss : List Text) :
    ofText (Path.ofSegments ss) = [slash].intercalate (ss.map Utf8.encode) := by
  induction ss with
  | nil => rfl
  | cons s ss ih =>
    by_cases hne : ss = []
    · subst hne
      simp [ofText]
    · rw [ofText_ofSegments_cons s hne, List.map_cons,
        List.intercalate_cons_of_ne_nil (by simpa using hne), ← ih, List.append_assoc,
        List.singleton_append]

/-- The components of a clean path are its segments. -/
theorem components_ofText {p : Text} (h : Path.Clean p) :
    components (ofText p) = (Path.segments p).map Utf8.encode := by
  have hname : ∀ name ∈ (Path.segments p).map Utf8.encode, IsName name := by
    intro name hmem
    obtain ⟨n, hn, rfl⟩ := List.mem_map.1 hmem
    exact isName_encode (h.isName n hn)
  have hpieces : (ofText p).splitOn slash = (Path.segments p).map Utf8.encode := by
    rw [← Path.ofSegments_segments p, ofText_ofSegments, Path.ofSegments_segments]
    exact List.splitOn_intercalate slash (fun name hmem => (hname name hmem).2.2.2)
      (by simpa using Path.segments_ne_nil p)
  have hproper : ((Path.segments p).map Utf8.encode).filter
      (fun s => s ≠ [] ∧ s ≠ currentDir) = (Path.segments p).map Utf8.encode :=
    List.filter_eq_self.2 fun name hmem => by
      simpa using ⟨(hname name hmem).1, (hname name hmem).2.1⟩
  obtain ⟨first, rest, hfirst⟩ := List.exists_cons_of_ne_nil (Path.segments_ne_nil p)
  have hhead : IsName (Utf8.encode first) := hname _ (by simp [hfirst])
  have habs : (ofText p).head? ≠ some slash := by
    intro habs
    obtain ⟨more, hmore⟩ := List.head?_eq_some_iff.1 habs
    rw [hmore, show slash :: more = [] ++ slash :: more from rfl, List.splitOn_append_cons_self,
      hfirst] at hpieces
    exact hhead.1 (List.cons.inj hpieces).1.symm
  have hdot : ((Path.segments p).map Utf8.encode).head? ≠ some currentDir := by
    rw [hfirst]
    exact fun heq => hhead.2.1 (Option.some.inj heq)
  simp only [components, hpieces, hproper, if_neg habs, if_neg hdot]

theorem fileName?_ofText {p : Text} (h : Path.Clean p) :
    fileName? (ofText p) = some (Utf8.encode (Path.fileName p)) := by
  have hsegs := Path.dropLast_segments_concat p
  obtain ⟨-, hdot, hdotDot, hslash⟩ :=
    isName_encode h.isName_fileName
  have hroot : Utf8.encode (Path.fileName p) ≠ rootDir := by
    intro heq
    exact hslash (heq ▸ List.mem_cons_self)
  rw [fileName?, components_ofText h, ← hsegs, List.map_append, List.map_singleton,
    List.getLast?_concat, Option.filter_some]
  simp [hroot, hdot, hdotDot]

/-- The clean path of a text is that of a source file by its file name. -/
theorem isSourceFile_ofText_iff {p : Text} (h : Path.Clean p) : isSourceFile (ofText p) = true ↔
    ∃ stem, ∃ e : Extension, stem ≠ [] ∧ Path.fileName p = stem ++ e.suffix := by
  rw [isSourceFile_iff (fileName?_ofText h)]
  generalize Path.fileName p = n
  constructor
  · rintro ⟨bytes, e, hbytes, heq⟩
    have hstop : stop ∈ Utf8.encode n := by
      rw [heq, encode_suffix]
      simp
    obtain ⟨c, hc, hdot⟩ := Utf8.exists_of_mem_encode (by decide) hstop
    obtain rfl : c = '.' := Char.toNat_inj.1 hdot
    obtain ⟨front, back, rfl, hback⟩ := exists_eq_append_last hc
    have hlast : stop ∉ Utf8.encode back := by
      intro hmem
      obtain ⟨d, hd, hdot⟩ := Utf8.exists_of_mem_encode (by decide) hmem
      obtain rfl : d = '.' := Char.toNat_inj.1 hdot
      exact hback hd
    have hencode : Utf8.encode (front ++ '.' :: back) =
        Utf8.encode front ++ stop :: Utf8.encode back :=
      Utf8.encode_append front ('.' :: back)
    -- bytes and text are cut at the last full stop, so they are cut alike
    have hext := congrArg nameExtension? (hencode.symm.trans heq)
    rw [encode_suffix, nameExtension?_append _ hlast,
      nameExtension?_append _ (stop_not_mem_encode_text e), if_neg hbytes] at hext
    split at hext
    · cases hext
    · next hne =>
      refine ⟨front, e, fun hnil => hne (by rw [hnil]; rfl), ?_⟩
      rw [Utf8.encode_injective (Option.some.inj hext)]
      rfl
  · rintro ⟨stem, e, hne, rfl⟩
    exact ⟨Utf8.encode stem, e, fun hnil => hne (Utf8.encode_injective (t := []) hnil),
      Utf8.encode_append stem e.suffix⟩

/-! ## Dropping the extension -/

/-- A clean path is that of a source file exactly when there is an extension to drop and something
of its file name is left without it. There is then one extension only that can be dropped, so the
order in which the extensions are tried does not matter. -/
theorem isSourceFile_iff_dropExtension {p : Text} (h : Path.Clean p) :
    (isSourceFile (ofText p) = true ↔
      dropExtension p ≠ p ∧ Path.fileName (dropExtension p) ≠ []) ∧
    (isSourceFile (ofText p) = true →
      ∃! e, e ∈ Extension.all ∧ p = dropExtension p ++ '.' :: e.text) ∧
    ∀ stem, ∀ e ∈ Extension.all, p = stem ++ '.' :: e.text → stem = dropExtension p := by
  have hiff : isSourceFile (ofText p) = true ↔
      dropExtension p ≠ p ∧ Path.fileName (dropExtension p) ≠ [] := by
    rw [isSourceFile_ofText_iff h]
    constructor
    · rintro ⟨stem, e, hne, hname⟩
      obtain ⟨q, rfl⟩ := Path.exists_eq_append_of_fileName hname
      rw [Path.fileName_append q e.slash_not_mem_suffix] at hname
      rw [dropExtension_append_suffix, List.append_cancel_right hname]
      exact ⟨by simp [Extension.suffix], hne⟩
    · rintro ⟨hdrop, hname⟩
      obtain ⟨e, he⟩ := (dropExtension_cases p).resolve_right hdrop
      refine ⟨Path.fileName (dropExtension p), e, hname, ?_⟩
      rw [← Path.fileName_append _ e.slash_not_mem_suffix, ← he]
  refine ⟨hiff, fun hsource => dropExtension_ne_self_iff.1 (hiff.1 hsource).1, ?_⟩
  rintro stem e - rfl
  exact (dropExtension_append_suffix stem e).symm

/-- What stands before the extension can be dots alone. A name that is nothing but an extension is
not the name of a source file, though the extension can be dropped. -/
theorem isSourceFile_dots_before :
    (Path.Clean "a.ts/..tsx".toList ∧ isSourceFile (ofText "a.ts/..tsx".toList) = true ∧
      ∃! e, e ∈ Extension.all ∧ "a.ts/..tsx".toList = "a.ts/.".toList ++ '.' :: e.text) ∧
    Path.Clean "a.ts/.tsx".toList ∧ dropExtension "a.ts/.tsx".toList = "a.ts/".toList ∧
      isSourceFile (ofText "a.ts/.tsx".toList) = false := by
  have hdots : Path.Clean "a.ts/..tsx".toList := by decide
  have hnone : Path.Clean "a.ts/.tsx".toList := by decide
  obtain ⟨hiff, hunique, -⟩ := isSourceFile_iff_dropExtension hdots
  have hsource := hiff.2 (by decide)
  refine ⟨⟨hdots, hsource, hunique hsource⟩, hnone, by decide, ?_⟩
  rw [Bool.eq_false_iff, Ne, (isSourceFile_iff_dropExtension hnone).1]
  decide

end RawPath

end TrueCase

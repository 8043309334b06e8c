import Mathlib.Data.List.Basic
import TrueCase.Extension
import TrueCase.Proofs.Path.Segments

/-!
# The way to a path and back

The explicit relative path from a directory to a path leads there when it is joined back. What
stands before its last segment leads to the parent, so that a change of the last segment only, such
as leaving the extension out, can be followed as well.

## Main statements

* `explicit_cases`: where the front of an explicit relative path leads, and what stands behind.
* `join_explicit`: an explicit relative path leads to its target.
* `dropExtension_explicit`, `explicit_append_suffix`: where it leads without its extension.
* `exists_shared_of_explicit_eq`: where what stands before one of its names leads.
-/

namespace TrueCase

/-! ## dropExtension -/

namespace Extension

theorem slash_not_mem_suffix (e : Extension) : '/' ∉ e.suffix := by
  cases e <;> decide

/-- No suffix ends with another one. -/
theorem eq_of_append_suffix_eq {e f : Extension} {s t : Text}
    (h : s ++ e.suffix = t ++ f.suffix) : e = f := by
  have := congrArg List.reverse h
  revert this
  cases e <;> cases f <;> simp [suffix, text]

end Extension

theorem isSuffixOf?_suffix_eq_some {e : Extension} {p s : Text} :
    e.suffix.isSuffixOf? p = some s ↔ p = s ++ e.suffix := by
  rw [List.isSuffixOf?_eq_some_iff_append_eq, eq_comm]

@[simp] theorem dropExtension_append_suffix (s : Text) (e : Extension) :
    dropExtension (s ++ e.suffix) = s := by
  cases h : Extension.all.findSome? (·.suffix.isSuffixOf? (s ++ e.suffix)) with
  | none =>
    have hnone := List.findSome?_eq_none_iff.1 h e e.mem_all
    rw [isSuffixOf?_suffix_eq_some.2 rfl] at hnone
    cases hnone
  | some t =>
    obtain ⟨f, -, hf⟩ := List.exists_of_findSome?_eq_some h
    have heq := isSuffixOf?_suffix_eq_some.1 hf
    obtain rfl := Extension.eq_of_append_suffix_eq heq
    rw [dropExtension, h, Option.getD_some, List.append_cancel_right heq]

/-- Either there is an extension to drop, or the path has none and stays. -/
theorem dropExtension_cases (p : Text) :
    (∃ e : Extension, p = dropExtension p ++ e.suffix) ∨ dropExtension p = p := by
  cases h : Extension.all.findSome? (·.suffix.isSuffixOf? p) with
  | none => exact Or.inr (by rw [dropExtension, h, Option.getD_none])
  | some s =>
    obtain ⟨e, -, hs⟩ := List.exists_of_findSome?_eq_some h
    refine Or.inl ⟨e, ?_⟩
    rw [dropExtension, h, Option.getD_some]
    exact isSuffixOf?_suffix_eq_some.1 hs

/-- A text has an extension to drop when it ends in one, which is then the only one that it ends
in. -/
theorem dropExtension_ne_self_iff {p : Text} :
    dropExtension p ≠ p ↔ ∃! e, e ∈ Extension.all ∧ p = dropExtension p ++ '.' :: e.text := by
  constructor
  · intro hne
    obtain ⟨e, he⟩ := (dropExtension_cases p).resolve_right hne
    refine ⟨e, ⟨e.mem_all, he⟩, ?_⟩
    rintro f ⟨-, hf⟩
    exact Extension.eq_of_append_suffix_eq (hf.symm.trans he)
  · rintro ⟨e, ⟨-, he⟩, -⟩ hself
    rw [hself] at he
    simp at he

theorem dropExtension_prefix_self (p : Text) : dropExtension p <+: p := by
  rcases dropExtension_cases p with ⟨e, he⟩ | hp
  · exact ⟨e.suffix, he.symm⟩
  · exact ⟨[], by rw [hp, List.append_nil]⟩

theorem mem_of_mem_dropExtension {p : Text} {c : Char} (h : c ∈ dropExtension p) : c ∈ p :=
  (dropExtension_prefix_self p).subset h

theorem slash_mem_dropExtension {p : Text} (h : '/' ∈ p) : '/' ∈ dropExtension p := by
  rcases dropExtension_cases p with ⟨e, he⟩ | hp
  · rw [he] at h
    exact (List.mem_append.1 h).resolve_right e.slash_not_mem_suffix
  · rwa [hp]

/-- An extension belongs to the last segment. -/
theorem dropExtension_append_slash (p n : Text) :
    dropExtension (p ++ '/' :: n) = p ++ '/' :: dropExtension n := by
  rcases dropExtension_cases n with ⟨e, he⟩ | hn
  · conv_lhs => rw [he]
    rw [show p ++ '/' :: (dropExtension n ++ e.suffix) =
      (p ++ '/' :: dropExtension n) ++ e.suffix by simp, dropExtension_append_suffix]
  · rw [hn]
    rcases dropExtension_cases (p ++ '/' :: n) with ⟨e, he⟩ | h
    · -- the suffix would have to reach over the slash
      have hslash := e.slash_not_mem_suffix
      rcases List.append_eq_append_iff.1 he with ⟨a, -, ha⟩ | ⟨a, -, ha⟩
      · cases a with
        | nil =>
          rw [List.nil_append] at ha
          exact absurd (ha ▸ List.mem_cons_self) hslash
        | cons c a =>
          have hna : n = a ++ e.suffix := (List.cons.inj ha).2
          rw [hna, dropExtension_append_suffix] at hn
          simp [Extension.suffix] at hn
      · simp [ha] at hslash
    · exact h

namespace Path

theorem dropExtension_ofSegments_concat (ss : List Text) (n : Text) :
    dropExtension (ofSegments (ss ++ [n])) = ofSegments (ss ++ [dropExtension n]) := by
  by_cases hs : ss = []
  · simp [hs]
  · rw [ofSegments_append hs (by simp), ofSegments_append hs (by simp)]
    simpa using dropExtension_append_slash (ofSegments ss) n

/-! ## way, explicit -/

theorem way_eq (bs ts : List Text) : ∃ cs us ds, bs = cs ++ us ∧ ts = cs ++ ds ∧
    way bs ts = ups us ++ ds := by
  induction bs generalizing ts with
  | nil => exact ⟨[], [], ts, rfl, rfl, rfl⟩
  | cons b bs ih =>
    cases ts with
    | nil => exact ⟨[], b :: bs, [], rfl, rfl, rfl⟩
    | cons t ts =>
      by_cases h : b = t
      · subst h
        obtain ⟨cs, us, ds, rfl, rfl, hw⟩ := ih ts
        exact ⟨b :: cs, us, ds, rfl, rfl, by rw [way, if_pos rfl, hw]⟩
      · exact ⟨[], b :: bs, t :: ts, rfl, rfl, by rw [way, if_neg h]⟩

/-- The characters of an explicit relative path are those of the target, slashes and dots. -/
theorem mem_of_mem_explicit {base target : Text} {c : Char} (h : c ∈ explicit base target) :
    c = '/' ∨ c = '.' ∨ c ∈ target := by
  have hrel : c ∈ relative base target → c = '/' ∨ c = '.' ∨ c ∈ target := by
    intro hc
    obtain ⟨cs, us, ds, -, hds, hw⟩ := way_eq (names base) (names target)
    rw [relative, hw] at hc
    rcases mem_of_mem_ofSegments hc with rfl | ⟨s, hs, hc⟩
    · exact Or.inl rfl
    rcases List.mem_append.1 hs with hs | hs
    · obtain ⟨u, -, rfl⟩ := List.mem_map.1 hs
      exact Or.inr (Or.inl (by simpa using hc))
    · have hname : s ∈ names target := hds ▸ List.mem_append_right cs hs
      exact Or.inr (Or.inr (mem_of_mem_segments (List.mem_filter.1 hname).1 hc))
  unfold explicit at h
  dsimp only at h
  split at h
  · simp only [List.mem_cons, List.not_mem_nil, or_false] at h
    exact h.symm.imp_right Or.inl
  split at h
  · exact (List.mem_append.1 h).elim hrel fun hc => Or.inl (List.mem_singleton.1 hc)
  split at h
  · exact hrel h
  · simp only [List.mem_cons] at h
    rcases h with rfl | rfl | h
    · exact Or.inr (Or.inl rfl)
    · exact Or.inl rfl
    · exact hrel h

/-- The segments of an explicit relative path, from those of the way that it marks. -/
theorem segments_explicit_eq {b t : Text} {ws : List Text} (hw : ∀ w ∈ ws, w ≠ [] ∧ '/' ∉ w)
    (h : relative b t = ofSegments ws) : segments (explicit b t) =
      if ws = [] then [dot, []]
      else if ws.getLast? = some dotDot then ws ++ [[]]
      else if ws.head? = some dotDot then ws
      else dot :: ws := by
  have hslash : ∀ w ∈ ws, '/' ∉ w := fun w hm => (hw w hm).2
  by_cases hne : ws = []
  · subst hne
    simp only [explicit, h, ofSegments, List.intercalate_nil, if_true]
    rfl
  · have hs : segments (ofSegments ws) = ws := segments_ofSegments hslash hne
    have hnil : ofSegments ws ≠ [] := by
      intro h0
      rw [h0, segments_nil] at hs
      exact (hw [] (by simp [← hs])).1 rfl
    have hslashes (p : Text) : segments (p ++ ['/']) = segments p ++ [[]] :=
      segments_append_slash p []
    have hdot : segments ('.' :: '/' :: ofSegments ws) = dot :: ws := by
      rw [show '.' :: '/' :: ofSegments ws = dot ++ '/' :: ofSegments ws from rfl,
        segments_append_slash, hs, segments_eq_singleton (by decide)]
      rfl
    simp only [explicit, h, hnil, hs, if_neg hne, if_false]
    split
    · rw [hslashes, hs]
    · split
      · exact hs
      · exact hdot

/-- An explicit relative path has a slash in it, whatever the two paths are. -/
theorem slash_mem_explicit (base target : Text) : '/' ∈ explicit base target := by
  unfold explicit
  dsimp only
  split
  · simp
  split
  · simp
  split
  · next hlast hhead =>
    -- its first and its last segment are not the same
    by_contra hslash
    rw [segments_eq_singleton hslash] at hlast hhead
    exact hlast hhead
  · simp

/-! ## Fronts -/

/-- The segments before the last one of a path that starts with `./` or `../`. -/
def IsFront (front : List Text) : Prop :=
  front.head? = some dot ∨ front.head? = some dotDot

theorem ne_nil_of_mem_ups {us ds : List Text} (hd : ∀ d ∈ ds, IsName d) :
    ∀ w ∈ ups us ++ ds, w ≠ [] ∧ '/' ∉ w := by
  intro w hw
  rcases List.mem_append.1 hw with hw | hw
  · obtain ⟨u, -, rfl⟩ := List.mem_map.1 hw
    decide
  · exact ⟨(hd w hw).1, (hd w hw).slash_not_mem⟩

/-- The segments that mark a path as relative: a step up for each of the names that are left, or a
dot if none is. -/
def marks (us : List Text) : List Text :=
  if us = [] then [dot] else ups us

theorem isFront_marks (us ds : List Text) : IsFront (marks us ++ ds) := by
  cases us with
  | nil => exact Or.inl rfl
  | cons u us => exact Or.inr rfl

theorem eq_of_mem_marks {us : List Text} {s : Text} (h : s ∈ marks us) : s = dot ∨ s = dotDot := by
  unfold marks at h
  split at h
  · exact Or.inl (List.mem_singleton.1 h)
  · obtain ⟨u, -, rfl⟩ := List.mem_map.1 h
    exact Or.inr rfl

theorem marks_ne_nil (us : List Text) : marks us ≠ [] := by
  intro h
  simpa [h, IsFront] using isFront_marks us []

theorem mem_of_mem_marks {us : List Text} {c : Char} (h : c ∈ ofSegments (marks us)) :
    c = '/' ∨ c = '.' := by
  rcases mem_of_mem_ofSegments h with rfl | ⟨m, hm, hc⟩
  · exact Or.inl rfl
  · rcases eq_of_mem_marks hm with rfl | rfl <;> exact Or.inr (by simpa using hc)

theorem segments_marks_append (us : List Text) (p : Text) :
    segments (ofSegments (marks us) ++ '/' :: p) = marks us ++ segments p := by
  rw [segments_append_slash, segments_ofSegments (fun m hm => ?_) (marks_ne_nil us)]
  rcases eq_of_mem_marks hm with rfl | rfl <;> decide

/-- The marks lead up to where the names that are left start. -/
theorem foldl_step_marks {us : List Text} (hu : ∀ u ∈ us, IsName u) (cs : List Text) :
    (marks us).foldl step (cs ++ us).reverse = cs.reverse := by
  by_cases hus : us = []
  · subst hus
    simp [marks]
  · have hrev : ∀ u ∈ us.reverse, IsName u := fun u hm => hu u (List.mem_reverse.1 hm)
    rw [marks, if_neg hus]
    simpa [List.map_const'] using foldl_step_ups hrev cs.reverse

/-- An explicit relative path has its marks in front. What follows are the names to go down, and
nothing but a slash if there are none. -/
theorem segments_explicit_marks {b t : Text} {us ds : List Text} (hd : ∀ d ∈ ds, IsName d)
    (h : relative b t = ofSegments (ups us ++ ds)) :
    segments (explicit b t) = marks us ++ if ds = [] then [[]] else ds := by
  have hsegs := segments_explicit_eq (ne_nil_of_mem_ups hd) h
  rcases List.eq_nil_or_concat' ds with rfl | ⟨ds, n, rfl⟩
  · cases us with
    | nil => exact hsegs
    | cons u us =>
      have hlast : (ups (u :: us) ++ []).getLast? = some dotDot := by
        simp [List.map_const', List.replicate_succ', ← List.replicate_succ]
      rw [if_neg (by simp), if_pos hlast, List.append_nil] at hsegs
      exact hsegs
  · have hlast : (ups us ++ (ds ++ [n])).getLast? ≠ some dotDot := by
      simpa [← List.append_assoc] using (hd n (by simp)).2.2.1
    rw [if_neg (by simp), if_neg hlast] at hsegs
    cases us with
    | nil =>
      have hhead : (ds ++ [n]).head? ≠ some dotDot := fun hh =>
        (hd _ (List.mem_of_head? hh)).2.2.1 rfl
      rw [show ups [] ++ (ds ++ [n]) = ds ++ [n] from rfl, if_neg hhead] at hsegs
      simpa [marks] using hsegs
    | cons u us =>
      rw [if_pos (by simp)] at hsegs
      simpa [marks] using hsegs

/-- An explicit relative path is a front that starts with a dot or two, and a last segment. Either
the target lies above the base and the front leads to it, with nothing behind, or the front leads to
the directory of the target and the name of the target stands behind. -/
theorem segments_explicit {bs ts : List Text} (hb : ∀ b ∈ bs, IsName b)
    (ht : ∀ t ∈ ts, IsName t) : ∃ front last,
      segments (explicit (ofSegments bs) (ofSegments ts)) = front ++ [last] ∧ IsFront front ∧
      (last = [] ∧ ts <+: bs ∧ front.foldl step bs.reverse = ts.reverse ∨
        ∃ ds, ts = ds ++ [last] ∧ front.foldl step bs.reverse = ds.reverse) := by
  obtain ⟨cs, us, ds, rfl, rfl, hw⟩ := way_eq bs ts
  have hus : ∀ u ∈ us, IsName u := fun u hu => hb u (List.mem_append_right cs hu)
  have hds : ∀ d ∈ ds, IsName d := fun d hd => ht d (List.mem_append_right cs hd)
  have hrel : relative (ofSegments (cs ++ us)) (ofSegments (cs ++ ds)) =
      ofSegments (ups us ++ ds) := by
    rw [relative, names_ofSegments hb, names_ofSegments ht, hw]
  have hsegs := segments_explicit_marks hds hrel
  have hfold := foldl_step_marks hus cs
  rcases List.eq_nil_or_concat' ds with rfl | ⟨ds, n, rfl⟩
  · rw [List.append_nil] at hsegs ⊢
    refine ⟨marks us, [], hsegs, ?_, Or.inl ⟨rfl, List.prefix_append cs us, hfold⟩⟩
    simpa using isFront_marks us []
  · refine ⟨marks us ++ ds, n, by simpa using hsegs, isFront_marks us ds,
      Or.inr ⟨cs ++ ds, by simp, ?_⟩⟩
    rw [List.foldl_append, hfold, foldl_step_names fun d hd => hds d (by simp [hd]),
      List.reverse_append]

/-- A front that starts with a dot or two shows in the text, as soon as something stands behind. -/
theorem ofSegments_front {front : List Text} (h : IsFront front) (last : Text) :
    ['.', '/'] <+: ofSegments (front ++ [last]) ∨
      ['.', '.', '/'] <+: ofSegments (front ++ [last]) := by
  cases front with
  | nil => simp [IsFront] at h
  | cons s front =>
    rw [List.cons_append, ofSegments_cons s (by simp)]
    rcases h with h | h <;> obtain rfl := Option.some.inj h
    · exact Or.inl ⟨_, rfl⟩
    · exact Or.inr ⟨_, rfl⟩

theorem join_parent_fileName {p : Text} (h : Clean p) : join (parent p) (fileName p) = p := by
  obtain ⟨ds, n, hd, hn, rfl⟩ := h.exists_eq
  rw [parent_ofSegments hd hn, fileName_ofSegments hd hn, join_segment hd hn.slash_not_mem,
    step_name hn, List.reverse_cons, List.reverse_reverse]

variable {base target : Text}

/-- An explicit relative path from inside its target is a front that leads to the target, with a
slash behind it. Any other has the name of the target behind a front from which all names are
followed as from the directory of the target. -/
theorem explicit_cases (hb : Normal base) (ht : Normal target) : ∃ front, IsFront front ∧
    (names target <+: names base ∧ explicit base target = ofSegments (front ++ [[]]) ∧
        join base (ofSegments (front ++ [[]])) = target ∨
      Clean target ∧ explicit base target = ofSegments (front ++ [fileName target]) ∧
        ∀ m, '/' ∉ m → join base (ofSegments (front ++ [m])) = join (parent target) m) := by
  obtain ⟨bs, hbs, rfl⟩ := normal_iff.1 hb
  obtain ⟨ts, hts, rfl⟩ := normal_iff.1 ht
  obtain ⟨front, last, hs, hfront, h⟩ := segments_explicit hbs hts
  have htext : explicit (ofSegments bs) (ofSegments ts) = ofSegments (front ++ [last]) := by
    rw [← hs, ofSegments_segments]
  have hjoin {m : Text} (hm : '/' ∉ m) : join (ofSegments bs) (ofSegments (front ++ [m])) =
      ofSegments (step (front.foldl step bs.reverse) m).reverse := by
    have hslash : ∀ s ∈ front ++ [m], '/' ∉ s := by
      intro s hmem
      rcases List.mem_append.1 hmem with hmem | hmem
      · exact slash_not_mem_of_mem_segments (hs ▸ List.mem_append_left _ hmem)
      · exact List.mem_singleton.1 hmem ▸ hm
    rw [join_ofSegments hbs, segments_ofSegments hslash (by simp), List.foldl_append,
      List.foldl_cons, List.foldl_nil]
  refine ⟨front, hfront, ?_⟩
  rcases h with ⟨rfl, habove, hfold⟩ | ⟨ds, rfl, hfold⟩
  · left
    rw [names_ofSegments hbs, names_ofSegments hts]
    refine ⟨habove, htext, ?_⟩
    rw [hjoin (by simp), step_nil, hfold, List.reverse_reverse]
  · right
    have hds : ∀ d ∈ ds, IsName d := fun d hd => hts d (by simp [hd])
    have hlast : IsName last := hts last (by simp)
    rw [fileName_ofSegments hds hlast, parent_ofSegments hds hlast]
    refine ⟨clean_ofSegments hts (by simp), htext, fun m hm => ?_⟩
    rw [hjoin hm, hfold, join_segment hds hm]

/-- An explicit relative path starts with `./` or `../`. -/
theorem explicit_marked (hb : Normal base) (ht : Normal target) :
    ['.', '/'] <+: explicit base target ∨ ['.', '.', '/'] <+: explicit base target := by
  obtain ⟨front, hfront, ⟨-, h, -⟩ | ⟨-, h, -⟩⟩ := explicit_cases hb ht
  all_goals
    rw [h]
    exact ofSegments_front hfront _

/-- An explicit relative path leads to its target. -/
theorem join_explicit (hb : Normal base) (ht : Normal target) :
    join base (explicit base target) = target := by
  obtain ⟨front, -, ⟨-, h, hjoin⟩ | ⟨hclean, h, hjoin⟩⟩ := explicit_cases hb ht
  · rw [h, hjoin]
  · rw [h, hjoin _ hclean.isName_fileName.slash_not_mem, join_parent_fileName hclean]

/-- Without its extension an explicit relative path still starts with `./` or `../`. If it has one
to lose, it leads where the file name without its extension leads from the directory of the
target. -/
theorem dropExtension_explicit (hb : Normal base) (ht : Normal target) :
    (['.', '/'] <+: dropExtension (explicit base target) ∨
      ['.', '.', '/'] <+: dropExtension (explicit base target)) ∧
    (dropExtension (explicit base target) = explicit base target ∨
      Clean target ∧ dropExtension (fileName target) ≠ fileName target ∧
        join base (dropExtension (explicit base target)) =
          join (parent target) (dropExtension (fileName target))) := by
  obtain ⟨front, hfront, ⟨-, h, -⟩ | ⟨hclean, h, hjoin⟩⟩ := explicit_cases hb ht
  all_goals rw [h, dropExtension_ofSegments_concat]
  · exact ⟨ofSegments_front hfront _, Or.inl rfl⟩
  · refine ⟨ofSegments_front hfront _, ?_⟩
    by_cases hlast : dropExtension (fileName target) = fileName target
    · exact Or.inl (by rw [hlast])
    · have hslash : '/' ∉ dropExtension (fileName target) :=
        fun hm => hclean.isName_fileName.slash_not_mem (mem_of_mem_dropExtension hm)
      exact Or.inr ⟨hclean, hlast, hjoin _ hslash⟩

/-- An explicit relative path to a target with an extension keeps the extension at its end, unless
the base lies inside the target. If the extension is dropped there, and what is left of the name is
still a name, the rest leads to the target without its extension. -/
theorem explicit_append_suffix (hb : Normal base) {stem : Text} {e : Extension}
    (ht : Clean (stem ++ e.suffix)) (hname : IsName (fileName stem)) :
    let full := explicit base (stem ++ e.suffix)
    names (stem ++ e.suffix) <+: names base ∧ dropExtension full = full ∨
      full = dropExtension full ++ e.suffix ∧ join base (dropExtension full) = stem := by
  intro full
  have hslash := e.slash_not_mem_suffix
  obtain ⟨front, -, ⟨habove, h, -⟩ | ⟨-, h, hjoin⟩⟩ := explicit_cases hb ht.normal
  · have hfull : full = ofSegments (front ++ [[]]) := h
    left
    rw [hfull, dropExtension_ofSegments_concat]
    exact ⟨habove, rfl⟩
  · have hfull : full = ofSegments (front ++ [fileName stem ++ e.suffix]) := by
      rw [← fileName_append stem hslash, ← h]
    right
    rw [hfull, dropExtension_ofSegments_concat, dropExtension_append_suffix]
    refine ⟨ofSegments_append_concat _ _ _, ?_⟩
    rw [hjoin _ hname.slash_not_mem, parent_append stem hslash,
      join_parent_fileName (clean_of_append hslash ht hname)]

/-- The marks of an explicit relative path lead to a directory that the base shares with the
target. -/
theorem exists_explicit_eq_marks (hb : Normal base) (ht : Normal target) :
    ∃ shared us below, names base = shared ++ us ∧ shared <+: names target ∧
      (∀ u ∈ us, IsName u) ∧ explicit base target = ofSegments (marks us) ++ '/' :: below := by
  obtain ⟨bs, hbs, rfl⟩ := normal_iff.1 hb
  obtain ⟨ts, hts, rfl⟩ := normal_iff.1 ht
  obtain ⟨cs, us, ds, rfl, rfl, hw⟩ := way_eq bs ts
  have hds : ∀ d ∈ ds, IsName d := fun d hd => hts d (List.mem_append_right cs hd)
  have hrel : relative (ofSegments (cs ++ us)) (ofSegments (cs ++ ds)) =
      ofSegments (ups us ++ ds) := by
    rw [relative, names_ofSegments hbs, names_ofSegments hts, hw]
  refine ⟨cs, us, ofSegments (if ds = [] then [[]] else ds), names_ofSegments hbs, ?_,
    fun u hu => hbs u (List.mem_append_right cs hu), ?_⟩
  · rw [names_ofSegments hts]
    exact List.prefix_append _ _
  · rw [← ofSegments_segments (explicit _ _), segments_explicit_marks hds hrel,
      ofSegments_append (marks_ne_nil us) (by split <;> simp_all)]

/-- What stands in an explicit relative path before some character of a name leads from the base
first to a directory that it shares with the target, and from there on by its own segments. -/
theorem exists_shared_of_explicit_eq (hb : Normal base) (ht : Normal target) {s rest : Text}
    {c : Char} (hdot : c ≠ '.') (hslash : c ≠ '/') (h : explicit base target = s ++ c :: rest) :
    ∃ shared ss : List Text, shared <+: names base ∧ shared <+: names target ∧
      (∀ x ∈ ss, x ∈ segments s) ∧
      (segments s).foldl step (names base).reverse = ss.foldl step shared.reverse := by
  obtain ⟨shared, us, below, hbase, htarget, hus, hmarks⟩ := exists_explicit_eq_marks hb ht
  obtain ⟨s', rfl⟩ : ∃ s', s = ofSegments (marks us) ++ '/' :: s' := by
    rcases List.append_eq_append_iff.1 (h.symm.trans hmarks) with ⟨a, hfront, ha⟩ | ⟨a, rfl, ha⟩
    · cases a with
      | nil => exact absurd (List.cons.inj ha).1 hslash
      | cons d a =>
        -- the character would be one of the marks
        obtain ⟨rfl, -⟩ := List.cons.inj ha
        have hmem : c ∈ ofSegments (marks us) := by simp [hfront]
        exact absurd (mem_of_mem_marks hmem) (not_or.2 ⟨hslash, hdot⟩)
    · cases a with
      | nil => exact absurd (List.cons.inj ha).1.symm hslash
      | cons d a =>
        obtain ⟨rfl, -⟩ := List.cons.inj ha
        exact ⟨a, rfl⟩
  rw [hbase, segments_marks_append, List.foldl_append, foldl_step_marks hus]
  exact ⟨shared, segments s', List.prefix_append _ _, htarget,
    fun x hx => List.mem_append_right _ hx, rfl⟩

end Path

end TrueCase

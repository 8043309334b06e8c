import TrueCase.Path.Basic

/-!
# Paths and their segments

A path that is empty or clean is the same thing as a list of names. The laws here read the parent,
the file name and the joined path off such lists.

## Main definitions

* `Path.IsName`: a segment that is a proper name.
* `Path.Normal`: a path that is empty or clean.

## Main statements

* `Path.normal_iff`: the normal paths are those with the names of some list for segments.
* `Path.parent_ofSegments`, `Path.fileName_ofSegments`: the parts of a path from its names.
* `Path.join_ofSegments`: joining follows a list of names from a place.
* `Path.prefix_of_prefix_foldl_step`: names that following a specifier cannot add were there before.
-/

namespace TrueCase

/-- What a list is split at is in none of the parts. -/
theorem not_mem_of_mem_splitOn {α : Type} [BEq α] [LawfulBEq α] {a : α} {xs s : List α}
    (h : s ∈ xs.splitOn a) : a ∉ s := by
  induction xs generalizing s with
  | nil => simp_all
  | cons x xs ih =>
    rw [List.splitOn_cons_eq_if_modifyHead] at h
    split at h
    · rcases List.mem_cons.1 h with rfl | h
      · simp
      · exact ih h
    · next hx =>
      cases hs : xs.splitOn a with
      | nil => exact absurd hs (List.splitOn_ne_nil a xs)
      | cons s' ss =>
        rw [hs, List.modifyHead_cons] at h
        rcases List.mem_cons.1 h with rfl | h
        · have := ih (hs ▸ List.mem_cons_self)
          exact fun hm => (List.mem_cons.1 hm).elim (fun he => hx (by simp [he])) this
        · exact ih (hs ▸ List.mem_cons_of_mem _ h)

/-- A front of a list with one element more is either all of it or a front of the rest. -/
theorem concat_prefix_concat_iff {α : Type} {xs ys : List α} {x y : α} :
    xs ++ [x] <+: ys ++ [y] ↔ xs = ys ∧ x = y ∨ xs ++ [x] <+: ys := by
  rw [List.prefix_concat_iff]
  exact or_congr_left ⟨fun h => by simpa using List.append_inj' h rfl, by rintro ⟨rfl, rfl⟩; rfl⟩

namespace Path

/-- A segment that names something: neither empty nor dots, and without a slash. -/
def IsName (s : Text) : Prop :=
  s ≠ [] ∧ s ≠ dot ∧ s ≠ dotDot ∧ '/' ∉ s

instance (s : Text) : Decidable (IsName s) :=
  inferInstanceAs (Decidable (s ≠ [] ∧ s ≠ dot ∧ s ≠ dotDot ∧ '/' ∉ s))

theorem IsName.slash_not_mem {s : Text} (h : IsName s) : '/' ∉ s :=
  h.2.2.2

/-- A segment is empty, one of the dots, or a name. -/
theorem segment_cases {s : Text} (h : '/' ∉ s) : (s = [] ∨ s = dot) ∨ s = dotDot ∨ IsName s := by
  by_cases hstay : s = [] ∨ s = dot
  · exact Or.inl hstay
  · rw [not_or] at hstay
    by_cases hup : s = dotDot
    · exact Or.inr (Or.inl hup)
    · exact Or.inr (Or.inr ⟨hstay.1, hstay.2, hup, h⟩)

/-- A path that is empty or clean. -/
def Normal (p : Text) : Prop :=
  p = [] ∨ Clean p

theorem Clean.normal {p : Text} (h : Clean p) : Normal p :=
  Or.inr h

theorem segments_ne_nil (p : Text) : segments p ≠ [] :=
  List.splitOn_ne_nil '/' p

theorem slash_not_mem_of_mem_segments {p s : Text} (h : s ∈ segments p) : '/' ∉ s :=
  not_mem_of_mem_splitOn h

@[simp] theorem segments_nil : segments [] = [[]] := rfl

theorem segments_append_slash (p q : Text) :
    segments (p ++ '/' :: q) = segments p ++ segments q :=
  List.splitOn_append_cons_self p q

/-- A path has one segment more than slashes. -/
theorem length_segments (p : Text) : (segments p).length = p.count '/' + 1 := by
  induction p with
  | nil => rfl
  | cons c p ih =>
    have hcons : segments (c :: p) =
        if c == '/' then [] :: segments p else (segments p).modifyHead (c :: ·) :=
      List.splitOn_cons_eq_if_modifyHead c p
    rw [hcons]
    split
    · next hc => simp [ih, List.count_cons, hc]
    · next hc => simp [ih, List.count_cons, hc]

theorem segments_eq_singleton {p : Text} (h : '/' ∉ p) : segments p = [p] :=
  List.splitOn_eq_singleton h

/-! ## ofSegments -/

theorem ofSegments_cons (s : Text) {ss : List Text} (h : ss ≠ []) :
    ofSegments (s :: ss) = s ++ '/' :: ofSegments ss := by
  simp [ofSegments, List.intercalate_cons_of_ne_nil h]

@[simp] theorem ofSegments_singleton (s : Text) : ofSegments [s] = s := by
  simp [ofSegments]

theorem ofSegments_append {ss ts : List Text} (hs : ss ≠ []) (ht : ts ≠ []) :
    ofSegments (ss ++ ts) = ofSegments ss ++ '/' :: ofSegments ts := by
  induction ss with
  | nil => exact absurd rfl hs
  | cons s ss ih =>
    cases ss with
    | nil => simpa using ofSegments_cons s ht
    | cons s' ss =>
      rw [List.cons_append, ofSegments_cons s (by simp), ih (by simp), ofSegments_cons s (by simp)]
      simp

/-- What is added to the last segment is added to the path. -/
theorem ofSegments_append_concat (ss : List Text) (s t : Text) :
    ofSegments (ss ++ [s ++ t]) = ofSegments (ss ++ [s]) ++ t := by
  by_cases hs : ss = []
  · simp [hs]
  · rw [ofSegments_append hs (by simp), ofSegments_append hs (by simp)]
    simp

theorem segments_ofSegments_names {ns : List Text} (h : ∀ n ∈ ns, IsName n) (hne : ns ≠ []) :
    segments (ofSegments ns) = ns :=
  segments_ofSegments (fun n hn => (h n hn).slash_not_mem) hne

/-- Segments that are not empty are found again in the path that is made of them. -/
theorem names_ofSegments_of_ne_nil {ss : List Text} (h : ∀ s ∈ ss, s ≠ [] ∧ '/' ∉ s) :
    names (ofSegments ss) = ss := by
  by_cases hne : ss = []
  · subst hne
    rfl
  · rw [names, segments_ofSegments (fun s hs => (h s hs).2) hne, List.filter_eq_self]
    exact fun s hs => by simpa using (h s hs).1

theorem names_ofSegments {ns : List Text} (h : ∀ n ∈ ns, IsName n) :
    names (ofSegments ns) = ns :=
  names_ofSegments_of_ne_nil fun n hn => ⟨(h n hn).1, (h n hn).slash_not_mem⟩

/-- The path of a list of names has a slash between any two of them. -/
theorem count_slash_ofSegments {ns : List Text} (h : ∀ n ∈ ns, IsName n) :
    (ofSegments ns).count '/' = ns.length - 1 := by
  by_cases hne : ns = []
  · subst hne
    rfl
  · have := length_segments (ofSegments ns)
    rw [segments_ofSegments_names h hne] at this
    omega

theorem ofSegments_eq_nil {ns : List Text} (h : ∀ n ∈ ns, IsName n) :
    ofSegments ns = [] ↔ ns = [] := by
  constructor
  · intro h0
    rw [← names_ofSegments h, h0]
    rfl
  · rintro rfl
    rfl

theorem clean_ofSegments {ns : List Text} (h : ∀ n ∈ ns, IsName n) (hne : ns ≠ []) :
    Clean (ofSegments ns) := by
  rw [Clean, segments_ofSegments_names h hne]
  exact fun n hn => ⟨(h n hn).1, (h n hn).2.1, (h n hn).2.2.1⟩

theorem Clean.isName {p : Text} (h : Clean p) : ∀ n ∈ segments p, IsName n :=
  fun n hn => ⟨(h n hn).1, (h n hn).2.1, (h n hn).2.2, slash_not_mem_of_mem_segments hn⟩

theorem Clean.names_eq {p : Text} (h : Clean p) : names p = segments p :=
  List.filter_eq_self.2 fun n hn => by simpa using (h n hn).1

/-- The normal paths are the texts of lists of names. -/
theorem normal_iff {p : Text} : Normal p ↔ ∃ ns, (∀ n ∈ ns, IsName n) ∧ p = ofSegments ns := by
  constructor
  · rintro (rfl | h)
    · exact ⟨[], by simp, rfl⟩
    · exact ⟨segments p, h.isName, (ofSegments_segments p).symm⟩
  · rintro ⟨ns, h, rfl⟩
    by_cases hne : ns = []
    · subst hne
      exact Or.inl rfl
    · exact Or.inr (clean_ofSegments h hne)

/-- A clean path is a list of directories with a file name behind them. -/
theorem Clean.exists_eq {p : Text} (h : Clean p) :
    ∃ ds n, (∀ d ∈ ds, IsName d) ∧ IsName n ∧ p = ofSegments (ds ++ [n]) := by
  have hne := segments_ne_nil p
  have hp := List.dropLast_concat_getLast hne
  refine ⟨(segments p).dropLast, (segments p).getLast hne, ?_, ?_, ?_⟩
  · exact fun d hd => h.isName d (List.dropLast_subset _ hd)
  · exact h.isName _ (List.getLast_mem hne)
  · rw [hp, ofSegments_segments]

/-! ## parent, fileName -/

theorem dropLast_segments_concat (p : Text) :
    (segments p).dropLast ++ [fileName p] = segments p := by
  have h : fileName p = (segments p).getLast (segments_ne_nil p) := by
    rw [fileName, List.getLastD_eq_getLast?, List.getLast?_eq_some_getLast (segments_ne_nil p),
      Option.getD_some]
  rw [h, List.dropLast_concat_getLast]

theorem Clean.isName_fileName {p : Text} (h : Clean p) : IsName (fileName p) :=
  h.isName (fileName p) (dropLast_segments_concat p ▸ by simp)

/-- What is added to a path without a slash is added to its last segment. -/
theorem segments_append (p : Text) {x : Text} (hx : '/' ∉ x) :
    segments (p ++ x) = (segments p).dropLast ++ [fileName p ++ x] := by
  have hp := dropLast_segments_concat p
  have hslash : ∀ s ∈ segments p, '/' ∉ s := fun s hs => slash_not_mem_of_mem_segments hs
  have heq : p ++ x = ofSegments ((segments p).dropLast ++ [fileName p ++ x]) := by
    rw [ofSegments_append_concat, hp, ofSegments_segments]
  rw [heq]
  refine segments_ofSegments (fun s hs => ?_) (by simp)
  rcases List.mem_append.1 hs with hs | hs
  · exact hslash s (List.dropLast_subset _ hs)
  · rw [List.mem_singleton.1 hs, List.mem_append, not_or]
    exact ⟨hslash _ (hp ▸ by simp), hx⟩

theorem parent_append (p : Text) {x : Text} (hx : '/' ∉ x) : parent (p ++ x) = parent p := by
  rw [parent, segments_append p hx, List.dropLast_concat, parent]

theorem fileName_append (p : Text) {x : Text} (hx : '/' ∉ x) :
    fileName (p ++ x) = fileName p ++ x := by
  rw [fileName, segments_append p hx, List.getLastD_concat]

/-- What a file name ends in, the path ends in. -/
theorem exists_eq_append_of_fileName {p stem x : Text} (h : fileName p = stem ++ x) :
    ∃ q, p = q ++ x := by
  refine ⟨ofSegments ((segments p).dropLast ++ [stem]), ?_⟩
  rw [← ofSegments_append_concat, ← h, dropLast_segments_concat, ofSegments_segments]

/-- A path is clean by the one that adds to its last segment, if this is still a name. -/
theorem clean_of_append {p x : Text} (hx : '/' ∉ x) (h : Clean (p ++ x))
    (hname : IsName (fileName p)) : Clean p := by
  intro s hs
  rw [← dropLast_segments_concat p] at hs
  rcases List.mem_append.1 hs with hs | hs
  · exact h s (segments_append p hx ▸ List.mem_append_left _ hs)
  · rw [List.mem_singleton.1 hs]
    exact ⟨hname.1, hname.2.1, hname.2.2.1⟩

/-- The characters of a path are slashes and those of its segments. -/
theorem mem_of_mem_ofSegments {ss : List Text} {c : Char} (h : c ∈ ofSegments ss) :
    c = '/' ∨ ∃ s ∈ ss, c ∈ s := by
  induction ss with
  | nil => simp [ofSegments] at h
  | cons s ss ih =>
    by_cases hne : ss = []
    · subst hne
      rw [ofSegments_singleton] at h
      exact Or.inr ⟨s, List.mem_cons_self, h⟩
    · rw [ofSegments_cons s hne] at h
      rcases List.mem_append.1 h with h | h
      · exact Or.inr ⟨s, List.mem_cons_self, h⟩
      rcases List.mem_cons.1 h with rfl | h
      · exact Or.inl rfl
      · exact (ih h).imp_right fun ⟨t, ht, hc⟩ => ⟨t, List.mem_cons_of_mem s ht, hc⟩

theorem mem_ofSegments {ss : List Text} {s : Text} (hs : s ∈ ss) {c : Char} (h : c ∈ s) :
    c ∈ ofSegments ss := by
  induction ss with
  | nil => cases hs
  | cons t ss ih =>
    by_cases hne : ss = []
    · subst hne
      rwa [ofSegments_singleton, ← List.mem_singleton.1 hs]
    · rw [ofSegments_cons t hne]
      rcases List.mem_cons.1 hs with rfl | hs
      · exact List.mem_append_left _ h
      · exact List.mem_append_right _ (List.mem_cons_of_mem _ (ih hs))

theorem mem_of_mem_segments {p s : Text} (hs : s ∈ segments p) {c : Char} (h : c ∈ s) : c ∈ p := by
  rw [← ofSegments_segments p]
  exact mem_ofSegments hs h

theorem mem_of_mem_parent {p : Text} {c : Char} (h : c ∈ parent p) : c ∈ p := by
  by_cases hne : (segments p).dropLast = []
  · rw [parent, hne] at h
    simp [ofSegments] at h
  · rw [← ofSegments_segments p, ← dropLast_segments_concat, ofSegments_append hne (by simp)]
    exact List.mem_append_left _ h

section

variable {ds : List Text} {n : Text} (hd : ∀ d ∈ ds, IsName d) (hn : IsName n)

include hd hn

theorem isName_of_mem_concat : ∀ s ∈ ds ++ [n], IsName s := by
  intro s hs
  rcases List.mem_append.1 hs with hs | hs
  · exact hd s hs
  · exact List.mem_singleton.1 hs ▸ hn

theorem segments_ofSegments_concat : segments (ofSegments (ds ++ [n])) = ds ++ [n] :=
  segments_ofSegments_names (isName_of_mem_concat hd hn) (by simp)

theorem parent_ofSegments : parent (ofSegments (ds ++ [n])) = ofSegments ds := by
  rw [parent, segments_ofSegments_concat hd hn, List.dropLast_concat]

theorem fileName_ofSegments : fileName (ofSegments (ds ++ [n])) = n := by
  rw [fileName, segments_ofSegments_concat hd hn, List.getLastD_concat]

/-- A file has as many slashes in its path as there are directories above it. -/
theorem count_slash_ofSegments_concat : (ofSegments (ds ++ [n])).count '/' = ds.length := by
  rw [count_slash_ofSegments (isName_of_mem_concat hd hn)]
  simp

end

theorem names_parent_prefix_names {p : Text} (h : Clean p) : names (parent p) <+: names p := by
  obtain ⟨ds, n, hd, hn, rfl⟩ := h.exists_eq
  rw [parent_ofSegments hd hn, names_ofSegments hd, names_ofSegments (isName_of_mem_concat hd hn)]
  exact List.prefix_append ds [n]

/-- The directory of a clean path is normal. -/
theorem Clean.normal_parent {p : Text} (h : Clean p) : Normal (parent p) := by
  obtain ⟨ds, n, hd, hn, rfl⟩ := h.exists_eq
  rw [parent_ofSegments hd hn]
  exact normal_iff.2 ⟨ds, hd, rfl⟩

theorem parent_nil : parent [] = [] := rfl

/-- The directory of a normal path is normal. -/
theorem Normal.normal_parent {p : Text} (h : Normal p) : Normal (parent p) := by
  rcases h with rfl | h
  · exact Or.inl parent_nil
  · exact h.normal_parent

/-! ## step, join -/

@[simp] theorem step_nil (place : List Text) : step place [] = place := by
  simp [step]

@[simp] theorem step_dot (place : List Text) : step place dot = place := by
  simp [step]

theorem step_name {n : Text} (h : IsName n) (place : List Text) :
    step place n = n :: place := by
  simp [step, h.1, h.2.1, h.2.2.1]

theorem step_dotDot_name {n : Text} (h : IsName n) (place : List Text) :
    step (n :: place) dotDot = place := by
  simp [step, h.2.2.1]

theorem foldl_step_names {ns : List Text} (h : ∀ n ∈ ns, IsName n) (place : List Text) :
    ns.foldl step place = ns.reverse ++ place := by
  induction ns generalizing place with
  | nil => rfl
  | cons n ns ih =>
    rw [List.foldl_cons, step_name (h n List.mem_cons_self),
      ih (fun m hm => h m (List.mem_cons_of_mem n hm))]
    simp

/-- A step up for each of the names. -/
abbrev ups (ns : List Text) : List Text :=
  ns.map fun _ => dotDot

/-- As many steps up as there are names lead back to where these names start. -/
theorem foldl_step_ups {ns : List Text} (h : ∀ n ∈ ns, IsName n) (place : List Text) :
    (ups ns).foldl step (ns ++ place) = place := by
  induction ns with
  | nil => rfl
  | cons n ns ih =>
    rw [ups, List.map_cons, List.foldl_cons, List.cons_append,
      step_dotDot_name (h n List.mem_cons_self)]
    exact ih fun m hm => h m (List.mem_cons_of_mem n hm)

theorem join_ofSegments {bs : List Text} (h : ∀ b ∈ bs, IsName b) (specifier : Text) :
    join (ofSegments bs) specifier =
      ofSegments ((segments specifier).foldl step bs.reverse).reverse := by
  rw [join, names_ofSegments h]

/-- A step stays where it is, leads one directory up, or adds a step up or its own segment. -/
theorem step_cases (place : List Text) (segment : Text) :
    step place segment = place ∨ step place segment = place.tail ∨
      step place segment = dotDot :: place ∨ step place segment = segment :: place := by
  unfold step
  split
  · exact Or.inl rfl
  split
  · cases place with
    | nil => exact Or.inr (Or.inr (Or.inl rfl))
    | cons inner outer =>
      dsimp only
      split
      · exact Or.inr (Or.inr (Or.inl rfl))
      · exact Or.inr (Or.inl rfl)
  · exact Or.inr (Or.inr (Or.inr rfl))

/-- A step adds nothing but its segment, or a step up. -/
theorem mem_of_mem_step {place : List Text} {segment s : Text} (h : s ∈ step place segment) :
    s = dotDot ∨ s ∈ place ∨ s = segment := by
  rcases step_cases place segment with heq | heq | heq | heq <;> rw [heq] at h
  · exact Or.inr (Or.inl h)
  · exact Or.inr (Or.inl (List.mem_of_mem_tail h))
  · exact (List.mem_cons.1 h).imp_right Or.inl
  · exact Or.inr (List.mem_cons.1 h).symm

theorem mem_of_mem_foldl_step {ss place : List Text} {s : Text} (h : s ∈ ss.foldl step place) :
    s = dotDot ∨ s ∈ place ∨ s ∈ ss := by
  induction ss generalizing place with
  | nil => exact Or.inr (Or.inl h)
  | cons segment ss ih =>
    rcases ih h with rfl | hs | hs
    · exact Or.inl rfl
    · rcases mem_of_mem_step hs with rfl | hs | rfl
      · exact Or.inl rfl
      · exact Or.inr (Or.inl hs)
      · exact Or.inr (Or.inr List.mem_cons_self)
    · exact Or.inr (Or.inr (List.mem_cons_of_mem segment hs))

section

variable {P : Text → Prop} (hdots : P dotDot) {ds : List Text} {d : Text} (hd : ¬ P d)

include hdots hd

/-- The names up to one that a step cannot have added were there before the step. -/
theorem prefix_of_prefix_step {place : List Text} {segment : Text} (hs : P segment)
    (h : ds ++ [d] <+: (step place segment).reverse) : ds ++ [d] <+: place.reverse := by
  have hadd {m : Text} (hm : P m) (h : ds ++ [d] <+: (m :: place).reverse) :
      ds ++ [d] <+: place.reverse := by
    rw [List.reverse_cons, concat_prefix_concat_iff] at h
    exact h.resolve_left fun heq => hd (heq.2 ▸ hm)
  rcases step_cases place segment with heq | heq | heq | heq <;> rw [heq] at h
  · exact h
  · refine h.trans ?_
    rw [← List.dropLast_reverse]
    exact List.dropLast_prefix _
  · exact hadd hdots h
  · exact hadd hs h

theorem prefix_of_prefix_foldl_step {ss place : List Text} (hss : ∀ s ∈ ss, P s)
    (h : ds ++ [d] <+: (ss.foldl step place).reverse) : ds ++ [d] <+: place.reverse := by
  induction ss generalizing place with
  | nil => exact h
  | cons segment ss ih =>
    obtain ⟨hsegment, hss⟩ := List.forall_mem_cons.1 hss
    exact prefix_of_prefix_step hdots hd hsegment (ih hss h)

end

/-- The segments of a joined path are those that following the specifier leaves, if any. -/
theorem segments_join (base specifier : Text) : segments (join base specifier) = [[]] ∨
    segments (join base specifier) =
      ((segments specifier).foldl step (names base).reverse).reverse := by
  by_cases hnil : (segments specifier).foldl step (names base).reverse = []
  · left
    rw [join, hnil]
    rfl
  · right
    refine segments_ofSegments (fun s hs => ?_) (by simpa using hnil)
    rcases mem_of_mem_foldl_step (List.mem_reverse.1 hs) with rfl | hs | hs
    · decide
    · exact slash_not_mem_of_mem_segments (List.mem_filter.1 (List.mem_reverse.1 hs)).1
    · exact slash_not_mem_of_mem_segments hs

/-- The characters of a joined path are those of its two parts, slashes and dots. -/
theorem mem_of_mem_join {base specifier : Text} {c : Char} (h : c ∈ join base specifier) :
    c = '/' ∨ c = '.' ∨ c ∈ base ∨ c ∈ specifier := by
  rcases mem_of_mem_ofSegments h with rfl | ⟨s, hs, hc⟩
  · exact Or.inl rfl
  rcases mem_of_mem_foldl_step (List.mem_reverse.1 hs) with rfl | hs | hs
  · exact Or.inr (Or.inl (by simpa using hc))
  · have hseg := (List.mem_filter.1 (List.mem_reverse.1 hs)).1
    exact Or.inr (Or.inr (Or.inl (mem_of_mem_segments hseg hc)))
  · exact Or.inr (Or.inr (Or.inr (mem_of_mem_segments hs hc)))

/-- A single segment is one step. -/
theorem join_segment {bs : List Text} (h : ∀ b ∈ bs, IsName b) {s : Text} (hs : '/' ∉ s) :
    join (ofSegments bs) s = ofSegments (step bs.reverse s).reverse := by
  rw [join_ofSegments h, segments_eq_singleton hs]
  rfl

end Path

end TrueCase

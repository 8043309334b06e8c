import TrueCase.Proofs.Path.Segments

/-!
# Joining again, and climbing

The names of a joined path are the place at which following the specifier ends. So joining twice is
joining once, with a slash between the two specifiers.

From a normal path the place is some number of steps above the root with names below it. A step up
that meets no name is added to those above the root and is never taken back. So a path climbs above
the root just when some front of the specifier goes up more often than there are names to leave.

## Main definitions

* `place`: the place that lies a number of steps above the root and some names below that.
* `Climbs`: some front of the segments goes up from more names than there are.

## Main statements

* `names_join`: the names of a joined path.
* `foldl_step_place`: where following segments leads, and when it climbs.
* `join_composes`: joining twice is joining once, and the result is normalised.
-/

namespace TrueCase.Path

/-! ## Joining twice -/

theorem step_stay {s : Text} (h : s = [] ∨ s = dot) (place : List Text) : step place s = place := by
  rcases h with rfl | rfl
  · exact step_nil place
  · exact step_dot place

/-- A step adds no empty segment and no slash. -/
theorem forall_mem_step {place : List Text} {segment : Text} (hslash : '/' ∉ segment)
    (h : ∀ s ∈ place, s ≠ [] ∧ '/' ∉ s) : ∀ s ∈ step place segment, s ≠ [] ∧ '/' ∉ s := by
  intro s hs
  rcases segment_cases hslash with hstay | rfl | hname
  · exact h s (step_stay hstay place ▸ hs)
  · rcases mem_of_mem_step hs with rfl | hs | rfl
    · decide
    · exact h s hs
    · decide
  · rw [step_name hname] at hs
    rcases List.mem_cons.1 hs with rfl | hs
    · exact ⟨hname.1, hname.slash_not_mem⟩
    · exact h s hs

theorem forall_mem_foldl_step {ss place : List Text} (hslash : ∀ s ∈ ss, '/' ∉ s)
    (h : ∀ s ∈ place, s ≠ [] ∧ '/' ∉ s) : ∀ s ∈ ss.foldl step place, s ≠ [] ∧ '/' ∉ s := by
  induction ss generalizing place with
  | nil => exact h
  | cons segment ss ih =>
    obtain ⟨hsegment, hrest⟩ := List.forall_mem_cons.1 hslash
    exact ih hrest (forall_mem_step hsegment h)

/-- The names of a joined path are what following the specifier leaves. -/
theorem names_join (base specifier : Text) : names (join base specifier) =
    ((segments specifier).foldl step (names base).reverse).reverse := by
  have hbase : ∀ s ∈ (names base).reverse, s ≠ [] ∧ '/' ∉ s := by
    intro s hs
    obtain ⟨hs, hne⟩ := List.mem_filter.1 (List.mem_reverse.1 hs)
    exact ⟨by simpa using hne, slash_not_mem_of_mem_segments hs⟩
  have hslash : ∀ s ∈ segments specifier, '/' ∉ s := fun s hs => slash_not_mem_of_mem_segments hs
  exact names_ofSegments_of_ne_nil fun s hs =>
    forall_mem_foldl_step hslash hbase s (List.mem_reverse.1 hs)

theorem ofSegments_names_join (base specifier : Text) :
    ofSegments (names (join base specifier)) = join base specifier := by
  rw [names_join, join]

theorem join_join (base s t : Text) : join (join base s) t = join base (s ++ '/' :: t) := by
  rw [join, names_join, List.reverse_reverse, ← List.foldl_append, ← segments_append_slash, join]

/-- A segment that stays where it is changes nothing in a joined path. -/
theorem join_join_stay (base specifier : Text) {s : Text} (h : s = [] ∨ s = dot) :
    join (join base specifier) s = join base specifier := by
  have hsegments : segments s = [s] := by
    rcases h with rfl | rfl <;> rfl
  rw [join, hsegments, List.foldl_cons, List.foldl_nil, step_stay h, List.reverse_reverse,
    ofSegments_names_join]

/-! ## Climbing -/

/-- The place that lies `k` steps above the root and then below by the names `ns`, which are given
innermost first. -/
def place (k : Nat) (ns : List Text) : List Text :=
  ns ++ List.replicate k dotDot

theorem step_place_name {n : Text} (h : IsName n) (k : Nat) (ns : List Text) :
    step (place k ns) n = place k (n :: ns) :=
  step_name h _

/-- A step up leaves the innermost name. -/
theorem step_place_up_cons {n : Text} (h : IsName n) (k : Nat) (ns : List Text) :
    step (place k (n :: ns)) dotDot = place k ns :=
  step_dotDot_name h _

/-- A step up that meets no name leads further above the root. -/
theorem step_place_up_nil (k : Nat) : step (place k []) dotDot = place (k + 1) [] := by
  cases k with
  | zero => rfl
  | succ k => simp [place, step, List.replicate_succ]

/-- Some front of the segments goes up more often than there are names to leave: those that were
there, `height` in number, and those that it has itself. -/
def Climbs (height : Nat) (ss : List Text) : Prop :=
  ∃ front, front <+: ss ∧ height + front.countP IsName < front.count dotDot

theorem not_climbs_nil (height : Nat) : ¬ Climbs height [] := by
  rintro ⟨front, hfront, h⟩
  obtain rfl := List.prefix_nil.1 hfront
  simp at h

theorem climbs_cons {height : Nat} {s : Text} {ss : List Text} : Climbs height (s :: ss) ↔
    ∃ front, front <+: ss ∧
      height + (s :: front).countP IsName < (s :: front).count dotDot := by
  constructor
  · rintro ⟨front, hfront, h⟩
    rcases List.prefix_cons_iff.1 hfront with rfl | ⟨t, rfl, ht⟩
    · simp at h
    · exact ⟨t, ht, h⟩
  · rintro ⟨front, hfront, h⟩
    exact ⟨s :: front, (List.prefix_cons_inj s).2 hfront, h⟩

theorem climbs_cons_stay {height : Nat} {s : Text} {ss : List Text} (h : s = [] ∨ s = dot) :
    Climbs height (s :: ss) ↔ Climbs height ss := by
  have hname : ¬ IsName s := by
    rcases h with rfl | rfl <;> decide
  have hup : s ≠ dotDot := by
    rcases h with rfl | rfl <;> decide
  rw [climbs_cons, Climbs]
  simp only [List.countP_cons, List.count_cons, beq_iff_eq, hname, hup, decide_false,
    Bool.false_eq_true, if_false, Nat.add_zero]

theorem climbs_cons_name {height : Nat} {n : Text} {ss : List Text} (h : IsName n) :
    Climbs height (n :: ss) ↔ Climbs (height + 1) ss := by
  rw [climbs_cons, Climbs]
  simp only [List.countP_cons, List.count_cons, beq_iff_eq, h, h.2.2.1, decide_true, if_true,
    if_false, Nat.add_zero, Nat.add_right_comm height 1, ← Nat.add_assoc]

theorem climbs_zero_cons_up (ss : List Text) : Climbs 0 (dotDot :: ss) :=
  ⟨[dotDot], by simp, by decide⟩

theorem climbs_succ_cons_up {height : Nat} {ss : List Text} :
    Climbs (height + 1) (dotDot :: ss) ↔ Climbs height ss := by
  have hname : ¬ IsName dotDot := by decide
  rw [climbs_cons, Climbs]
  simp only [List.countP_cons, List.count_cons, hname, decide_false, Bool.false_eq_true, if_false,
    BEq.rfl, if_true, Nat.add_zero, Nat.add_right_comm height 1, Nat.add_lt_add_iff_right]

/-- Following segments leads to a place that is never less far above the root, and further only if
the segments climb. -/
theorem foldl_step_place {ss ns : List Text} (hss : ∀ s ∈ ss, '/' ∉ s) (hns : ∀ n ∈ ns, IsName n)
    (k : Nat) : ∃ k' ns', (∀ n ∈ ns', IsName n) ∧ ss.foldl step (place k ns) = place k' ns' ∧
      k ≤ k' ∧ (k < k' ↔ Climbs ns.length ss) := by
  induction ss generalizing k ns with
  | nil => exact ⟨k, ns, hns, rfl, Nat.le_refl k, by simp [not_climbs_nil]⟩
  | cons s ss ih =>
    obtain ⟨hslash, hrest⟩ := List.forall_mem_cons.1 hss
    rw [List.foldl_cons]
    rcases segment_cases hslash with hstay | rfl | hname
    · rw [step_stay hstay, climbs_cons_stay hstay]
      exact ih hrest hns k
    · cases ns with
      | nil =>
        -- from here on the place is above the root for good
        obtain ⟨k', ns', hns', hfold, hle, -⟩ := ih hrest hns (k + 1)
        rw [step_place_up_nil]
        exact ⟨k', ns', hns', hfold, by omega, by simp [climbs_zero_cons_up]; omega⟩
      | cons n ns =>
        obtain ⟨hn, hns⟩ := List.forall_mem_cons.1 hns
        rw [step_place_up_cons hn, List.length_cons, climbs_succ_cons_up]
        exact ih hrest hns k
    · rw [step_place_name hname, climbs_cons_name hname]
      exact ih hrest (List.forall_mem_cons.2 ⟨hname, hns⟩) k

/-- From a normal path a specifier leads to some steps up with names behind them. -/
theorem exists_join_eq {base : Text} (hb : Normal base) (specifier : Text) :
    ∃ k ns, (∀ n ∈ ns, IsName n) ∧
      join base specifier = ofSegments (List.replicate k dotDot ++ ns) ∧
      (0 < k ↔ Climbs (names base).length (segments specifier)) := by
  obtain ⟨bs, hbs, rfl⟩ := normal_iff.1 hb
  have hslash : ∀ s ∈ segments specifier, '/' ∉ s := fun s hs => slash_not_mem_of_mem_segments hs
  have hrev : ∀ b ∈ bs.reverse, IsName b := fun b hm => hbs b (List.mem_reverse.1 hm)
  obtain ⟨k, ns, hns, hfold, -, hclimbs⟩ := foldl_step_place hslash hrev 0
  refine ⟨k, ns.reverse, fun n hn => hns n (List.mem_reverse.1 hn), ?_, ?_⟩
  · have hplace : bs.reverse = place 0 bs.reverse := by simp [place]
    rw [join_ofSegments hbs, hplace, hfold, place, List.reverse_append, List.reverse_replicate]
  · rwa [names_ofSegments hbs, ← List.length_reverse]

theorem head?_segments_steps_up {k : Nat} {ns : List Text} (hns : ∀ n ∈ ns, IsName n) :
    (segments (ofSegments (List.replicate k dotDot ++ ns))).head? = some dotDot ↔ 0 < k := by
  by_cases hnil : List.replicate k dotDot ++ ns = []
  · obtain ⟨hk, rfl⟩ := List.append_eq_nil_iff.1 hnil
    obtain rfl : k = 0 := by simpa using hk
    decide
  · rw [segments_ofSegments (fun s hs => ?_) hnil]
    · cases k with
      | zero =>
        refine iff_of_false (fun hhead => ?_) (by decide)
        exact (hns dotDot (List.mem_of_head? hhead)).2.2.1 rfl
      | succ k => simp [List.replicate_succ]
    · rcases List.mem_append.1 hs with hs | hs
      · rw [List.eq_of_mem_replicate hs]
        decide
      · exact (hns s hs).slash_not_mem

/-- Joining twice is joining once. From a normal path the result is some steps up with names behind
them, and stays as it is when nothing or a dot is joined to it. It starts with a step up just when
the specifier climbs from the names of that path. -/
theorem join_composes :
    (∀ base s t : Text, join (join base s) t = join base (s ++ '/' :: t)) ∧
      ∀ base : Text, Normal base → ∀ specifier : Text,
        (∃ k ns, (∀ n ∈ ns, IsName n) ∧
          join base specifier = ofSegments (List.replicate k dotDot ++ ns)) ∧
        join (join base specifier) [] = join base specifier ∧
        join (join base specifier) dot = join base specifier ∧
        ((segments (join base specifier)).head? = some dotDot ↔
          Climbs (names base).length (segments specifier)) := by
  refine ⟨join_join, fun base hb specifier => ?_⟩
  obtain ⟨k, ns, hns, hjoin, hclimbs⟩ := exists_join_eq hb specifier
  refine ⟨⟨k, ns, hns, hjoin⟩, join_join_stay base specifier (Or.inl rfl),
    join_join_stay base specifier (Or.inr rfl), ?_⟩
  rw [hjoin, head?_segments_steps_up hns, hclimbs]

/-- A specifier climbs by its third step though it has more names than steps up in the end. -/
theorem join_composes_climbing :
    Normal "pages/admin".toList ∧
      join "pages/admin".toList "./../..//../a/b/c/d".toList = "../a/b/c/d".toList ∧
      Climbs (names "pages/admin".toList).length (segments "./../..//../a/b/c/d".toList) := by
  have hb : Normal "pages/admin".toList := Or.inr (by decide)
  have hjoin : join "pages/admin".toList "./../..//../a/b/c/d".toList = "../a/b/c/d".toList := by
    decide
  refine ⟨hb, hjoin, (join_composes.2 _ hb _).2.2.2.1 ?_⟩
  rw [hjoin]
  decide

end TrueCase.Path

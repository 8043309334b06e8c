import TrueCase.Proofs.Path.Join
import TrueCase.Proofs.Path.Relative

/-!
# The shortest way to a path

The relative path between two normal paths is undone by joining it back, marked as relative or not.
It also has the fewest segments of all specifiers that lead there. For the way to a target gets
shorter by at most one segment with each step, also with one that climbs above the root or goes
astray, and it is as long as the relative path at the start and gone at the end.

## Main statements

* `length_way_step`: what a step does to the way that is left.
* `length_way_le_of_foldl_step`: how many steps it takes at least.
* `join_relative_shortest`: the relative path leads to its target with the fewest segments.
-/

namespace TrueCase.Path

/-! ## The length of the way -/

@[simp] theorem way_self (xs : List Text) : way xs xs = [] := by
  induction xs with
  | nil => rfl
  | cons x xs ih => rw [way, if_pos rfl, ih]

@[simp] theorem length_way_nil (ts : List Text) : (way [] ts).length = ts.length := by
  simp [way]

/-- One name more at the end of a path makes the way from it one segment longer or shorter. -/
theorem length_way_concat (xs ts : List Text) (x : Text) :
    (way xs ts).length ≤ (way (xs ++ [x]) ts).length + 1 ∧
      (way (xs ++ [x]) ts).length ≤ (way xs ts).length + 1 := by
  induction xs generalizing ts with
  | nil =>
    cases ts with
    | nil => simp [way]
    | cons t ts =>
      rw [List.nil_append, way]
      split
      · simp
        omega
      · simp
  | cons y xs ih =>
    cases ts with
    | nil => simp [way]
    | cons t ts =>
      rw [List.cons_append, way, way]
      split
      · exact ih ts
      · simp
        omega

/-- A step brings its place nearer to the target by one segment at most, and an empty segment does
not move it. -/
theorem length_way_step (place ts : List Text) (s : Text) : (way place.reverse ts).length ≤
    (way (step place s).reverse ts).length + if s = [] then 0 else 1 := by
  by_cases hs : s = []
  · simp [hs]
  rw [if_neg hs]
  have hadd (m : Text) : (way place.reverse ts).length ≤
      (way (m :: place).reverse ts).length + 1 := by
    rw [List.reverse_cons]
    exact (length_way_concat place.reverse ts m).1
  rcases step_cases place s with heq | heq | heq | heq <;> rw [heq]
  · omega
  · cases place with
    | nil => simp
    | cons inner outer =>
      rw [List.reverse_cons, List.tail_cons]
      exact (length_way_concat outer.reverse ts inner).2
  · exact hadd dotDot
  · exact hadd s

/-- Following segments takes at least as many of them, empty ones aside, as the way is long. -/
theorem length_way_le_of_foldl_step {ss place ts : List Text}
    (h : ss.foldl step place = ts.reverse) :
    (way place.reverse ts).length ≤ (ss.filter (· ≠ [])).length := by
  induction ss generalizing place with
  | nil =>
    rw [List.foldl_nil] at h
    simp [h]
  | cons s ss ih =>
    have hstep := length_way_step place ts s
    have hrest := ih h
    by_cases hs : s = []
    · rw [List.filter_cons_of_neg (by simpa using hs)]
      rw [if_pos hs] at hstep
      omega
    · rw [List.filter_cons_of_pos (by simpa using hs), List.length_cons]
      rw [if_neg hs] at hstep
      omega

/-! ## The relative path -/

variable {base target : Text}

/-- The segments of the relative path are those of the way. -/
theorem names_relative (hb : Normal base) (ht : Normal target) :
    names (relative base target) = way (names base) (names target) := by
  obtain ⟨bs, hbs, rfl⟩ := normal_iff.1 hb
  obtain ⟨ts, hts, rfl⟩ := normal_iff.1 ht
  obtain ⟨cs, us, ds, -, rfl, hw⟩ := way_eq bs ts
  rw [relative, names_ofSegments hbs, names_ofSegments hts, hw]
  exact names_ofSegments_of_ne_nil (ne_nil_of_mem_ups fun d hd => hts d (by simp [hd]))

/-- Marked as relative in front or closed with a slash, a path is followed in the same way. -/
theorem join_marked (base specifier : Text) :
    join base ('.' :: '/' :: specifier) = join base specifier ∧
      join base (specifier ++ ['/']) = join base specifier := by
  constructor
  · rw [show '.' :: '/' :: specifier = dot ++ '/' :: specifier from rfl, join,
      segments_append_slash, List.foldl_append]
    exact congrArg _ (congrArg _ (congrArg _ (step_dot _)))
  · rw [← join_join, join_join_stay base specifier (Or.inl rfl)]

theorem join_explicit_eq (base target : Text) :
    join base (explicit base target) = join base (relative base target) := by
  unfold explicit
  dsimp only
  split
  · next hnil =>
    rw [hnil]
    exact (join_marked base []).1
  split
  · exact (join_marked base _).2
  split
  · rfl
  · exact (join_marked base _).1

theorem join_relative (hb : Normal base) (ht : Normal target) :
    join base (relative base target) = target := by
  rw [← join_explicit_eq, join_explicit hb ht]

/-- A specifier that leads from one normal path to another has at least as many segments as the
relative path. -/
theorem length_names_relative_le (hb : Normal base) (ht : Normal target) {specifier : Text}
    (h : join base specifier = target) :
    (names (relative base target)).length ≤ (names specifier).length := by
  have hfold : (segments specifier).foldl step (names base).reverse = (names target).reverse := by
    rw [← h, names_join, List.reverse_reverse]
  rw [names_relative hb ht, ← List.reverse_reverse (names base)]
  exact length_way_le_of_foldl_step hfold

/-- The relative path leads to its target, also when it is made explicit, by a dot in front or a
slash behind, and no specifier that leads there has fewer segments. -/
theorem join_relative_shortest (hb : Normal base) (ht : Normal target) :
    join base (relative base target) = target ∧ join base (explicit base target) = target ∧
      join base ('.' :: '/' :: relative base target) = target ∧
      join base (relative base target ++ ['/']) = target ∧
      ∀ specifier, join base specifier = target →
        (names (relative base target)).length ≤ (names specifier).length := by
  have hrel := join_relative hb ht
  obtain ⟨hfront, hbehind⟩ := join_marked base (relative base target)
  exact ⟨hrel, join_explicit hb ht, hfront.trans hrel, hbehind.trans hrel,
    fun specifier h => length_names_relative_le hb ht h⟩

/-- A detour over the root takes more segments than the relative path. -/
theorem join_relative_shortest_above :
    Normal "a/b".toList ∧ Normal "a".toList ∧
      relative "a/b".toList "a".toList = "..".toList ∧
      explicit "a/b".toList "a".toList = "../".toList ∧
      join "a/b".toList "../../x/../a".toList = "a".toList ∧
      (names "..".toList).length ≤ (names "../../x/../a".toList).length := by
  have hb : Normal "a/b".toList := Or.inr (by decide)
  have ht : Normal "a".toList := Or.inr (by decide)
  have hjoin : join "a/b".toList "../../x/../a".toList = "a".toList := by decide
  have hrel : relative "a/b".toList "a".toList = "..".toList := by decide
  refine ⟨hb, ht, hrel, by decide, hjoin, ?_⟩
  rw [← hrel]
  exact (join_relative_shortest hb ht).2.2.2.2 _ hjoin

end TrueCase.Path

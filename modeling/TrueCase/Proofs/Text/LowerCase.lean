import Mathlib.Tactic.ByContra
import TrueCase.Proofs.Path.Segments
import TrueCase.Text.Lower

/-!
# Laws of the lower-case form

The lower-case form of a text depends on its characters one by one, except for the capital sigma,
which looks at its neighbours but never past a slash. So lower case goes through a path segment by
segment, and its length is that of its parts.

## Main statements

* `segments_lower`: the segments of a lower-case path are the lower-case segments.
* `length_lower_append`: the length of a lower-case text is the sum over its parts.
* `mem_lower_iff`, `lower_eq_iff`: characters before the letters stay as they are.
* `lower_join_congr`: the lower-case form of a joined path depends on that of the specifier.
* `lower_join`: lower case goes through joined paths.
* `lower_append_of_sigma_not_mem`: without a capital sigma, lower case goes through joins.
* `lower_append_settled`: what is lower-case already is still the end of the lower-case form.
-/

namespace TrueCase.Text

open Unicode

/-! ## Single characters -/

set_option maxRecDepth 20000 in
theorem image_of_mem_capitalRuns : ∀ r ∈ capitalRuns, 0x61 ≤ r.image ∧
    (r.image + (r.last - r.first) < 0xD800 ∨
      0xE000 ≤ r.image ∧ r.image + (r.last - r.first) < 0x110000) := by
  decide

/-- The small letter of a capital stands as far into its run as the capital does. -/
theorem toNat_lower {r : Run} {c : Char} (hr : r ∈ capitalRuns) (hc : r.covers c = true) :
    (r.lower c).toNat = r.image + (c.toNat - r.first) := by
  obtain ⟨-, hvalid⟩ := image_of_mem_capitalRuns r hr
  simp only [Run.covers, Bool.and_eq_true, decide_eq_true_eq] at hc
  have h : (r.image + (c.toNat - r.first)).isValidChar := by
    unfold Nat.isValidChar
    omega
  rw [Run.lower, Char.ofNat, dif_pos h]
  rfl

/-- The small letters of a run are characters at `a` or behind it. -/
theorem le_toNat_lower {r : Run} {c : Char} (hr : r ∈ capitalRuns) (hc : r.covers c = true) :
    0x61 ≤ (r.lower c).toNat := by
  rw [toNat_lower hr hc]
  exact Nat.le_add_right_of_le (image_of_mem_capitalRuns r hr).1

theorem le_toNat_toLower {c : Char} (h : c.toLower ≠ c) : 0x61 ≤ c.toLower.toNat := by
  unfold Char.toLower at h ⊢
  split
  · next hc =>
    have h₁ : 65 ≤ c.val.toNat := hc.1
    have h₂ : c.val.toNat ≤ 90 := hc.2
    change 97 ≤ (c.val + 32).toNat
    rw [UInt32.toNat_add]
    change 97 ≤ (c.val.toNat + 32) % 2 ^ 32
    omega
  · next hc => exact absurd (dif_neg hc) h

/-- A character before `a` is in the lower-case form of no character but itself. -/
theorem eq_of_mem_lowerChar {c d : Char} (hd : d.toNat < 0x61) (h : d ∈ lowerChar c) : d = c := by
  unfold lowerChar at h
  split at h
  · obtain rfl := List.mem_singleton.1 h
    by_contra hne
    have := le_toNat_toLower hne
    omega
  · split at h
    · simp at h
      rcases h with rfl | rfl <;> simp at hd
    · split at h
      · next r hr =>
        obtain rfl := List.mem_singleton.1 h
        have hc : r.covers c = true := List.find?_some (p := fun r : Run => r.covers c) hr
        have := le_toNat_lower (List.mem_of_find?_eq_some hr) hc
        omega
      · exact List.mem_singleton.1 h

/-! ## Texts -/

theorem mem_of_mem_lowerAfter {b : Bool} {t : Text} {d : Char} (hd : d.toNat < 0x61)
    (h : d ∈ lowerAfter b t) : d ∈ t := by
  induction t generalizing b with
  | nil => simp [lowerAfter] at h
  | cons c t ih =>
    simp only [lowerAfter, List.mem_append] at h
    rcases h with h | h
    · split at h
      · -- neither form of the small sigma stands before `a`
        split at h <;> simp at h <;> subst h <;> simp at hd
      · simp [eq_of_mem_lowerChar hd h]
    · exact List.mem_cons_of_mem c (ih h)

/-- A slash in a lower-case text was there before. -/
theorem slash_not_mem_lower {t : Text} (h : '/' ∉ t) : '/' ∉ t.lower :=
  fun hl => h (mem_of_mem_lowerAfter (by decide) hl)

set_option maxRecDepth 20000 in
theorem isCaseIgnorable_slash : isCaseIgnorable '/' = false ∧ isCased '/' = false := by
  decide

theorem startsCased_append_slash (s t : Text) :
    startsCased (s ++ '/' :: t) = startsCased s := by
  unfold startsCased
  rw [List.find?_append]
  cases s.find? fun c => !isCaseIgnorable c <;> simp [isCaseIgnorable_slash]

/-- Lower case does not look past a slash in either direction. -/
theorem lowerAfter_append_slash (b : Bool) (s t : Text) :
    lowerAfter b (s ++ '/' :: t) = lowerAfter b s ++ '/' :: t.lower := by
  induction s generalizing b with
  | nil =>
    simp [lowerAfter, lower, isCaseIgnorable_slash, show lowerChar '/' = ['/'] by decide]
  | cons c s ih => simp [lowerAfter, startsCased_append_slash, ih]

theorem lower_append_slash (s t : Text) :
    lower (s ++ '/' :: t) = s.lower ++ '/' :: t.lower :=
  lowerAfter_append_slash false s t

theorem lower_ofSegments (ss : List Text) :
    lower (Path.ofSegments ss) = Path.ofSegments (ss.map lower) := by
  induction ss with
  | nil => rfl
  | cons s ss ih =>
    cases ss with
    | nil => simp
    | cons s' ss =>
      rw [List.map_cons, Path.ofSegments_cons s (by simp), Path.ofSegments_cons s.lower (by simp),
        lower_append_slash, ih]

/-- Lower case goes through a path segment by segment. -/
theorem segments_lower (p : Text) : Path.segments p.lower = (Path.segments p).map lower := by
  conv_lhs => rw [← Path.ofSegments_segments p, lower_ofSegments]
  refine Path.segments_ofSegments ?_ ?_
  · rintro _ hs
    obtain ⟨s, hs', rfl⟩ := List.mem_map.1 hs
    exact slash_not_mem_lower (Path.slash_not_mem_of_mem_segments hs')
  · simpa using Path.segments_ne_nil p

theorem count_slash_lower (p : Text) : p.lower.count '/' = p.count '/' := by
  have h := congrArg List.length (segments_lower p)
  rw [List.length_map, Path.length_segments, Path.length_segments] at h
  omega

/-! ## Lengths and ends -/

theorem lowerChar_ne_nil (c : Char) : lowerChar c ≠ [] := by
  unfold lowerChar
  split
  · simp
  · split
    · simp
    · split <;> simp

theorem lower_eq_nil {t : Text} : t.lower = [] ↔ t = [] := by
  constructor
  · intro h
    cases t with
    | nil => rfl
    | cons c t =>
      simp only [lower, lowerAfter, List.append_eq_nil_iff] at h
      have hc := h.1
      split at hc
      · simp at hc
      · exact absurd hc (lowerChar_ne_nil c)
  · rintro rfl
    rfl

set_option maxRecDepth 20000 in
theorem length_lowerAfter (b : Bool) (t : Text) :
    (lowerAfter b t).length = (t.flatMap lowerChar).length := by
  induction t generalizing b with
  | nil => rfl
  | cons c t ih =>
    simp only [lowerAfter, List.length_append, List.flatMap_cons, ih]
    split
    · next hc =>
      subst hc
      rw [show (lowerChar 'Σ').length = 1 by decide]
      rfl
    · rfl

/-- Each part of a text adds the length of its own lower-case form. -/
theorem length_lower_append (s t : Text) :
    (lower (s ++ t)).length = s.lower.length + t.lower.length := by
  simp only [lower, length_lowerAfter, List.flatMap_append, List.length_append]

/-! ## Characters before the letters -/

theorem lowerChar_of_lt {c : Char} (hc : c.toNat < 0x41) : lowerChar c = [c] := by
  have hsmall : c.toLower = c := by
    by_contra hne
    refine hne (dif_neg fun h => ?_)
    have h₁ : 65 ≤ c.toNat := h.1
    omega
  rw [lowerChar, if_pos (by omega), hsmall]

theorem lowerAfter_cons_of_lt {c : Char} (hc : c.toNat < 0x41) (b : Bool) (t : Text) :
    lowerAfter b (c :: t) = c :: lowerAfter (if isCaseIgnorable c then b else isCased c) t := by
  have hσ : c ≠ 'Σ' := by
    rintro rfl
    exact absurd hc (by decide)
  rw [lowerAfter, if_neg hσ, lowerChar_of_lt hc]
  rfl

/-- A character before the letters is in a lower-case text exactly when it was there before. -/
theorem mem_lower_iff {c : Char} (hc : c.toNat < 0x41) {t : Text} : c ∈ t.lower ↔ c ∈ t := by
  refine ⟨mem_of_mem_lowerAfter (by omega), ?_⟩
  suffices h : ∀ b, c ∈ t → c ∈ lowerAfter b t from h false
  induction t with
  | nil => simp
  | cons d t ih =>
    intro b hmem
    rcases List.mem_cons.1 hmem with rfl | hmem
    · rw [lowerAfter_cons_of_lt hc]
      exact List.mem_cons_self
    · exact List.mem_append_right _ (ih _ hmem)

/-- What a lower-case text starts with, if that is a character before the letters. -/
theorem exists_of_lowerAfter_eq_cons {c : Char} (hc : c.toNat < 0x41) {b : Bool} {t x : Text}
    (h : lowerAfter b t = c :: x) : ∃ t', t = c :: t' ∧
      lowerAfter (if isCaseIgnorable c then b else isCased c) t' = x := by
  cases t with
  | nil => cases h
  | cons d t =>
    obtain rfl : c = d := by
      rw [lowerAfter] at h
      split at h
      · obtain ⟨rfl, -⟩ := List.cons.inj h
        split at hc <;> exact absurd hc (by decide)
      · cases hd : lowerChar d with
        | nil => exact absurd hd (lowerChar_ne_nil d)
        | cons e es =>
          rw [hd] at h
          obtain ⟨rfl, -⟩ := List.cons.inj h
          exact eq_of_mem_lowerChar (by omega) (hd ▸ List.mem_cons_self)
    rw [lowerAfter_cons_of_lt hc] at h
    exact ⟨t, rfl, (List.cons.inj h).2⟩

/-- A text of characters before the letters is the lower-case form of no text but itself. -/
theorem lower_eq_iff {t x : Text} (hx : ∀ c ∈ x, c.toNat < 0x41) : t.lower = x ↔ t = x := by
  suffices h : ∀ b, lowerAfter b t = x ↔ t = x from h false
  induction x generalizing t with
  | nil =>
    intro b
    rw [← List.length_eq_zero_iff, length_lowerAfter b, ← length_lowerAfter false,
      List.length_eq_zero_iff]
    exact lower_eq_nil
  | cons c x ih =>
    intro b
    have hc := hx c List.mem_cons_self
    have hmore {t : Text} := ih (t := t) fun d hd => hx d (List.mem_cons_of_mem c hd)
    constructor
    · intro h
      obtain ⟨t', rfl, h'⟩ := exists_of_lowerAfter_eq_cons hc h
      rw [(hmore _).1 h']
    · rintro rfl
      rw [lowerAfter_cons_of_lt hc, (hmore _).2 rfl]

/-! ## Joined paths -/

/-- Lower case goes through a step along a path. -/
theorem map_lower_step (place : List Text) (segment : Text) :
    (Path.step place segment).map lower = Path.step (place.map lower) segment.lower := by
  have hdot {t : Text} : t.lower = Path.dot ↔ t = Path.dot := lower_eq_iff (by simp)
  have hdots {t : Text} : t.lower = Path.dotDot ↔ t = Path.dotDot :=
    lower_eq_iff (by simp)
  have hself : lower Path.dotDot = Path.dotDot := hdots.2 rfl
  cases place with
  | nil =>
    simp only [Path.step, lower_eq_nil, hdot, hdots, List.map_nil]
    split <;> try rfl
    split <;> simp [hself]
  | cons inner outer =>
    simp only [Path.step, lower_eq_nil, hdot, hdots, List.map_cons]
    split <;> try rfl
    split
    · split <;> simp [hself]
    · simp

theorem map_lower_foldl_step (ss place : List Text) :
    (ss.foldl Path.step place).map lower = (ss.map lower).foldl Path.step (place.map lower) := by
  induction ss generalizing place with
  | nil => rfl
  | cons s ss ih => rw [List.foldl_cons, ih, map_lower_step, List.map_cons, List.foldl_cons]

/-- The names of a lower-case path are the lower-case names. -/
theorem names_lower (p : Text) : Path.names p.lower = (Path.names p).map lower := by
  rw [Path.names, Path.names, segments_lower, List.filter_map]
  congr 1
  apply List.filter_congr
  simp [lower_eq_nil]

/-- Following a specifier in lower case leads to the same place in lower case. -/
theorem map_lower_follow (base specifier : Text) :
    ((Path.segments specifier).foldl Path.step (Path.names base).reverse).map lower =
      (Path.segments specifier.lower).foldl Path.step (Path.names base.lower).reverse := by
  rw [map_lower_foldl_step, segments_lower, names_lower, List.map_reverse]

/-- Specifiers with one lower-case form lead to paths with one lower-case form. -/
theorem lower_join_congr (base : Text) {s t : Text} (h : s.lower = t.lower) :
    (Path.join base s).lower = (Path.join base t).lower := by
  rw [Path.join, Path.join, lower_ofSegments, lower_ofSegments, List.map_reverse, List.map_reverse,
    map_lower_follow, map_lower_follow, h]

/-- Lower case goes through a joined path: the key of the whole path is found by joining what is
lower-case already, and the two have the same segments. -/
theorem lower_join (base specifier : Text) :
    (Path.join base specifier).lower = Path.join base.lower specifier.lower ∧
      (Path.segments (Path.join base specifier)).map lower =
        Path.segments (Path.join base.lower specifier.lower) := by
  have hwhole : (Path.join base specifier).lower = Path.join base.lower specifier.lower := by
    rw [Path.join, lower_ofSegments, List.map_reverse, map_lower_follow, Path.join]
  constructor
  · exact hwhole
  · rw [← segments_lower, hwhole]

/-! ## Without a capital sigma, and with a settled end -/

/-- Without a capital sigma the characters do not look at each other. -/
theorem lowerAfter_eq_flatMap {b : Bool} {t : Text} (h : 'Σ' ∉ t) :
    lowerAfter b t = t.flatMap lowerChar := by
  induction t generalizing b with
  | nil => rfl
  | cons c t ih =>
    have hc : c ≠ 'Σ' := fun hc => h (by simp [hc])
    have ht : 'Σ' ∉ t := fun ht => h (List.mem_cons_of_mem c ht)
    simp [lowerAfter, hc, ih ht]

theorem lower_append_of_sigma_not_mem {s t : Text} (hs : 'Σ' ∉ s) (ht : 'Σ' ∉ t) :
    lower (s ++ t) = s.lower ++ t.lower := by
  have h : 'Σ' ∉ s ++ t := by simp [hs, ht]
  simp only [lower, lowerAfter_eq_flatMap h, lowerAfter_eq_flatMap hs, lowerAfter_eq_flatMap ht,
    List.flatMap_append]

/-- A capital sigma shows in the lower-case form as one of the two small ones. -/
theorem mem_lower_of_sigma_mem {t : Text} (h : 'Σ' ∈ t) : 'σ' ∈ t.lower ∨ 'ς' ∈ t.lower := by
  suffices hafter : ∀ b, 'σ' ∈ lowerAfter b t ∨ 'ς' ∈ lowerAfter b t from hafter false
  induction t with
  | nil => cases h
  | cons c t ih =>
    intro b
    simp only [lowerAfter, List.mem_append]
    rcases List.mem_cons.1 h with rfl | h
    · rw [if_pos rfl]
      split <;> simp
    · rcases ih h (if isCaseIgnorable c then b else isCased c) with hσ | hς
      · exact Or.inl (Or.inr hσ)
      · exact Or.inr (Or.inr hς)

/-- A text that lower case leaves as it is, whatever stands before it. -/
def Settled (t : Text) : Prop :=
  ∀ b, lowerAfter b t = t

theorem Settled.lower_eq {t : Text} (h : Settled t) : t.lower = t :=
  h false

/-- A text that is settled is still the end of the lower-case form of a longer text. -/
theorem lower_append_settled (s : Text) {t : Text} (ht : Settled t) :
    ∃ s' : Text, s'.length = s.lower.length ∧ lower (s ++ t) = s' ++ t := by
  suffices h : ∀ b, ∃ s' : Text, lowerAfter b (s ++ t) = s' ++ t by
    obtain ⟨s', hs'⟩ := h false
    refine ⟨s', ?_, hs'⟩
    have hlen := length_lower_append s t
    rw [ht.lower_eq, lower, hs', List.length_append] at hlen
    omega
  induction s with
  | nil => exact fun b => ⟨[], by simpa using ht b⟩
  | cons c s ih =>
    intro b
    obtain ⟨s', hs'⟩ := ih (if isCaseIgnorable c then b else isCased c)
    simp only [List.cons_append, lowerAfter, hs', ← List.append_assoc]
    exact ⟨_, rfl⟩

/-- Two settled ends of one text can be told apart by the lower-case form of the whole. -/
theorem eq_of_lower_append_eq {s t u : Text} (ht : Settled t) (hu : Settled u)
    (h : lower (s ++ t) = lower (s ++ u)) : t = u := by
  obtain ⟨s', hs', h₁⟩ := lower_append_settled s ht
  obtain ⟨s'', hs'', h₂⟩ := lower_append_settled s hu
  rw [h₁, h₂] at h
  exact (List.append_inj h (hs'.trans hs''.symm)).2

end TrueCase.Text

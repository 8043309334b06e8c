import TrueCase.Proofs.Text.LowerCase

/-!
# The final sigma

The capital sigma is the one letter whose lower-case form depends on what stands behind it. So the
end of a text decides whether its lower-case form stays the same when a text is put behind.

## Main definitions

* `Text.endsInSigma`: whether a text ends in a capital sigma that is taken for a final one.

## Main statements

* `Text.lower_append_congr`: texts with one lower-case form that both end in a final sigma, or both
  do not, keep one lower-case form.
* `Text.lower_append_ne`: if one of them does and the other does not, the forms fall apart.
-/

namespace TrueCase.Text

open Unicode

/-- Whether what follows a text ends in a final sigma: a capital sigma behind a cased letter, with
nothing but case-ignorable characters behind it. -/
def endsInSigmaAfter (afterCased : Bool) : Text → Bool
  | [] => false
  | c :: rest =>
    (c = 'Σ' && afterCased && rest.all isCaseIgnorable) ||
      endsInSigmaAfter (if isCaseIgnorable c then afterCased else isCased c) rest

/-- Whether a text ends in a final sigma. -/
def endsInSigma (t : Text) : Bool :=
  endsInSigmaAfter false t

theorem sigma_mem_of_endsInSigma {b : Bool} {t : Text} (h : endsInSigmaAfter b t = true) :
    'Σ' ∈ t := by
  induction t generalizing b with
  | nil => cases h
  | cons c t ih =>
    rcases Bool.or_eq_true_iff.1 h with hc | h
    · simp only [Bool.and_eq_true, decide_eq_true_eq] at hc
      rw [hc.1.1]
      exact List.mem_cons_self
    · exact List.mem_cons_of_mem c (ih h)

/-! ## Case-ignorable characters -/

set_option maxRecDepth 20000 in
theorem isCaseIgnorable_sigma : isCaseIgnorable 'Σ' = false ∧ isCaseIgnorable 'ς' = false := by
  decide

theorem sigma_not_mem_of_ignorable {t : Text} (h : t.all isCaseIgnorable = true) : 'Σ' ∉ t := by
  intro hmem
  have hno := isCaseIgnorable_sigma.1
  rw [List.all_eq_true.1 h _ hmem] at hno
  cases hno

/-- Looking ahead for a cased letter passes over case-ignorable characters. -/
theorem startsCased_append (s t : Text) : startsCased (s ++ t) =
    if s.all isCaseIgnorable then startsCased t else startsCased s := by
  induction s with
  | nil => simp
  | cons c s ih =>
    cases hc : isCaseIgnorable c with
    | false => simp [startsCased, hc]
    | true =>
      have hcons (t : Text) : startsCased (c :: t) = startsCased t := by simp [startsCased, hc]
      rw [List.cons_append, hcons, hcons, ih]
      simp [hc]

theorem startsCased_of_ignorable {t : Text} (h : t.all isCaseIgnorable = true) :
    startsCased t = false := by
  have happend := startsCased_append t []
  rwa [List.append_nil, if_pos h] at happend

set_option maxRecDepth 20000 in
theorem final_not_mem_image : ∀ r ∈ capitalRuns,
    ¬(r.image ≤ 0x3C2 ∧ 0x3C2 ≤ r.image + (r.last - r.first)) := by
  decide

/-- The final small sigma is in the lower-case form of no character but itself. -/
theorem eq_final_of_mem_lowerChar {c : Char} (h : 'ς' ∈ lowerChar c) : c = 'ς' := by
  unfold lowerChar at h
  split at h
  · next hc =>
    have hσ := List.mem_singleton.1 h
    have hascii : ∀ n < 128, (Char.ofNat n).toLower ≠ 'ς' := by decide
    exact absurd hσ.symm (by simpa using hascii c.toNat hc)
  · split at h
    · simp at h
    · split at h
      · next r hr =>
        have hσ := congrArg Char.toNat (List.mem_singleton.1 h)
        have hmem := List.mem_of_find?_eq_some hr
        have hc : r.covers c = true := List.find?_some (p := fun r : Run => r.covers c) hr
        rw [toNat_lower hmem hc] at hσ
        have hnot := final_not_mem_image r hmem
        simp only [Run.covers, Bool.and_eq_true, decide_eq_true_eq] at hc
        change 0x3C2 = _ at hσ
        omega
      · exact (List.mem_singleton.1 h).symm

/-- Case-ignorable characters have no final sigma in their lower-case forms. -/
theorem final_not_mem_of_ignorable {t : Text} (h : t.all isCaseIgnorable = true) (b : Bool) :
    'ς' ∉ lowerAfter b t := by
  rw [lowerAfter_eq_flatMap (sigma_not_mem_of_ignorable h)]
  intro hmem
  obtain ⟨c, hc, hς⟩ := List.mem_flatMap.1 hmem
  obtain rfl := eq_final_of_mem_lowerChar hς
  have hno := isCaseIgnorable_sigma.2
  rw [List.all_eq_true.1 h _ hc] at hno
  cases hno

/-! ## What is put behind a text -/

/-- A text that does not end in a final sigma keeps its lower-case form whatever is put behind. -/
theorem lowerAfter_append_of_not_endsInSigma {b : Bool} {s x : Text}
    (hs : endsInSigmaAfter b s = false) (hx : Settled x) :
    lowerAfter b (s ++ x) = lowerAfter b s ++ x := by
  induction s generalizing b with
  | nil => simpa [lowerAfter] using hx b
  | cons c s ih =>
    obtain ⟨hc, hs⟩ := Bool.or_eq_false_iff.1 hs
    have hform : c = 'Σ' → (b && !startsCased (s ++ x)) = (b && !startsCased s) := by
      rintro rfl
      cases b with
      | false => rfl
      | true =>
        have hnot : s.all isCaseIgnorable = false := by simpa using hc
        rw [startsCased_append, hnot]
        rfl
    rw [List.cons_append, lowerAfter, lowerAfter, ih hs, List.append_assoc]
    congr 1
    split
    · next hσ => rw [hform hσ]
    · rfl

/-- A final sigma at the end of a text is one no longer when something cased is put behind. -/
theorem exists_of_endsInSigma {b : Bool} {s : Text} (hs : endsInSigmaAfter b s = true) :
    ∃ p q, 'ς' ∉ q ∧ lowerAfter b s = p ++ 'ς' :: q ∧
      ∀ x, Settled x → startsCased x = true → lowerAfter b (s ++ x) = p ++ 'σ' :: (q ++ x) := by
  induction s generalizing b with
  | nil => cases hs
  | cons c s ih =>
    by_cases hlast : c = 'Σ' ∧ b = true ∧ s.all isCaseIgnorable = true
    · -- this is the final sigma
      obtain ⟨rfl, rfl, hall⟩ := hlast
      have hnone (b : Bool) : endsInSigmaAfter b s = false :=
        Bool.eq_false_iff.2 fun h => sigma_not_mem_of_ignorable hall (sigma_mem_of_endsInSigma h)
      refine ⟨[], lowerAfter (if isCaseIgnorable 'Σ' then true else isCased 'Σ') s,
        final_not_mem_of_ignorable hall _, ?_, fun x hx hcased => ?_⟩
      · rw [lowerAfter, if_pos rfl, startsCased_of_ignorable hall]
        rfl
      · rw [List.cons_append, lowerAfter, if_pos rfl, startsCased_append, if_pos hall, hcased,
          lowerAfter_append_of_not_endsInSigma (hnone _) hx]
        rfl
    · -- it stands further on, so that nothing behind it is seen from here
      have hmore : endsInSigmaAfter (if isCaseIgnorable c then b else isCased c) s = true := by
        rcases Bool.or_eq_true_iff.1 hs with hc | hs
        · exact absurd (by simpa [and_assoc] using hc) hlast
        · exact hs
      have hnot : s.all isCaseIgnorable = false :=
        Bool.eq_false_iff.2 fun h => sigma_not_mem_of_ignorable h (sigma_mem_of_endsInSigma hmore)
      obtain ⟨p, q, hq, hlower, happend⟩ := ih hmore
      refine ⟨(if c = 'Σ' then [if b && !startsCased s then 'ς' else 'σ'] else lowerChar c) ++ p,
        q, hq, ?_, fun x hx hcased => ?_⟩
      · rw [lowerAfter, hlower, List.append_assoc]
      · rw [List.cons_append, lowerAfter, happend x hx hcased, startsCased_append, hnot,
          List.append_assoc]
        rfl

/-- A text splits at the last occurrence of a character in one way only. -/
theorem eq_of_append_last_eq {c : Char} {p q p' q' : Text} (hq : c ∉ q) (hq' : c ∉ q')
    (h : p ++ c :: q = p' ++ c :: q') : p = p' ∧ q = q' := by
  rcases List.append_eq_append_iff.1 h with ⟨a, rfl, ha⟩ | ⟨a, rfl, ha⟩
  · cases a with
    | nil => exact ⟨by simp, (List.cons.inj ha).2⟩
    | cons d a => simp [(List.cons.inj ha).2] at hq
  · cases a with
    | nil => exact ⟨by simp, (List.cons.inj ha).2.symm⟩
    | cons d a => simp [(List.cons.inj ha).2] at hq'

section

variable {s t x y : Text} (h : s.lower = t.lower)

include h

/-- Texts with one lower-case form that both end in a final sigma, or both do not, have one
lower-case form again when the same is put behind them. -/
theorem lower_append_congr (hends : endsInSigma s = endsInSigma t) (hx : Settled x)
    (hcased : startsCased x = true) : lower (s ++ x) = lower (t ++ x) := by
  cases hs : endsInSigma s with
  | false =>
    have ht : endsInSigma t = false := hends ▸ hs
    rw [lower, lower, lowerAfter_append_of_not_endsInSigma hs hx,
      lowerAfter_append_of_not_endsInSigma ht hx]
    exact congrArg (· ++ x) h
  | true =>
    have ht : endsInSigma t = true := hends ▸ hs
    obtain ⟨p, q, hq, hlower, happend⟩ := exists_of_endsInSigma hs
    obtain ⟨p', q', hq', hlower', happend'⟩ := exists_of_endsInSigma ht
    obtain ⟨rfl, rfl⟩ := eq_of_append_last_eq hq hq' (hlower.symm.trans (h.trans hlower'))
    rw [lower, lower, happend x hx hcased, happend' x hx hcased]

/-- If one of two texts with one lower-case form ends in a final sigma and the other does not, they
never have one lower-case form when something cased is put behind them. -/
theorem lower_append_ne (hs : endsInSigma s = true) (ht : endsInSigma t = false) (hx : Settled x)
    (hy : Settled y) (hcased : startsCased x = true) : lower (s ++ x) ≠ lower (t ++ y) := by
  obtain ⟨p, q, -, hlower, happend⟩ := exists_of_endsInSigma hs
  have hlower' : lowerAfter false t = p ++ 'ς' :: q := h.symm.trans hlower
  rw [lower, lower, happend x hx hcased, lowerAfter_append_of_not_endsInSigma ht hy, hlower',
    List.append_assoc]
  intro heq
  have hcons := List.append_cancel_left heq
  simp at hcons

end

end TrueCase.Text

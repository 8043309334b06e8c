import Mathlib.Data.List.Basic
import TrueCase.Console.Style

/-!
# Text without its escape sequences

The escape sequences of a text are deleted in one pass from the left. A pass over two texts in a row
is a pass over each of them, as long as the second cannot carry on a sequence that the first has
left unfinished. An escape character cannot. So neither the sequences that styled text is wrapped in
nor those that are put behind a reset inside it have any part in what is left.

## Main definitions

* `Style.behindSequence?`: what stands behind the escape sequence at the start of a text.
* `Style.strip`: the text without its escape sequences.
* `Style.Fresh`: the text cannot carry on a sequence that has begun before it.

## Main statements

* `strip_append`: a pass over two texts in a row.
* `strip_paint`: styled text is left as the text is without style.
-/

namespace TrueCase.Style

/-- Digits and semicolons, which stand between the bracket of an escape sequence and its end. -/
def isCode (c : Char) : Bool :=
  c.isDigit || c = ';'

/-- What stands behind the escape sequence with which a text starts, if it starts with one. -/
def behindSequence? : Text → Option Text
  | '\x1b' :: '[' :: rest =>
    match rest.dropWhile isCode with
    | 'm' :: rest => some rest
    | _ => none
  | _ => none

theorem behindSequence?_eq_some_iff {t rest : Text} : behindSequence? t = some rest ↔
    ∃ codes, (∀ c ∈ codes, isCode c = true) ∧ t = '\x1b' :: '[' :: (codes ++ 'm' :: rest) := by
  constructor
  · intro h
    unfold behindSequence? at h
    split at h
    · next inner =>
      split at h
      · next behind hdrop =>
        obtain rfl := Option.some.inj h
        refine ⟨inner.takeWhile isCode, fun c hc => ?_, ?_⟩
        · exact List.all_eq_true.1 List.all_takeWhile c hc
        · rw [← hdrop, List.takeWhile_append_dropWhile]
      · cases h
    · cases h
  · rintro ⟨codes, hcodes, rfl⟩
    rw [behindSequence?, List.dropWhile_append_of_pos hcodes]
    rfl

theorem length_lt_of_behindSequence? {t rest : Text} (h : behindSequence? t = some rest) :
    rest.length < t.length := by
  obtain ⟨codes, -, rfl⟩ := behindSequence?_eq_some_iff.1 h
  simp
  omega

/-- The text without its escape sequences, deleted in one pass from the left. -/
def strip : Text → Text
  | [] => []
  | c :: t =>
    match h : behindSequence? (c :: t) with
    | some rest =>
      have := length_lt_of_behindSequence? h
      strip rest
    | none => c :: strip t
termination_by t => t.length
decreasing_by
  · exact this
  · exact Nat.lt_succ_self _

@[simp] theorem strip_nil : strip [] = [] := by
  rw [strip]

theorem strip_of_eq_some {t rest : Text} (h : behindSequence? t = some rest) :
    strip t = strip rest := by
  obtain ⟨codes, -, rfl⟩ := behindSequence?_eq_some_iff.1 h
  rw [strip]
  split
  · next hrest => exact congrArg strip (Option.some.inj (hrest.symm.trans h))
  · next hnone => cases hnone.symm.trans h

theorem strip_cons_of_eq_none {c : Char} {t : Text} (h : behindSequence? (c :: t) = none) :
    strip (c :: t) = c :: strip t := by
  rw [strip]
  split
  · next hrest => cases h.symm.trans hrest
  · rfl

/-- Only an escape character starts a sequence. -/
theorem strip_cons {c : Char} (h : c ≠ '\x1b') (t : Text) : strip (c :: t) = c :: strip t := by
  refine strip_cons_of_eq_none (Option.eq_none_iff_forall_ne_some.2 fun rest hrest => ?_)
  obtain ⟨codes, -, heq⟩ := behindSequence?_eq_some_iff.1 hrest
  exact h (List.cons.inj heq).1

/-- Text without escape characters stays as it is. -/
theorem strip_append_of_not_mem {t : Text} (h : '\x1b' ∉ t) (u : Text) :
    strip (t ++ u) = t ++ strip u := by
  induction t with
  | nil => rfl
  | cons c t ih =>
    rw [List.mem_cons, not_or] at h
    rw [List.cons_append, strip_cons (Ne.symm h.1), ih h.2, List.cons_append]

theorem strip_eq_self {t : Text} (h : '\x1b' ∉ t) : strip t = t := by
  simpa using strip_append_of_not_mem h []

/-! ## Two texts in a row -/

/-- The text starts with no character that could carry on an escape sequence. -/
def Fresh (t : Text) : Prop :=
  ∀ c, t.head? = some c → c ≠ '[' ∧ c ≠ 'm' ∧ isCode c = false

theorem fresh_cons {c : Char} (h : c ≠ '[' ∧ c ≠ 'm' ∧ isCode c = false) (t : Text) :
    Fresh (c :: t) := by
  rintro d hd
  obtain rfl := Option.some.inj hd
  exact h

theorem fresh_reset_append (t : Text) : Fresh (reset ++ t) :=
  fresh_cons (by decide) _

/-- A sequence that starts in one text ends in it, if the text behind is fresh. -/
theorem behindSequence?_append {t r : Text} (ht : t ≠ []) (hr : Fresh r) :
    behindSequence? (t ++ r) = (behindSequence? t).map (· ++ r) := by
  cases h : behindSequence? t with
  | some rest =>
    obtain ⟨codes, hcodes, rfl⟩ := behindSequence?_eq_some_iff.1 h
    exact behindSequence?_eq_some_iff.2 ⟨codes, hcodes, by simp⟩
  | none =>
    refine Option.eq_none_iff_forall_ne_some.2 fun rest hrest => ?_
    obtain ⟨codes, hcodes, heq⟩ := behindSequence?_eq_some_iff.1 hrest
    obtain ⟨c, t, rfl⟩ := List.exists_cons_of_ne_nil ht
    obtain ⟨rfl, htail⟩ := List.cons.inj heq
    rw [show '[' :: (codes ++ 'm' :: rest) = ('[' :: codes ++ ['m']) ++ rest by simp] at htail
    rcases List.append_eq_append_iff.1 htail with ⟨tail, hsequence, hr'⟩ | ⟨tail, rfl, -⟩
    · cases tail with
      | nil =>
        have hfound : behindSequence? ('\x1b' :: t) = some [] :=
          behindSequence?_eq_some_iff.2 ⟨codes, hcodes, by simpa using hsequence.symm⟩
        cases h.symm.trans hfound
      | cons d tail =>
        -- the sequence goes on in the second text
        obtain ⟨hopen, hend, hcode⟩ := hr d (by simp [hr'])
        have hd : d ∈ '[' :: codes ++ ['m'] := by simp [hsequence]
        simp only [List.cons_append, List.mem_cons, List.mem_append, List.not_mem_nil,
          or_false] at hd
        rcases hd with rfl | hd | rfl
        · exact hopen rfl
        · rw [hcodes d hd] at hcode
          cases hcode
        · exact hend rfl
    · have hfound : behindSequence? ('\x1b' :: ('[' :: codes ++ ['m'] ++ tail)) = some tail :=
        behindSequence?_eq_some_iff.2 ⟨codes, hcodes, by simp⟩
      cases h.symm.trans hfound

/-- A pass over two texts in a row is a pass over each of them, if the second is fresh. -/
theorem strip_append {r : Text} (hr : Fresh r) (t : Text) :
    strip (t ++ r) = strip t ++ strip r := by
  induction t using strip.induct with
  | case1 => simp
  | case2 c t rest h _ ih =>
    have happend : behindSequence? (c :: t ++ r) = some (rest ++ r) := by
      rw [behindSequence?_append (by simp) hr, h]
      rfl
    rw [strip_of_eq_some happend, strip_of_eq_some h, ih]
  | case3 c t h ih =>
    have happend : behindSequence? (c :: t ++ r) = none := by
      rw [behindSequence?_append (by simp) hr, h]
      rfl
    rw [strip_cons_of_eq_none h, List.cons_append, List.cons_append, ← ih]
    exact strip_cons_of_eq_none happend

/-! ## Styled text -/

theorem isCode_of_mem_ofNat {n : Nat} {c : Char} (h : c ∈ Text.ofNat n) : isCode c = true := by
  rw [isCode, Text.isDigit_of_mem_ofNat h, Bool.true_or]

theorem isCode_of_mem_intercalate (codes : List Nat) :
    ∀ c ∈ [';'].intercalate (codes.map Text.ofNat), isCode c = true := by
  induction codes with
  | nil => simp
  | cons n codes ih =>
    intro c hc
    cases codes with
    | nil => exact isCode_of_mem_ofNat (by simpa using hc)
    | cons m codes =>
      rw [List.map_cons, List.map_cons, List.intercalate_cons_cons, ← List.map_cons,
        List.mem_append, List.mem_append] at hc
      rcases hc with (hc | hc) | hc
      · exact isCode_of_mem_ofNat hc
      · rw [List.mem_singleton.1 hc]
        decide
      · exact ih c hc

theorem strip_sequence_append (codes : List Nat) (t : Text) :
    strip (sequence codes ++ t) = strip t := by
  refine strip_of_eq_some (behindSequence?_eq_some_iff.2 ⟨_, isCode_of_mem_intercalate codes, ?_⟩)
  simp [sequence]

theorem reset_eq_sequence : reset = sequence [0] := by
  decide

theorem strip_reset_append (t : Text) : strip (reset ++ t) = strip t := by
  rw [reset_eq_sequence, strip_sequence_append]

/-- What is put behind the resets of a text has no part in what is left. The text may stand behind
the start of a sequence, since each reset starts a new one. -/
theorem strip_append_reopen (codes : List Nat) (before t : Text) :
    strip (before ++ reopen (sequence codes) t) = strip (before ++ t) := by
  induction t using reopen.induct generalizing before with
  | case1 rest ih =>
    have hreset (x : Text) : strip (before ++ (reset ++ x)) = strip before ++ strip x := by
      rw [strip_append (fresh_reset_append x), strip_reset_append]
    have hrest := ih []
    rw [List.nil_append, List.nil_append] at hrest
    rw [reopen, List.append_assoc, hreset, strip_sequence_append, hrest]
    exact (hreset rest).symm
  | case2 c rest hreset ih =>
    rw [reopen.eq_2 _ _ _ hreset, List.append_cons, ih, ← List.append_cons]
  | case3 => rfl

/-- Styled text is left as the text is without style. -/
theorem strip_paint (style : Style) (coloured : Bool) (t : Text) :
    strip (paint style coloured t) = strip t := by
  cases coloured with
  | false => rfl
  | true =>
    simp only [paint, if_true]
    rw [List.append_assoc, strip_sequence_append, ← List.append_nil reset,
      strip_append (fresh_reset_append []), strip_reset_append, strip_nil, List.append_nil]
    exact strip_append_reopen style.codes [] t

end TrueCase.Style

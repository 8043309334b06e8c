import TrueCase.Text.Basic

/-!
# Glob patterns

Patterns for the names of files and directories: `?` stands for one character, `*` for any number
of them, `[a-z]` for one of a class and `[!a-z]` for one outside of it. A `**` must fill a whole
path component; it stands for nothing, for a run of leading directories, or for all the rest.

## Main definitions

* `Glob.Token`: one element of a pattern.
* `Glob.Error`: why a text is no pattern, and where.
* `Glob.parse`: reads a pattern.
* `Glob.Matches`: what a list of tokens stands for.
* `Glob.matchesText`: whether a pattern stands for a text.

## Main statements

* `Glob.matchesTokens_eq_true_iff`: the answers agree with what the tokens stand for.
-/

namespace TrueCase

namespace Glob

/-- A range of characters, both ends included. -/
structure CharRange where
  first : Char
  last : Char
  deriving DecidableEq, Repr

/-- Whether one of the ranges holds the character. -/
def inRanges (ranges : List CharRange) (c : Char) : Bool :=
  ranges.any fun r => r.first ≤ c ∧ c ≤ r.last

/-- An element of a pattern. -/
inductive Token where
  /-- The character itself. -/
  | char (c : Char)
  /-- Any one character. -/
  | anyChar
  /-- One character in one of the ranges. -/
  | within (ranges : List CharRange)
  /-- One character outside of the ranges. -/
  | except (ranges : List CharRange)
  /-- Any number of characters. -/
  | anySequence
  /-- Whole path components from the left, or everything. -/
  | anyComponents
  deriving DecidableEq, Repr

/-- What is wrong with a pattern. -/
inductive Problem where
  | tooManyStars
  | partOfComponent
  | unclosedClass
  deriving DecidableEq, Repr

/-- The place of a mistake, in characters, and its kind. -/
structure Error where
  position : Nat
  problem : Problem
  deriving DecidableEq, Repr

def Problem.message : Problem → Text
  | tooManyStars => "wildcards are either regular `*` or recursive `**`".toList
  | partOfComponent => "recursive wildcards must form a single path component".toList
  | unclosedClass => "invalid range pattern".toList

def Error.message (e : Error) : Text :=
  "Pattern syntax error near position ".toList ++ Text.ofNat e.position ++ ": ".toList ++
    e.problem.message

/-- The ranges written between brackets. A hyphen with a character on each side makes a range. -/
def ranges : Text → List CharRange
  | a :: '-' :: b :: rest => ⟨a, b⟩ :: ranges rest
  | a :: rest => ⟨a, a⟩ :: ranges rest
  | [] => []

/-- What stands before the next closing bracket and what stands after it. -/
def splitClass? (t : Text) : Option (Text × Text) :=
  match t.dropWhile (· ≠ ']') with
  | [] => none
  | _ :: after => some (t.takeWhile (· ≠ ']'), after)

/-- The character class that follows an opening bracket, the number of characters it takes, and the
text behind it. The first character of the class can be a closing bracket. -/
def class? : Text → Option (Token × Nat × Text)
  | '!' :: c :: rest =>
    (splitClass? rest).map fun (inside, after) =>
      (.except (ranges (c :: inside)), inside.length + 3, after)
  | '!' :: [] => none
  | c :: rest =>
    (splitClass? rest).map fun (inside, after) =>
      (.within (ranges (c :: inside)), inside.length + 2, after)
  | [] => none

theorem length_lt_of_splitClass? {t inside after : Text}
    (h : splitClass? t = some (inside, after)) : after.length < t.length := by
  unfold splitClass? at h
  split at h
  · cases h
  · next hd =>
    cases h
    have := congrArg List.length (List.takeWhile_append_dropWhile (p := (· ≠ ']')) (l := t))
    rw [hd] at this
    simp at this
    omega

theorem length_lt_of_class? {t after : Text} {token : Token} {n : Nat}
    (h : class? t = some (token, n, after)) : after.length < t.length := by
  unfold class? at h
  split at h
  all_goals
    first
    | cases h
    | obtain ⟨⟨inside, more⟩, hs, he⟩ := Option.map_eq_some_iff.1 h
      have := length_lt_of_splitClass? hs
      cases he
      simp
      omega

/-- The tokens of a pattern. `position` characters of it stand before the text, and `before` is the
last of them. -/
def parseFrom (position : Nat) (before : Option Char) : Text → Except Error (List Token)
  | [] => .ok []
  | '?' :: rest => (parseFrom (position + 1) (some '?') rest).map (.anyChar :: ·)
  | '*' :: '*' :: '*' :: _ => .error ⟨position + 2, .tooManyStars⟩
  | '*' :: '*' :: rest =>
    if before = none ∨ before = some '/' then
      match rest with
      | [] => .ok [.anyComponents]
      | '/' :: rest => (parseFrom (position + 3) (some '/') rest).map (.anyComponents :: ·)
      | _ => .error ⟨position + 2, .partOfComponent⟩
    else .error ⟨position - 1, .partOfComponent⟩
  | '*' :: rest => (parseFrom (position + 1) (some '*') rest).map (.anySequence :: ·)
  | '[' :: rest =>
    match h : class? rest with
    | some (token, n, after) =>
      (parseFrom (position + 1 + n) (some ']') after).map (token :: ·)
    | none => .error ⟨position, .unclosedClass⟩
  | c :: rest => (parseFrom (position + 1) (some c) rest).map (.char c :: ·)
termination_by t => t.length
decreasing_by
  · simp
  · simp; omega
  · simp
  · have := length_lt_of_class? h
    simp
    omega
  · simp

/-- Whether the token stands for the character. -/
def Token.accepts (c : Char) : Token → Bool
  | char d => c = d
  | anyChar => true
  | within ranges => inRanges ranges c
  | except ranges => !inRanges ranges c
  | anySequence | anyComponents => false

/-- What a list of tokens stands for. -/
inductive Matches : List Token → Text → Prop where
  | nil : Matches [] []
  | cons {token : Token} {tokens : List Token} {c : Char} {t : Text} :
      token.accepts c = true → Matches tokens t → Matches (token :: tokens) (c :: t)
  | sequence {tokens : List Token} {t : Text} (s : Text) :
      Matches tokens t → Matches (.anySequence :: tokens) (s ++ t)
  | noComponents {tokens : List Token} {t : Text} :
      Matches tokens t → Matches (.anyComponents :: tokens) t
  | components {tokens : List Token} {t : Text} (s : Text) :
      Matches tokens t → Matches (.anyComponents :: tokens) (s ++ '/' :: t)
  | allComponents {tokens : List Token} (s : Text) :
      Matches tokens [] → Matches (.anyComponents :: tokens) s

/-! ## Matching

Whether a list of tokens stands for a text is found for all tails of the text at once, the text
itself first and the empty tail last. A row of such answers follows from the row of the tokens behind
the first, so that the work grows with the product of the two lengths only. -/

/-- The row of no tokens: they stand for the empty tail alone. -/
def emptyRow : Text → List Bool
  | [] => [true]
  | _ :: t => false :: emptyRow t

/-- The row of a token for one character in front of tokens with the given row. -/
def characterRow (token : Token) : Text → List Bool → List Bool
  | c :: t, _ :: row => (token.accepts c && row.headD false) :: characterRow token t row
  | _, _ => [false]

/-- The row of any number of characters in front of tokens with the given row. -/
def sequenceRow : List Bool → List Bool
  | [] => []
  | answer :: row =>
    let more := sequenceRow row
    (answer || more.headD false) :: more

/-- For each tail, whether tokens with the given row stand for what is left of it behind some slash,
or for nothing. -/
def behindSlashRow : Text → List Bool → List Bool
  | c :: t, _ :: row =>
    let more := behindSlashRow t row
    ((c = '/' && row.headD false) || more.headD false) :: more
  | _, row => row

/-- The row of a token in front of tokens with the given row. -/
def Token.row (t : Text) (row : List Bool) : Token → List Bool
  | anySequence => sequenceRow row
  | anyComponents => row.zipWith (· || ·) (behindSlashRow t row)
  | token => characterRow token t row

/-- The row of a list of tokens. -/
def rowOf (t : Text) : List Token → List Bool
  | [] => emptyRow t
  | token :: tokens => token.row t (rowOf t tokens)

/-- Whether the tokens stand for the text. -/
def matchesTokens (tokens : List Token) (t : Text) : Bool :=
  (rowOf t tokens).headD false

theorem exists_rowOf_nil (tokens : List Token) : ∃ b, rowOf [] tokens = [b] := by
  induction tokens with
  | nil => exact ⟨true, rfl⟩
  | cons token tokens ih =>
    obtain ⟨b, hb⟩ := ih
    cases token <;> simp [rowOf, hb, Token.row, characterRow, sequenceRow, behindSlashRow]

theorem exists_rowOf_cons (c : Char) (t : Text) (tokens : List Token) :
    ∃ b, rowOf (c :: t) tokens = b :: rowOf t tokens := by
  induction tokens with
  | nil => exact ⟨false, rfl⟩
  | cons token tokens ih =>
    obtain ⟨b, hb⟩ := ih
    cases token <;> simp [rowOf, hb, Token.row, characterRow, sequenceRow, behindSlashRow]

theorem rowOf_nil (tokens : List Token) : rowOf [] tokens = [matchesTokens tokens []] := by
  obtain ⟨b, hb⟩ := exists_rowOf_nil tokens
  simp only [matchesTokens, hb, List.headD_cons]

theorem rowOf_cons (c : Char) (t : Text) (tokens : List Token) :
    rowOf (c :: t) tokens = matchesTokens tokens (c :: t) :: rowOf t tokens := by
  obtain ⟨b, hb⟩ := exists_rowOf_cons c t tokens
  simp only [matchesTokens, hb, List.headD_cons]

/-- Whether the tokens stand for what is left of the text behind some slash, or for nothing. -/
def matchesBehindSlash (tokens : List Token) (t : Text) : Bool :=
  (behindSlashRow t (rowOf t tokens)).headD false

section

variable (token : Token) (tokens : List Token) (c : Char) (t : Text)

theorem matchesTokens_nil : matchesTokens [] t = t.isEmpty := by
  cases t <;> rfl

theorem matchesTokens_cons_nil (h : token ≠ .anySequence ∧ token ≠ .anyComponents) :
    matchesTokens (token :: tokens) [] = false := by
  cases token <;> simp_all [matchesTokens, rowOf, Token.row, characterRow]

theorem matchesTokens_cons_cons (h : token ≠ .anySequence ∧ token ≠ .anyComponents) :
    matchesTokens (token :: tokens) (c :: t) = (token.accepts c && matchesTokens tokens t) := by
  rw [matchesTokens, rowOf, rowOf_cons]
  cases token <;> simp_all [Token.row, characterRow, matchesTokens]

theorem matchesTokens_sequence_nil :
    matchesTokens (.anySequence :: tokens) [] = matchesTokens tokens [] := by
  rw [matchesTokens, rowOf, rowOf_nil]
  simp [Token.row, sequenceRow]

theorem matchesTokens_sequence_cons :
    matchesTokens (.anySequence :: tokens) (c :: t) =
      (matchesTokens tokens (c :: t) || matchesTokens (.anySequence :: tokens) t) := by
  rw [matchesTokens, rowOf, rowOf_cons]
  simp [Token.row, sequenceRow, matchesTokens, rowOf]

theorem matchesTokens_components :
    matchesTokens (.anyComponents :: tokens) t =
      (matchesTokens tokens t || matchesBehindSlash tokens t) := by
  unfold matchesTokens matchesBehindSlash
  cases t with
  | nil =>
    obtain ⟨b, hb⟩ := exists_rowOf_nil tokens
    simp [rowOf, hb, Token.row, behindSlashRow]
  | cons c t =>
    obtain ⟨b, hb⟩ := exists_rowOf_cons c t tokens
    simp [rowOf, hb, Token.row, behindSlashRow]

theorem matchesBehindSlash_nil :
    matchesBehindSlash tokens [] = matchesTokens tokens [] := by
  simp [matchesBehindSlash, matchesTokens, behindSlashRow]

theorem matchesBehindSlash_cons :
    matchesBehindSlash tokens (c :: t) =
      ((c = '/' && matchesTokens tokens t) || matchesBehindSlash tokens t) := by
  unfold matchesBehindSlash
  rw [rowOf_cons]
  simp [behindSlashRow, matchesTokens]

end

theorem matchesBehindSlash_eq_true_iff {tokens : List Token} {t : Text} :
    matchesBehindSlash tokens t = true ↔
      matchesTokens tokens [] = true ∨
        ∃ s r, t = s ++ '/' :: r ∧ matchesTokens tokens r = true := by
  induction t with
  | nil => simp [matchesBehindSlash_nil]
  | cons c t ih =>
    simp only [matchesBehindSlash_cons, Bool.or_eq_true, Bool.and_eq_true, decide_eq_true_eq, ih]
    constructor
    · rintro (⟨rfl, h⟩ | h | ⟨s, r, rfl, h⟩)
      · exact .inr ⟨[], t, rfl, h⟩
      · exact .inl h
      · exact .inr ⟨c :: s, r, rfl, h⟩
    · rintro (h | ⟨s, r, hr, h⟩)
      · exact .inr (.inl h)
      · cases s with
        | nil =>
          cases hr
          exact .inl ⟨rfl, h⟩
        | cons d s =>
          cases hr
          exact .inr (.inr ⟨s, r, rfl, h⟩)

theorem matchesTokens_sequence_eq_true_iff {tokens : List Token} {t : Text} :
    matchesTokens (.anySequence :: tokens) t = true ↔
      ∃ s r, t = s ++ r ∧ matchesTokens tokens r = true := by
  induction t with
  | nil => simp [matchesTokens_sequence_nil, and_assoc]
  | cons c t ih =>
    rw [matchesTokens_sequence_cons, Bool.or_eq_true, ih]
    constructor
    · rintro (h | ⟨s, r, rfl, h⟩)
      · exact ⟨[], c :: t, rfl, h⟩
      · exact ⟨c :: s, r, rfl, h⟩
    · rintro ⟨s, r, hr, h⟩
      cases s with
      | nil =>
        cases hr
        exact .inl h
      | cons d s =>
        cases hr
        exact .inr ⟨s, r, rfl, h⟩

theorem Token.not_wild_of_accepts {token : Token} {c : Char} (h : token.accepts c = true) :
    token ≠ .anySequence ∧ token ≠ .anyComponents := by
  constructor <;> (rintro rfl; cases h)

theorem matchesTokens_of_matches {tokens : List Token} {t : Text} (h : Matches tokens t) :
    matchesTokens tokens t = true := by
  induction h with
  | nil => rfl
  | cons hc _ ih => simp [matchesTokens_cons_cons _ _ _ _ (Token.not_wild_of_accepts hc), hc, ih]
  | sequence s _ ih => exact matchesTokens_sequence_eq_true_iff.2 ⟨s, _, rfl, ih⟩
  | noComponents _ ih => simp [matchesTokens_components, ih]
  | components s _ ih =>
    have hs := matchesBehindSlash_eq_true_iff.2 (.inr ⟨s, _, rfl, ih⟩)
    simp [matchesTokens_components, hs]
  | allComponents s _ ih =>
    have hs := (matchesBehindSlash_eq_true_iff (t := s)).2 (.inl ih)
    simp [matchesTokens_components, hs]

theorem matches_of_matchesTokens {tokens : List Token} {t : Text}
    (h : matchesTokens tokens t = true) : Matches tokens t := by
  induction tokens generalizing t with
  | nil =>
    rw [matchesTokens_nil, List.isEmpty_iff] at h
    subst h
    exact .nil
  | cons token tokens ih =>
    by_cases hs : token = .anySequence
    · subst hs
      obtain ⟨s, r, rfl, hr⟩ := matchesTokens_sequence_eq_true_iff.1 h
      exact .sequence s (ih hr)
    by_cases hc : token = .anyComponents
    · subst hc
      rw [matchesTokens_components, Bool.or_eq_true, matchesBehindSlash_eq_true_iff] at h
      rcases h with h | h | ⟨s, r, rfl, hr⟩
      · exact .noComponents (ih h)
      · exact .allComponents t (ih h)
      · exact .components s (ih hr)
    cases t with
    | nil => simp [matchesTokens_cons_nil _ _ ⟨hs, hc⟩] at h
    | cons c t =>
      rw [matchesTokens_cons_cons _ _ _ _ ⟨hs, hc⟩, Bool.and_eq_true] at h
      exact .cons h.1 (ih h.2)

theorem matchesTokens_eq_true_iff {tokens : List Token} {t : Text} :
    matchesTokens tokens t = true ↔ Matches tokens t :=
  ⟨matches_of_matchesTokens, matchesTokens_of_matches⟩

end Glob

/-- A glob pattern. -/
structure Glob where
  tokens : List Glob.Token
  deriving DecidableEq, Repr

namespace Glob

/-- Read a pattern. -/
def parse (t : Text) : Except Error Glob :=
  (parseFrom 0 none t).map Glob.mk

/-- Whether the pattern stands for the text. -/
def matchesText (glob : Glob) (t : Text) : Bool :=
  matchesTokens glob.tokens t

end Glob

end TrueCase

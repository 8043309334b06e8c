import TrueCase.Text.Basic
import TrueCase.Unicode.WhiteSpace
import TrueCase.Unicode.Word

/-!
# Import clauses

A source is read only as far as its `from` clauses: the word `from`, white space, and a specifier
between two quotes of one kind. A source splits into its clauses and what stands between them, and
the parts put together again are the source.

## Main definitions

* `ImportClause`: a clause with all that stands between it and the one before.
* `ImportClause.atStart?`: reads a clause that starts at the beginning of a text.
* `SourceText`: a source split into its clauses and the rest.
* `SourceText.ofText`: finds the clauses of a source, leftmost first.
* `SourceText.imports`: the specifiers with their places.
* `SourceText.mapSpecifiers`: puts other specifiers between the quotes.
-/

namespace TrueCase

open Unicode

/-- The two quotes that can enclose a specifier. -/
inductive Quote where
  | single
  | double
  deriving DecidableEq, Repr

namespace Quote

def char : Quote → Char
  | single => '\''
  | double => '"'

def ofChar? (c : Char) : Option Quote :=
  if c = '\'' then some single else if c = '"' then some double else none

@[simp] theorem ofChar?_char (q : Quote) : ofChar? q.char = some q := by
  cases q <;> rfl

theorem ofChar?_eq_some_iff {c : Char} {q : Quote} : ofChar? c = some q ↔ c = q.char := by
  constructor
  · intro h
    unfold ofChar? at h
    split at h
    · cases h; assumption
    · split at h
      · cases h; assumption
      · cases h
  · rintro rfl
    exact ofChar?_char q

end Quote

/-- Whether the character is a quote of either kind. -/
def isQuote (c : Char) : Bool :=
  (Quote.ofChar? c).isSome

/-- A `from` clause in a source. -/
structure ImportClause where
  /-- All that stands before the opening quote, back to the end of the clause before. -/
  lead : Text
  quote : Quote
  /-- What the quotes enclose. -/
  specifier : Text
  deriving DecidableEq, Repr

namespace ImportClause

/-- The clause as it stands in its source. -/
def text (clause : ImportClause) : Text :=
  clause.lead ++ clause.quote.char :: (clause.specifier ++ [clause.quote.char])

/-- The specifier between two quotes at the start of a text, with the quote and what follows. -/
def quoted? : Text → Option (Quote × Text × Text)
  | [] => none
  | c :: rest =>
    match Quote.ofChar? c, rest.takeWhile (!isQuote ·), rest.dropWhile (!isQuote ·) with
    | some quote, s :: specifier, d :: after =>
      if d = quote.char then some (quote, s :: specifier, after) else none
    | _, _, _ => none

/-- The clause at the start of a text, with the text behind it. `before` is the character that the
text follows. -/
def atStart? (before : Option Char) : Text → Option (ImportClause × Text)
  | 'f' :: 'r' :: 'o' :: 'm' :: rest =>
    let gap := rest.takeWhile isWhiteSpace
    if wordBoundary before (some 'f') ∧ gap ≠ [] then
      (quoted? (rest.dropWhile isWhiteSpace)).map fun (quote, specifier, after) =>
        (⟨"from".toList ++ gap, quote, specifier⟩, after)
    else none
  | _ => none

theorem append_of_quoted? {t : Text} {quote : Quote} {specifier after : Text}
    (h : quoted? t = some (quote, specifier, after)) :
    t = quote.char :: (specifier ++ quote.char :: after) := by
  cases t with
  | nil => cases h
  | cons c rest =>
    simp only [quoted?] at h
    split at h
    · next hq hs hd =>
      split at h
      · next heq =>
        cases h
        rw [← heq, ← hs, ← hd, List.takeWhile_append_dropWhile, Quote.ofChar?_eq_some_iff.1 hq]
        simp [heq]
      · cases h
    · cases h

theorem append_of_atStart? {before : Option Char} {t after : Text} {clause : ImportClause}
    (h : atStart? before t = some (clause, after)) : t = clause.text ++ after := by
  unfold atStart? at h
  split at h
  · next rest =>
    dsimp only at h
    split at h
    · obtain ⟨⟨quote, specifier, more⟩, hq, hc⟩ := Option.map_eq_some_iff.1 h
      cases hc
      have := append_of_quoted? hq
      simp only [text, List.append_assoc, List.cons_append, List.nil_append]
      rw [← this, List.takeWhile_append_dropWhile]
      rfl
    · cases h
  · cases h

theorem length_lt_of_atStart? {before : Option Char} {t after : Text} {clause : ImportClause}
    (h : atStart? before t = some (clause, after)) : after.length < t.length := by
  rw [append_of_atStart? h]
  simp [text]
  omega

end ImportClause

/-- A source split into its clauses and the text behind the last of them. -/
structure SourceText where
  clauses : List ImportClause
  tail : Text
  deriving DecidableEq, Repr

/-- A specifier with its place: the bytes from `start` up to `stop`, and the line, counted from 1,
of the first of them. -/
structure ImportRef where
  specifier : Text
  start : Nat
  stop : Nat
  line : Nat
  deriving DecidableEq, Repr

namespace SourceText

/-- The source with its parts put together. -/
def text (source : SourceText) : Text :=
  source.clauses.flatMap ImportClause.text ++ source.tail

/-- The parts of a text that follows the character `before`. `passed` holds, last character first,
what has been passed since the last clause. -/
def scan (before : Option Char) (passed t : Text) : SourceText :=
  match _ : ImportClause.atStart? before t with
  | some (clause, after) =>
    let found := { clause with lead := passed.reverse ++ clause.lead }
    let more := scan (some clause.quote.char) [] after
    ⟨found :: more.clauses, more.tail⟩
  | none =>
    match t with
    | [] => ⟨[], passed.reverse⟩
    | c :: rest => scan (some c) (c :: passed) rest
termination_by t.length
decreasing_by
  · exact ImportClause.length_lt_of_atStart? ‹_›
  · simp

/-- The clauses of a source: the leftmost that there is, then the leftmost behind it, and so on. -/
def ofText (t : Text) : SourceText :=
  scan none [] t

theorem text_scan (before : Option Char) (passed t : Text) :
    (scan before passed t).text = passed.reverse ++ t := by
  fun_induction scan before passed t with
  | case1 before passed t clause after h ih =>
    rw [ImportClause.append_of_atStart? h]
    simp_all [text, ImportClause.text]
  | case2 before passed h => simp [text]
  | case3 before passed c rest h ih => simpa using ih

@[simp] theorem text_ofText (t : Text) : (ofText t).text = t := by
  simp [ofText, text_scan]

/-- The specifiers of clauses that start at byte `offset` on the given line. -/
def importsFrom (offset line : Nat) : List ImportClause → List ImportRef
  | [] => []
  | clause :: clauses =>
    let start := offset + clause.lead.utf8Size + 1
    let stop := start + clause.specifier.utf8Size
    let line := line + clause.lead.lineFeeds
    ⟨clause.specifier, start, stop, line⟩ ::
      importsFrom (stop + 1) (line + clause.specifier.lineFeeds) clauses

/-- The specifiers of a source with their places. -/
def imports (source : SourceText) : List ImportRef :=
  importsFrom 0 1 source.clauses

/-- The source with `f s` in place of each specifier `s`. -/
def mapSpecifiers (f : Text → Text) (source : SourceText) : SourceText where
  clauses := source.clauses.map fun clause => { clause with specifier := f clause.specifier }
  tail := source.tail

end SourceText

end TrueCase

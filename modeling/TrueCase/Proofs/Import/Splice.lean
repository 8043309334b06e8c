import TrueCase.Proofs.Import.Fix

/-!
# Fixing as splicing

The place of a specifier is given by byte offsets into its source. A source is spliced by going
through it with a cursor: what stands between the places is copied, and at each place another text
is put in. A fixed source is its source with the right specifier spliced in at each place.

## Main definitions

* `Text.splitAt?`, `Text.slice?`: cut a text at byte offsets, which must fall between characters.
* `ImportRef.StandsIn`: a specifier stands in a text at the place and on the line that it gives.
* `splice?`: a source with other texts at some places.
* `correctSpecifier`: what should stand in place of a specifier.

## Main statements

* `SourceText.standsIn_of_mem_imports`: the specifiers of a source stand at their places in it.
* `SourceText.splice?_imports`: what comes of splicing at the places of the specifiers.
* `fixSource_eq_splice`: a fixed source, its records and its missing files.
-/

namespace TrueCase

/-! ## Byte offsets -/

namespace Text

/-- What stands before a byte offset and what behind it, if the offset falls between characters. -/
def splitAt? : Nat → Text → Option (Text × Text)
  | 0, t => some ([], t)
  | _ + 1, [] => none
  | n + 1, c :: t =>
    if c.utf8Size ≤ n + 1 then
      (splitAt? (n + 1 - c.utf8Size) t).map fun (front, rest) => (c :: front, rest)
    else none

/-- The text from the byte `start` up to the byte `stop`, if both fall between characters. -/
def slice? (start stop : Nat) (t : Text) : Option Text := do
  let (front, _) ← splitAt? stop t
  let (_, s) ← splitAt? start front
  return s

theorem splitAt?_append (front rest : Text) :
    splitAt? front.utf8Size (front ++ rest) = some (front, rest) := by
  induction front with
  | nil => simp [splitAt?]
  | cons c front ih =>
    have hpos := c.utf8Size_pos
    obtain ⟨n, hn⟩ : ∃ n, utf8Size (c :: front) = n + 1 :=
      Nat.exists_eq_add_one.2 (by rw [utf8Size_cons]; omega)
    have hrest : n + 1 - c.utf8Size = utf8Size front := by
      rw [← hn, utf8Size_cons, Nat.add_sub_cancel_left]
    have hle : c.utf8Size ≤ n + 1 := by
      rw [← hn, utf8Size_cons]
      exact Nat.le_add_right _ _
    rw [hn, List.cons_append, splitAt?, if_pos hle, hrest, ih]
    rfl

/-- A text splits at a byte offset in one way only. -/
theorem eq_of_append_eq {s s' t t' : Text} (h : s ++ t = s' ++ t')
    (hsize : s.utf8Size = s'.utf8Size) : s = s' ∧ t = t' := by
  have hsplit := splitAt?_append s t
  rw [h, hsize, splitAt?_append] at hsplit
  cases hsplit
  exact ⟨rfl, rfl⟩

theorem slice?_append (a s b : Text) :
    slice? a.utf8Size (a ++ s).utf8Size (a ++ s ++ b) = some s := by
  simp only [slice?, splitAt?_append, bind, Option.bind, pure]

end Text

/-- The specifier stands in the text at its place, and on its line. -/
structure ImportRef.StandsIn (place : ImportRef) (t : Text) : Prop where
  slice : t.slice? place.start place.stop = some place.specifier
  line : (t.slice? 0 place.start).map (·.lineFeeds + 1) = some place.line

/-- The source from the byte `cursor` on, with other texts in place of what stands at some places.
What stands between the places is copied. -/
def splice? (source : Text) (cursor : Nat) : List (ImportRef × Text) → Option Text
  | [] => source.slice? cursor source.utf8Size
  | (place, new) :: edits => do
    let gap ← source.slice? cursor place.start
    let rest ← splice? source place.stop edits
    return gap ++ new ++ rest

/-! ## The places of the specifiers -/

theorem Quote.utf8Size_char (quote : Quote) : quote.char.utf8Size = 1 := by
  cases quote <;> decide

theorem Quote.char_ne_lineFeed (quote : Quote) : quote.char ≠ '\n' := by
  cases quote <;> decide

namespace SourceText

section

variable (clause : ImportClause) (clauses : List ImportClause) (a b tail : Text) (line : Nat)

/-- The text up to the opening quote of a clause, that quote included. -/
def upToQuote : Text :=
  b ++ clause.lead ++ [clause.quote.char]

theorem append_clause : a ++ b ++ ((clause :: clauses).flatMap ImportClause.text ++ tail) =
    a ++ upToQuote clause b ++ clause.specifier ++ [clause.quote.char] ++
      (clauses.flatMap ImportClause.text ++ tail) := by
  simp [upToQuote, ImportClause.text]

theorem importsFrom_cons : importsFrom (a ++ b).utf8Size line (clause :: clauses) =
    ⟨clause.specifier, (a ++ upToQuote clause b).utf8Size,
        (a ++ upToQuote clause b ++ clause.specifier).utf8Size,
        line + clause.lead.lineFeeds⟩ ::
      importsFrom (a ++ upToQuote clause b ++ clause.specifier ++ [clause.quote.char]).utf8Size
        (line + clause.lead.lineFeeds + clause.specifier.lineFeeds) clauses := by
  simp only [importsFrom, upToQuote, Text.utf8Size_append, Text.utf8Size_cons, Text.utf8Size_nil,
    Quote.utf8Size_char, Nat.add_assoc, Nat.add_zero]

end

/-- Splicing from behind the text `a` on, where `b` stands between the cursor and the next clause. -/
theorem splice?_importsFrom (f : Text → Text) (clauses : List ImportClause) (a b tail : Text)
    (line : Nat) : splice? (a ++ b ++ (clauses.flatMap ImportClause.text ++ tail)) a.utf8Size
      ((importsFrom (a ++ b).utf8Size line clauses).map fun m => (m, f m.specifier)) =
        some (b ++ (mapSpecifiers f ⟨clauses, tail⟩).text) := by
  induction clauses generalizing a b line with
  | nil =>
    have hall := Text.slice?_append a (b ++ tail) []
    simpa [splice?, importsFrom, mapSpecifiers, text] using hall
  | cons clause clauses ih =>
    rw [append_clause, importsFrom_cons, List.map_cons, splice?]
    have hgap := Text.slice?_append a (upToQuote clause b)
      (clause.specifier ++ [clause.quote.char] ++ (clauses.flatMap ImportClause.text ++ tail))
    have hrest := ih (a ++ upToQuote clause b ++ clause.specifier) [clause.quote.char]
      (line + clause.lead.lineFeeds + clause.specifier.lineFeeds)
    simp only [← List.append_assoc] at hgap hrest ⊢
    rw [hgap, hrest]
    simp [upToQuote, mapSpecifiers, text, ImportClause.text]

theorem standsIn_of_mem_importsFrom (clauses : List ImportClause) (a tail : Text) :
    ∀ m ∈ importsFrom a.utf8Size (a.lineFeeds + 1) clauses,
      m.StandsIn (a ++ (clauses.flatMap ImportClause.text ++ tail)) := by
  induction clauses generalizing a with
  | nil => simp [importsFrom]
  | cons clause clauses ih =>
    have htext := append_clause clause clauses a [] tail
    have himports := importsFrom_cons clause clauses a [] (a.lineFeeds + 1)
    rw [List.append_nil] at htext himports
    rw [htext, himports]
    refine List.forall_mem_cons.2 ⟨⟨?_, ?_⟩, ?_⟩
    · rw [List.append_assoc (_ ++ clause.specifier)]
      exact Text.slice?_append _ clause.specifier _
    · have hfront := Text.slice?_append [] (a ++ upToQuote clause [])
        (clause.specifier ++ [clause.quote.char] ++ (clauses.flatMap ImportClause.text ++ tail))
      simp only [List.nil_append, Text.utf8Size_nil, ← List.append_assoc] at hfront ⊢
      rw [hfront]
      have hquote := (clause.quote).char_ne_lineFeed
      simp [upToQuote, Text.lineFeeds, hquote]
      omega
    · have hquote := (clause.quote).char_ne_lineFeed
      have hline : a.lineFeeds + 1 + clause.lead.lineFeeds + clause.specifier.lineFeeds =
          Text.lineFeeds (a ++ upToQuote clause [] ++ clause.specifier ++ [clause.quote.char]) +
            1 := by
        simp [upToQuote, Text.lineFeeds, hquote]
        omega
      rw [hline]
      exact ih _

/-- The specifiers of a source stand at their places in it. -/
theorem standsIn_of_mem_imports (source : SourceText) :
    ∀ m ∈ source.imports, m.StandsIn source.text :=
  standsIn_of_mem_importsFrom source.clauses [] source.tail

/-- Splicing at the places of the specifiers puts other specifiers between the quotes. -/
theorem splice?_imports (f : Text → Text) (source : SourceText) :
    splice? source.text 0 (source.imports.map fun m => (m, f m.specifier)) =
      some (source.mapSpecifiers f).text :=
  splice?_importsFrom f source.clauses [] [] source.tail 1

end SourceText

/-! ## Fixed sources -/

/-- What should stand in place of a specifier: the canonical one of the file that it names, or the
specifier itself if it names none. -/
def correctSpecifier (index : FileIndex) (current specifier : Text) : Text :=
  match resolve index current specifier with
  | .found r => canonicalSpecifier index current r
  | _ => specifier

/-- The record of a specifier that is not as it should be. -/
def correction? (index : FileIndex) (current specifier : Text) : Option FixRecord :=
  match resolve index current specifier with
  | .found r =>
    if correctSpecifier index current specifier = specifier then none
    else some ⟨current, specifier, correctSpecifier index current specifier, r.entry.actualPath⟩
  | _ => none

section

variable (index : FileIndex) (current specifier : Text)

theorem fixedSpecifier_eq_correctSpecifier :
    fixedSpecifier index current specifier = correctSpecifier index current specifier := by
  unfold fixedSpecifier judge correctSpecifier
  cases resolve index current specifier with
  | external => rfl
  | notFound => rfl
  | found r =>
    dsimp only
    split
    · next heq => exact heq.symm
    · rfl

theorem fix?_judge : (judge index current specifier).fix? current specifier =
    correction? index current specifier := by
  unfold judge correction? correctSpecifier
  cases resolve index current specifier with
  | external => rfl
  | notFound => rfl
  | found r =>
    dsimp only
    split <;> rfl

theorem judge_eq_missing_iff :
    judge index current specifier = .missing ↔ resolve index current specifier = .notFound := by
  unfold judge
  cases resolve index current specifier with
  | external => simp
  | notFound => simp
  | found r =>
    dsimp only
    split <;> simp

theorem issue?_judge (place : ImportRef) :
    (judge index current place.specifier).issue? current place =
      if resolve index current place.specifier = .notFound then
        some ⟨current, place.specifier, place.line, IssueRecord.notFound⟩
      else none := by
  by_cases h : resolve index current place.specifier = .notFound
  · rw [if_pos h, (judge_eq_missing_iff index current place.specifier).2 h]
    rfl
  · rw [if_neg h]
    have hnot := mt (judge_eq_missing_iff index current place.specifier).1 h
    cases hj : judge index current place.specifier with
    | missing => exact absurd hj hnot
    | keep => rfl
    | replace new target => rfl

end

/-- A specifier that is not relative names a package. -/
theorem resolve_eq_external_iff {index : FileIndex} {current specifier : Text} :
    resolve index current specifier = .external ↔ isRelative specifier = false := by
  unfold resolve
  cases isRelative specifier with
  | false => simp
  | true =>
    dsimp only
    rw [if_pos rfl]
    split
    · simp
    · split <;> simp

/-- A fixed source is its source with the correct specifier in place of each specifier, every other
byte being copied. It is recorded, in the order of the source, which specifiers have been replaced,
and which are relative and name no file, with their lines. Packages are left alone. -/
theorem fixSource_eq_splice (index : FileIndex) (current source : Text) :
    let imports := (SourceText.ofText source).imports
    let fixed := fixSource index current source
    (∀ m ∈ imports, m.StandsIn source) ∧
      splice? source 0 (imports.map fun m => (m, m.specifier)) = some source ∧
      splice? source 0 (imports.map fun m => (m, correctSpecifier index current m.specifier)) =
        some fixed.content ∧
      fixed.fixes = imports.filterMap (fun m => correction? index current m.specifier) ∧
      fixed.issues = (imports.filter fun m => resolve index current m.specifier = .notFound).map
        (fun m => ⟨current, m.specifier, m.line, IssueRecord.notFound⟩) ∧
      ∀ m ∈ imports, isRelative m.specifier = false →
        correctSpecifier index current m.specifier = m.specifier ∧
          correction? index current m.specifier = none ∧
          resolve index current m.specifier ≠ .notFound := by
  intro imports fixed
  have htext := SourceText.text_ofText source
  refine ⟨?_, ?_, ?_, ?_, ?_, ?_⟩
  · have hplaces := (SourceText.ofText source).standsIn_of_mem_imports
    rwa [htext] at hplaces
  · have hself : (SourceText.ofText source).mapSpecifiers id = SourceText.ofText source :=
      SourceText.mapSpecifiers_eq_self fun _ _ => rfl
    have hsame := (SourceText.ofText source).splice?_imports id
    rw [hself, htext] at hsame
    exact hsame
  · have hspliced := (SourceText.ofText source).splice?_imports (correctSpecifier index current)
    rw [htext] at hspliced
    rw [hspliced, ← funext (fixedSpecifier_eq_correctSpecifier index current)]
    rfl
  · exact List.filterMap_congr fun m _ => fix?_judge index current m.specifier
  · rw [← List.filterMap_eq_map, List.filterMap_filter]
    refine List.filterMap_congr fun m _ => ?_
    rw [issue?_judge]
    simp
  · intro m _ hrel
    have hexternal : resolve index current m.specifier = .external :=
      resolve_eq_external_iff.2 hrel
    simp [correctSpecifier, correction?, hexternal]

end TrueCase

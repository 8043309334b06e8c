import Mathlib.Data.List.TakeWhile
import TrueCase.Import.Clause

/-!
# Scanning a rewritten source

A clause is found where it occurs and its specifier is plain. So when other plain specifiers are put
into a source, the source that comes of it splits into the same clauses with those specifiers: no
clause appears, disappears or runs into another.

## Main definitions

* `Plain`: a specifier that two quotes can enclose.
* `ImportClause.Occurs`: a clause that is found behind a given character.
* `SourceText.specifiers`: the specifiers of a source in their order.

## Main statements

* `ImportClause.atStart?_eq_some_iff`: a clause is read where it occurs.
* `SourceText.ofText_text_mapSpecifiers`: a rewritten source splits into the rewritten clauses.
* `SourceText.eq_self_of_text_mapSpecifiers`: a source that comes out the same has kept each of its
  specifiers.
-/

namespace TrueCase

open Unicode

/-- A specifier that two quotes can enclose: there is something of it, and no quote in it. -/
def Plain (specifier : Text) : Prop :=
  specifier ≠ [] ∧ ∀ c ∈ specifier, isQuote c = false

@[simp] theorem isQuote_char (quote : Quote) : isQuote quote.char = true := by
  simp [isQuote]

theorem isQuote_of_isWhiteSpace {c : Char} (h : isWhiteSpace c = true) : isQuote c = false := by
  cases hq : Quote.ofChar? c with
  | none => simp [isQuote, hq]
  | some quote =>
    obtain rfl := Quote.ofChar?_eq_some_iff.1 hq
    have hnot : isWhiteSpace quote.char = false := by cases quote <;> decide
    rw [hnot] at h
    cases h

/-- A text splits at its first quote in one way only. -/
theorem eq_of_append_quote_eq {s t : Text} {c d : Char} {a b : Text}
    (hs : ∀ x ∈ s, isQuote x = false) (ht : ∀ x ∈ t, isQuote x = false) (hc : isQuote c = true)
    (hd : isQuote d = true) (h : s ++ c :: a = t ++ d :: b) : s = t ∧ c = d ∧ a = b := by
  induction s generalizing t with
  | nil =>
    cases t with
    | nil => simpa using h
    | cons y t =>
      cases h
      rw [ht c List.mem_cons_self] at hc
      cases hc
  | cons x s ih =>
    cases t with
    | nil =>
      cases h
      rw [hs d List.mem_cons_self] at hd
      cases hd
    | cons y t =>
      obtain ⟨rfl, hmore⟩ := List.cons.inj h
      obtain ⟨rfl, hrest⟩ := ih (fun z hz => hs z (List.mem_cons_of_mem x hz))
        (fun z hz => ht z (List.mem_cons_of_mem x hz)) hmore
      exact ⟨rfl, hrest⟩

/-- A text holds no quote, or it splits at its first. -/
theorem exists_first_quote (t : Text) : (∀ c ∈ t, isQuote c = false) ∨
    ∃ u d v, t = u ++ d :: v ∧ (∀ c ∈ u, isQuote c = false) ∧ isQuote d = true := by
  induction t with
  | nil => exact Or.inl (by simp)
  | cons c t ih =>
    cases hc : isQuote c with
    | true => exact Or.inr ⟨[], c, t, rfl, by simp, hc⟩
    | false =>
      rcases ih with h | ⟨u, d, v, rfl, hu, hd⟩
      · exact Or.inl (List.forall_mem_cons.2 ⟨hc, h⟩)
      · exact Or.inr ⟨c :: u, d, v, rfl, List.forall_mem_cons.2 ⟨hc, hu⟩, hd⟩

namespace ImportClause

/-! ## Where a clause occurs -/

/-- The clause is one that can start behind the character `before`: the word `from`, white space,
and a plain specifier in quotes. -/
structure Occurs (before : Option Char) (clause : ImportClause) : Prop where
  boundary : wordBoundary before (some 'f') = true
  lead : ∃ gap, clause.lead = ['f', 'r', 'o', 'm'] ++ gap ∧ gap ≠ [] ∧
    ∀ c ∈ gap, isWhiteSpace c = true
  plain : Plain clause.specifier

theorem plain_of_quoted? {t : Text} {quote : Quote} {specifier after : Text}
    (h : quoted? t = some (quote, specifier, after)) : Plain specifier := by
  cases t with
  | nil => cases h
  | cons c rest =>
    simp only [quoted?] at h
    split at h
    · next hs _ =>
      split at h
      · cases h
        refine ⟨List.cons_ne_nil _ _, fun x hx => ?_⟩
        rw [← hs] at hx
        simpa using List.mem_takeWhile_imp hx
      · cases h
    · cases h

theorem quoted?_append (quote : Quote) {specifier : Text} (h : Plain specifier) (after : Text) :
    quoted? (quote.char :: (specifier ++ quote.char :: after)) =
      some (quote, specifier, after) := by
  obtain ⟨hne, hplain⟩ := h
  have hall : ∀ c ∈ specifier, (!isQuote c) = true := fun c hc => by rw [hplain c hc]; rfl
  cases specifier with
  | nil => exact absurd rfl hne
  | cons c specifier =>
    rw [quoted?, List.takeWhile_append_of_pos hall, List.dropWhile_append_of_pos hall]
    simp

/-- A clause is read at the start of a text when it occurs there. -/
theorem atStart?_eq_some_iff {before : Option Char} {t after : Text} {clause : ImportClause} :
    atStart? before t = some (clause, after) ↔ t = clause.text ++ after ∧ clause.Occurs before := by
  constructor
  · intro h
    refine ⟨append_of_atStart? h, ?_⟩
    unfold atStart? at h
    split at h
    · next rest =>
      dsimp only at h
      split at h
      · next hgap =>
        obtain ⟨⟨quote, specifier, more⟩, hq, hc⟩ := Option.map_eq_some_iff.1 h
        cases hc
        exact ⟨hgap.1, ⟨_, rfl, hgap.2, fun c hc => List.mem_takeWhile_imp hc⟩, plain_of_quoted? hq⟩
      · cases h
    · cases h
  · rintro ⟨rfl, hboundary, ⟨gap, hlead, hne, hgap⟩, hplain⟩
    obtain ⟨lead, quote, specifier⟩ := clause
    obtain rfl : lead = ['f', 'r', 'o', 'm'] ++ gap := hlead
    have hquote : isWhiteSpace quote.char = false := by cases quote <;> decide
    have htake :
        (gap ++ quote.char :: (specifier ++ [quote.char] ++ after)).takeWhile isWhiteSpace =
          gap := by
      rw [List.takeWhile_append_of_pos hgap]
      simp [hquote]
    have hdrop :
        (gap ++ quote.char :: (specifier ++ [quote.char] ++ after)).dropWhile isWhiteSpace =
          quote.char :: (specifier ++ quote.char :: after) := by
      rw [List.dropWhile_append_of_pos hgap]
      simp [hquote]
    have htext : text ⟨['f', 'r', 'o', 'm'] ++ gap, quote, specifier⟩ ++ after =
        'f' :: 'r' :: 'o' :: 'm' ::
          (gap ++ quote.char :: (specifier ++ [quote.char] ++ after)) := by
      simp [text]
    rw [htext, atStart?, htake, hdrop, if_pos ⟨hboundary, hne⟩, quoted?_append quote hplain]
    rfl

/-! ## Where no clause occurs -/

/-- Two texts are alike when they are equal up to the first quote of some clause, and from there on
each has a plain specifier in quotes of the same kind. -/
def Alike (t t' : Text) : Prop :=
  t = t' ∨ ∃ (lead : Text) (quote : Quote) (specifier specifier' after after' : Text),
    t = lead ++ quote.char :: (specifier ++ quote.char :: after) ∧ Plain specifier ∧
    t' = lead ++ quote.char :: (specifier' ++ quote.char :: after') ∧ Plain specifier'

theorem Alike.symm {t t' : Text} (h : Alike t t') : Alike t' t := by
  rcases h with rfl | ⟨lead, quote, specifier, specifier', after, after', ht, hs, ht', hs'⟩
  · exact Or.inl rfl
  · exact Or.inr ⟨lead, quote, specifier', specifier, after', after, ht', hs', ht, hs⟩

theorem Alike.cons {t t' : Text} (h : Alike t t') (c : Char) : Alike (c :: t) (c :: t') := by
  rcases h with rfl | ⟨lead, quote, specifier, specifier', after, after', rfl, hs, rfl, hs'⟩
  · exact Or.inl rfl
  · exact Or.inr ⟨c :: lead, quote, specifier, specifier', after, after', rfl, hs, rfl, hs'⟩

theorem Occurs.withSpecifier {before : Option Char} {clause : ImportClause}
    (h : clause.Occurs before) {specifier : Text} (hs : Plain specifier) :
    Occurs before { clause with specifier } :=
  ⟨h.boundary, h.lead, hs⟩

theorem Occurs.lead_plain {before : Option Char} {clause : ImportClause}
    (h : clause.Occurs before) : ∀ c ∈ clause.lead, isQuote c = false := by
  obtain ⟨gap, hlead, -, hgap⟩ := h.lead
  rw [hlead]
  intro c hc
  rcases List.mem_append.1 hc with hc | hc
  · have hfrom : ∀ c ∈ ['f', 'r', 'o', 'm'], isQuote c = false := by
      simp [isQuote, Quote.ofChar?]
    exact hfrom c hc
  · exact isQuote_of_isWhiteSpace (hgap c hc)

/-- A clause starts in one of two texts that are alike as soon as one starts in the other. -/
theorem exists_occurs_of_alike {before : Option Char} {t t' after : Text} {clause : ImportClause}
    (halike : Alike t t') (ht : t = clause.text ++ after) (h : clause.Occurs before) :
    ∃ clause' after', t' = text clause' ++ after' ∧ clause'.Occurs before := by
  rcases halike with rfl | ⟨lead, quote, s, s', rest, rest', ht₁, hs, rfl, hs'⟩
  · exact ⟨clause, after, ht, h⟩
  have htext : t = clause.lead ++ clause.quote.char ::
      (clause.specifier ++ clause.quote.char :: after) := by
    rw [ht]
    simp [text]
  rw [htext] at ht₁
  rcases exists_first_quote lead with hl | ⟨u, d, v, rfl, hu, hd⟩
  · -- the clause is the one in which the two texts differ
    obtain ⟨hlead, hquote, -⟩ :=
      eq_of_append_quote_eq h.lead_plain hl (isQuote_char _) (isQuote_char _) ht₁
    refine ⟨{ clause with specifier := s' }, rest', ?_, h.withSpecifier hs'⟩
    simp [text, hlead, hquote]
  · -- the opening quote stands before it
    rw [List.append_assoc, List.cons_append] at ht₁
    obtain ⟨hlead, hquote, hmore⟩ :=
      eq_of_append_quote_eq h.lead_plain hu (isQuote_char _) hd ht₁
    rcases exists_first_quote v with hv | ⟨u', d', v', rfl, hu', hd'⟩
    · -- and the closing quote is the one that opens the other clause
      obtain ⟨hspec, hclose, -⟩ :=
        eq_of_append_quote_eq h.plain.2 hv (isQuote_char _) (isQuote_char _) hmore
      refine ⟨clause, s' ++ quote.char :: rest', ?_, h⟩
      simp [text, hlead, hspec, ← hquote, ← hclose]
    · rw [List.append_assoc] at hmore
      obtain ⟨hspec, hclose, -⟩ :=
        eq_of_append_quote_eq h.plain.2 hu' (isQuote_char _) hd' hmore
      refine ⟨clause, v' ++ quote.char :: (s' ++ quote.char :: rest'), ?_, h⟩
      simp [text, hlead, hspec, ← hquote, ← hclose]

theorem atStart?_eq_none_of_alike {before : Option Char} {t t' : Text} (halike : Alike t t')
    (h : atStart? before t = none) : atStart? before t' = none := by
  by_contra hne
  obtain ⟨⟨clause, after⟩, hsome⟩ := Option.ne_none_iff_exists'.1 hne
  obtain ⟨ht, hoccurs⟩ := atStart?_eq_some_iff.1 hsome
  obtain ⟨clause', after', ht', hoccurs'⟩ := exists_occurs_of_alike halike.symm ht hoccurs
  rw [atStart?_eq_some_iff.2 ⟨ht', hoccurs'⟩] at h
  cases h

end ImportClause

namespace SourceText

open ImportClause

variable {before : Option Char} {passed t : Text}

theorem scan_of_eq_some {clause : ImportClause} {after : Text}
    (h : atStart? before t = some (clause, after)) : scan before passed t =
      ⟨{ clause with lead := passed.reverse ++ clause.lead } ::
        (scan (some clause.quote.char) [] after).clauses,
        (scan (some clause.quote.char) [] after).tail⟩ := by
  rw [scan]
  split
  · next h' =>
    cases h.symm.trans h'
    rfl
  · next h' => cases h.symm.trans h'

theorem scan_nil : scan before passed [] = ⟨[], passed.reverse⟩ := by
  rw [scan]
  rfl

theorem scan_cons_of_eq_none {c : Char} (h : atStart? before (c :: t) = none) :
    scan before passed (c :: t) = scan (some c) (c :: passed) t := by
  rw [scan]
  split
  · next h' => cases h.symm.trans h'
  · rfl

/-- A text rewritten from some place on is scanned to the rewritten clauses, and it is alike to the
text that it was. -/
theorem exists_scan_eq_mapSpecifiers (f : Text → Text) (before : Option Char) (passed t : Text)
    (hf : ∀ clause ∈ (scan before passed t).clauses, Plain (f clause.specifier)) :
    ∃ t', scan before passed t' = (scan before passed t).mapSpecifiers f ∧ Alike t t' := by
  fun_induction scan before passed t with
  | case1 before passed t clause after h ih =>
    obtain ⟨hplain, hf⟩ := List.forall_mem_cons.1 hf
    obtain ⟨after', hscan, -⟩ := ih hf
    obtain ⟨rfl, hoccurs⟩ := atStart?_eq_some_iff.1 h
    have hstart := atStart?_eq_some_iff.2
      ⟨Eq.refl (ImportClause.text _ ++ after'), hoccurs.withSpecifier hplain⟩
    refine ⟨_, (scan_of_eq_some hstart).trans ?_, Or.inr ⟨clause.lead, clause.quote,
      clause.specifier, f clause.specifier, after, after', ?_, hoccurs.plain, ?_, hplain⟩⟩
    · rw [hscan]
      rfl
    · simp [ImportClause.text]
    · simp [ImportClause.text]
  | case2 before passed h => exact ⟨[], scan_nil, Or.inl rfl⟩
  | case3 before passed c rest h ih =>
    obtain ⟨rest', hscan, halike⟩ := ih hf
    have hnone := atStart?_eq_none_of_alike (halike.cons c) h
    exact ⟨c :: rest', (scan_cons_of_eq_none hnone).trans hscan, halike.cons c⟩

/-- A rewritten source splits into the rewritten clauses. -/
theorem ofText_text_mapSpecifiers {f : Text → Text} {t : Text}
    (hf : ∀ clause ∈ (ofText t).clauses, Plain (f clause.specifier)) :
    ofText ((ofText t).mapSpecifiers f).text = (ofText t).mapSpecifiers f := by
  obtain ⟨t', hscan, -⟩ := exists_scan_eq_mapSpecifiers f none [] t hf
  have htext : ((ofText t).mapSpecifiers f).text = t' := by
    rw [ofText, ← hscan, text_scan]
    rfl
  rw [htext]
  exact hscan

theorem plain_of_mem_scan (before : Option Char) (passed t : Text) :
    ∀ clause ∈ (scan before passed t).clauses, Plain clause.specifier := by
  fun_induction scan before passed t with
  | case1 before passed t clause after h ih =>
    exact List.forall_mem_cons.2 ⟨(atStart?_eq_some_iff.1 h).2.plain, ih⟩
  | case2 before passed h => simp
  | case3 before passed c rest h ih => exact ih

/-- Every specifier of a source is plain. -/
theorem plain_of_mem_ofText {t : Text} :
    ∀ clause ∈ (ofText t).clauses, Plain clause.specifier :=
  plain_of_mem_scan none [] t

/-- The specifiers of a source in their order. -/
def specifiers (source : SourceText) : List Text :=
  source.clauses.map (·.specifier)

theorem specifiers_mapSpecifiers (f : Text → Text) (source : SourceText) :
    (source.mapSpecifiers f).specifiers = source.specifiers.map f := by
  simp [specifiers, mapSpecifiers]

theorem specifiers_imports (source : SourceText) :
    source.imports.map (·.specifier) = source.specifiers := by
  suffices h : ∀ offset line, (importsFrom offset line source.clauses).map (·.specifier) =
      source.clauses.map (·.specifier) from h 0 1
  induction source.clauses with
  | nil => exact fun _ _ => rfl
  | cons clause clauses ih => exact fun offset line => congrArg _ (ih _ _)

theorem text_cons (clause : ImportClause) (clauses : List ImportClause) (tail : Text) :
    text ⟨clause :: clauses, tail⟩ = clause.text ++ text ⟨clauses, tail⟩ := by
  simp [text]

theorem mapSpecifiers_cons (f : Text → Text) (clause : ImportClause) (clauses : List ImportClause)
    (tail : Text) : mapSpecifiers f ⟨clause :: clauses, tail⟩ =
      ⟨{ clause with specifier := f clause.specifier } ::
        (mapSpecifiers f ⟨clauses, tail⟩).clauses, (mapSpecifiers f ⟨clauses, tail⟩).tail⟩ :=
  rfl

/-- Where no specifier changes, the source does not. -/
theorem mapSpecifiers_eq_self {f : Text → Text} {source : SourceText}
    (h : ∀ s ∈ source.specifiers, f s = s) : source.mapSpecifiers f = source := by
  obtain ⟨clauses, tail⟩ := source
  have hclauses : clauses.map (fun clause => { clause with specifier := f clause.specifier }) =
      clauses := by
    refine (List.map_congr_left fun clause hc => ?_).trans (List.map_id clauses)
    rw [h clause.specifier (List.mem_map_of_mem hc)]
    rfl
  rw [mapSpecifiers, hclauses]

/-- Where none of the new specifiers has the old one and a quote in front, the source changes as
soon as one of them does. -/
theorem eq_self_of_text_mapSpecifiers {f : Text → Text} {source : SourceText}
    (hplain : ∀ s ∈ source.specifiers, Plain s)
    (hf : ∀ s ∈ source.specifiers, ∀ c v, isQuote c = true → f s ≠ s ++ c :: v)
    (h : (source.mapSpecifiers f).text = source.text) : ∀ s ∈ source.specifiers, f s = s := by
  obtain ⟨clauses, tail⟩ := source
  induction clauses with
  | nil => simp [specifiers]
  | cons clause clauses ih =>
    obtain ⟨hclause, hplain⟩ := List.forall_mem_cons.1 hplain
    obtain ⟨hfclause, hf⟩ := List.forall_mem_cons.1 hf
    have hquote := isQuote_char clause.quote
    rw [mapSpecifiers_cons, text_cons, text_cons] at h
    -- what stands behind the opening quote of the first clause
    have hbehind : f clause.specifier ++
        clause.quote.char :: (mapSpecifiers f ⟨clauses, tail⟩).text =
          clause.specifier ++ clause.quote.char :: text ⟨clauses, tail⟩ := by
      simpa [ImportClause.text] using h
    have hnew : ∀ c ∈ f clause.specifier, isQuote c = false := by
      refine (exists_first_quote (f clause.specifier)).resolve_right ?_
      rintro ⟨u, d, v, hsplit, hu, hd⟩
      rw [hsplit, List.append_assoc] at hbehind
      obtain ⟨rfl, -⟩ := eq_of_append_quote_eq hu hclause.2 hd hquote hbehind
      exact hfclause d v hd hsplit
    obtain ⟨hself, -, hrest⟩ := eq_of_append_quote_eq hnew hclause.2 hquote hquote hbehind
    exact List.forall_mem_cons.2 ⟨hself, ih hplain hf hrest⟩

/-- The characters of a specifier stand in the source. -/
theorem mem_text_of_mem_specifiers {source : SourceText} {s : Text} (hs : s ∈ source.specifiers)
    {c : Char} (h : c ∈ s) : c ∈ source.text := by
  obtain ⟨clause, hc, rfl⟩ := List.mem_map.1 hs
  have hmem : c ∈ clause.text := by simp [ImportClause.text, h]
  exact List.mem_append_left _ (List.mem_flatMap.2 ⟨clause, hc, hmem⟩)

end SourceText

end TrueCase

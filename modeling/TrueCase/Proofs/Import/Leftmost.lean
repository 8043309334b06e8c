import TrueCase.Proofs.Import.Splice
import TrueCase.Proofs.Text.Utf8

/-!
# The leftmost clauses

Where a clause occurs in a source is said of the source alone, without a scanner. A search that
takes the first clause from a place on, and goes on behind it, finds one list of clauses and no
other. The scanner finds that list: an attempt that fails swallows nothing, and a clause that has
been found is not entered again.

## Main definitions

* `ClauseAt`: a clause occurs at a byte of a source.
* `Leftmost`: the clauses that a search from a byte on finds.
* `ImportRef.QuotedIn`: a specifier stands in a text between two quotes.

## Main statements

* `ClauseAt.exists_read`, `clauseAt_placed`: a clause occurs where one is read.
* `Leftmost.unique`: a search finds one list of clauses.
* `leftmost_scan`: the scanner finds the leftmost clauses.
* `leftmost_iff_eq_imports`: the specifiers of a source with their places.
-/

namespace TrueCase

open Unicode

/-- A clause occurs at the byte `p` of a source: there is a word boundary and behind it the word
`from`, white space, and a plain specifier between two quotes of one kind. The specifier and its
place are those of `m`. -/
inductive ClauseAt (source : Text) : Nat → ImportRef → Prop where
  | intro {front gap after : Text} {quote : Quote} {m : ImportRef}
      (source_eq : source = front ++ (['f', 'r', 'o', 'm'] ++ gap ++
        quote.char :: (m.specifier ++ quote.char :: after)))
      (boundary : wordBoundary front.getLast? (some 'f') = true)
      (gap_ne_nil : gap ≠ []) (white : ∀ c ∈ gap, isWhiteSpace c = true)
      (plain : Plain m.specifier)
      (start : m.start = front.utf8Size + 4 + gap.utf8Size + 1)
      (stop : m.stop = m.start + m.specifier.utf8Size)
      (line : m.line = ((Utf8.encode source).take m.start).count 0x0A + 1) :
      ClauseAt source front.utf8Size m

/-- The clauses of a source from the byte `cursor` on: each is the first that occurs at the end of
the one before or behind it, and after the last of them none occurs. -/
inductive Leftmost (source : Text) : Nat → List ImportRef → Prop where
  | nil {cursor : Nat} (none : ∀ p m, cursor ≤ p → ¬ ClauseAt source p m) :
      Leftmost source cursor []
  | cons {cursor p : Nat} {m : ImportRef} {ms : List ImportRef} (le : cursor ≤ p)
      (clause : ClauseAt source p m)
      (first : ∀ q m', cursor ≤ q → ClauseAt source q m' → p ≤ q)
      (more : Leftmost source (m.stop + 1) ms) : Leftmost source cursor (m :: ms)

/-- The specifier stands in a text at its place, between two such quotes. -/
structure ImportRef.QuotedIn (place : ImportRef) (quote : Quote) (t : Text) : Prop where
  slice : t.slice? place.start place.stop = some place.specifier
  opening : ∃ before, before + 1 = place.start ∧ t.slice? before place.start = some [quote.char]
  closing : t.slice? place.stop (place.stop + 1) = some [quote.char]

namespace SourceText

/-- The specifier of a clause that stands behind the text `front`, with its place. -/
def placed (front : Text) (clause : ImportClause) : ImportRef where
  specifier := clause.specifier
  start := (upToQuote clause front).utf8Size
  stop := (upToQuote clause front ++ clause.specifier).utf8Size
  line := (upToQuote clause front).lineFeeds + 1

theorem lineFeeds_upToQuote (clause : ImportClause) (front : Text) :
    (upToQuote clause front).lineFeeds = front.lineFeeds + clause.lead.lineFeeds := by
  have hquote := clause.quote.char_ne_lineFeed
  simp [upToQuote, Text.lineFeeds, hquote]

theorem utf8Size_upToQuote (clause : ImportClause) (front : Text) :
    (upToQuote clause front).utf8Size = front.utf8Size + clause.lead.utf8Size + 1 := by
  simp [upToQuote, Quote.utf8Size_char, Nat.add_assoc]

theorem append_text_append (front after : Text) (clause : ImportClause) :
    front ++ (clause.text ++ after) =
      upToQuote clause front ++ clause.specifier ++ clause.quote.char :: after := by
  simp [upToQuote, ImportClause.text]

/-- The specifier of a clause stands at its place, between the quotes of the clause. -/
theorem quotedIn_placed (front after : Text) (clause : ImportClause) :
    (placed front clause).QuotedIn clause.quote (front ++ (clause.text ++ after)) := by
  have hquote := clause.quote.utf8Size_char
  refine ⟨?_, ⟨(front ++ clause.lead).utf8Size, ?_, ?_⟩, ?_⟩
  · rw [append_text_append]
    exact Text.slice?_append _ _ _
  · simp [placed, upToQuote, hquote]
    omega
  · have hslice := Text.slice?_append (front ++ clause.lead) [clause.quote.char]
      (clause.specifier ++ clause.quote.char :: after)
    simpa [placed, upToQuote, ImportClause.text] using hslice
  · have hslice := Text.slice?_append (upToQuote clause front ++ clause.specifier)
      [clause.quote.char] after
    rw [append_text_append]
    simpa [placed, hquote, Nat.add_assoc] using hslice

/-- The places of the clauses behind a text start with that of the first. -/
theorem importsFrom_cons_placed (front : Text) (clause : ImportClause)
    (clauses : List ImportClause) :
    importsFrom front.utf8Size (front.lineFeeds + 1) (clause :: clauses) =
      placed front clause :: importsFrom (front ++ clause.text).utf8Size
        ((front ++ clause.text).lineFeeds + 1) clauses := by
  have hquote := clause.quote.char_ne_lineFeed
  have hcons := importsFrom_cons clause clauses front [] (front.lineFeeds + 1)
  have hfront : front ++ upToQuote clause [] = upToQuote clause front := by simp [upToQuote]
  have htext : upToQuote clause front ++ clause.specifier ++ [clause.quote.char] =
      front ++ clause.text := by simp [upToQuote, ImportClause.text]
  have hline : front.lineFeeds + 1 + clause.lead.lineFeeds =
      (upToQuote clause front).lineFeeds + 1 := by
    rw [lineFeeds_upToQuote]
    omega
  have hnext : front.lineFeeds + 1 + clause.lead.lineFeeds + clause.specifier.lineFeeds =
      (front ++ clause.text).lineFeeds + 1 := by
    simp [ImportClause.text, Text.lineFeeds, hquote]
    omega
  rw [List.append_nil, hfront, htext, hnext, hline] at hcons
  exact hcons

theorem line_placed (front after : Text) (clause : ImportClause) :
    (placed front clause).line = ((Utf8.encode (front ++ (clause.text ++ after))).take
      (placed front clause).start).count 0x0A + 1 := by
  have htake : (Utf8.encode (front ++ (clause.text ++ after))).take (placed front clause).start =
      Utf8.encode (upToQuote clause front) := by
    rw [append_text_append, List.append_assoc]
    exact Utf8.take_encode_append _ _
  rw [htake, Utf8.count_lineFeed_encode]
  rfl

/-- A specifier with its place, from what the clause says about it. -/
theorem eq_placed {front after : Text} {clause : ImportClause} {m : ImportRef}
    (hspecifier : m.specifier = clause.specifier)
    (hstart : m.start = front.utf8Size + clause.lead.utf8Size + 1)
    (hstop : m.stop = m.start + m.specifier.utf8Size)
    (hline : m.line =
      ((Utf8.encode (front ++ (clause.text ++ after))).take m.start).count 0x0A + 1) :
    m = placed front clause := by
  rw [← utf8Size_upToQuote] at hstart
  have hline' : m.line = (placed front clause).line := by
    rw [hline, hstart, line_placed front after]
    rfl
  have hstop' : m.stop = (placed front clause).stop := by
    rw [hstop, hstart, hspecifier, placed, Text.utf8Size_append]
  obtain ⟨specifier, start, stop, line⟩ := m
  rw [placed, ImportRef.mk.injEq]
  exact ⟨hspecifier, hstart, hstop', hline'⟩

end SourceText

open SourceText

/-! ## Reading -/

theorem utf8Size_word (gap : Text) :
    Text.utf8Size (['f', 'r', 'o', 'm'] ++ gap) = 4 + gap.utf8Size := by
  rw [Text.utf8Size_append]
  rfl

/-- Where a clause occurs, it is read. -/
theorem ClauseAt.exists_read {source : Text} {p : Nat} {m : ImportRef} (h : ClauseAt source p m) :
    ∃ front rest clause after, source = front ++ rest ∧ p = front.utf8Size ∧
      ImportClause.atStart? front.getLast? rest = some (clause, after) ∧
      m = placed front clause := by
  cases h with
  | @intro front gap after quote m hsource hboundary hgap hwhite hplain hstart hstop hline =>
    have htext : source = front ++ (ImportClause.text ⟨['f', 'r', 'o', 'm'] ++ gap, quote,
        m.specifier⟩ ++ after) := by
      rw [hsource]
      simp [ImportClause.text]
    refine ⟨front, _, ⟨['f', 'r', 'o', 'm'] ++ gap, quote, m.specifier⟩, after, htext, rfl,
      ImportClause.atStart?_eq_some_iff.2 ⟨rfl, hboundary, ⟨gap, rfl, hgap, hwhite⟩, hplain⟩,
      eq_placed rfl ?_ hstop (htext ▸ hline)⟩
    rw [utf8Size_word, hstart]
    omega

/-- Where a clause is read, it occurs. -/
theorem clauseAt_placed {front rest after : Text} {clause : ImportClause}
    (h : ImportClause.atStart? front.getLast? rest = some (clause, after)) :
    ClauseAt (front ++ rest) front.utf8Size (placed front clause) := by
  obtain ⟨rfl, hoccurs⟩ := ImportClause.atStart?_eq_some_iff.1 h
  obtain ⟨gap, hlead, hgap, hwhite⟩ := hoccurs.lead
  refine @ClauseAt.intro _ front gap after clause.quote _ ?_ hoccurs.boundary hgap hwhite
    hoccurs.plain ?_ ?_ (line_placed front after clause)
  · simp [ImportClause.text, hlead, placed]
  · change (upToQuote clause front).utf8Size = _
    rw [utf8Size_upToQuote, hlead, utf8Size_word]
    omega
  · simp [placed]

section

variable {source : Text} {p q cursor cursor' : Nat} {m m' : ImportRef} {ms ms' : List ImportRef}

/-- There is one clause at most at a byte. -/
theorem ClauseAt.unique (h : ClauseAt source p m) (h' : ClauseAt source p m') : m = m' := by
  obtain ⟨front, rest, clause, after, rfl, rfl, hread, rfl⟩ := h.exists_read
  obtain ⟨front', rest', clause', after', hsource, hsize, hread', rfl⟩ := h'.exists_read
  obtain ⟨rfl, rfl⟩ := Text.eq_of_append_eq hsource hsize
  rw [hread] at hread'
  cases hread'
  rfl

theorem ClauseAt.lt_start (h : ClauseAt source p m) : p < m.start := by
  cases h with
  | intro _ _ _ _ _ start => omega

theorem ClauseAt.lt_stop (h : ClauseAt source p m) : m.start < m.stop := by
  cases h with
  | intro _ _ _ _ plain _ stop =>
    obtain ⟨c, s, hs⟩ := List.exists_cons_of_ne_nil plain.1
    have := c.utf8Size_pos
    rw [stop, hs, Text.utf8Size_cons]
    omega

/-- What stands between the two places that a clause gives, and around them. -/
theorem ClauseAt.slices (h : ClauseAt source p m) :
    source.slice? m.start m.stop = some m.specifier ∧
      ∃ (quote : Quote) (before : Nat), before + 1 = m.start ∧
        source.slice? before m.start = some [quote.char] ∧
        source.slice? m.stop (m.stop + 1) = some [quote.char] := by
  obtain ⟨front, rest, clause, after, rfl, rfl, hread, rfl⟩ := h.exists_read
  obtain ⟨rfl, -⟩ := ImportClause.atStart?_eq_some_iff.1 hread
  obtain ⟨hslice, ⟨before, hbefore, hopening⟩, hclosing⟩ := quotedIn_placed front after clause
  exact ⟨hslice, clause.quote, before, hbefore, hopening, hclosing⟩

/-! ## Leftmost -/

/-- What is found from a place on is found from any place before it where no clause occurs in
between. -/
theorem Leftmost.of_skip (h : Leftmost source cursor' ms) (hle : cursor ≤ cursor')
    (hskip : ∀ p m, cursor ≤ p → ClauseAt source p m → cursor' ≤ p) :
    Leftmost source cursor ms := by
  cases h with
  | nil none => exact .nil fun p m hp hm => none p m (hskip p m hp hm) hm
  | cons le clause first more =>
    exact .cons (hle.trans le) clause
      (fun q m' hq hm' => first q m' (hskip q m' hq hm') hm') more

theorem Leftmost.unique (h : Leftmost source cursor ms) (h' : Leftmost source cursor ms') :
    ms = ms' := by
  induction h generalizing ms' with
  | nil none =>
    cases h' with
    | nil => rfl
    | cons le clause => exact absurd clause (none _ _ le)
  | cons le clause first _ ih =>
    cases h' with
    | nil none => exact absurd clause (none _ _ le)
    | cons le' clause' first' more' =>
      obtain rfl := Nat.le_antisymm (first _ _ le' clause') (first' _ _ le clause)
      obtain rfl := clause.unique clause'
      rw [ih more']

/-- Every clause that is found occurs, behind the place where the search starts. -/
theorem Leftmost.exists_clauseAt (h : Leftmost source cursor ms) :
    ∀ m ∈ ms, ∃ p, cursor ≤ p ∧ ClauseAt source p m := by
  induction h with
  | nil => simp
  | cons le clause _ _ ih =>
    refine List.forall_mem_cons.2 ⟨⟨_, le, clause⟩, fun n hn => ?_⟩
    obtain ⟨p, hp, hclause⟩ := ih n hn
    have := clause.lt_start
    have := clause.lt_stop
    exact ⟨p, by omega, hclause⟩

/-- The clauses that are found stand one behind the other. -/
theorem Leftmost.pairwise (h : Leftmost source cursor ms) :
    ms.Pairwise fun m n => m.stop < n.start := by
  induction h with
  | nil => exact List.Pairwise.nil
  | cons _ _ _ more ih =>
    refine List.pairwise_cons.2 ⟨fun n hn => ?_, ih⟩
    obtain ⟨p, hp, hclause⟩ := more.exists_clauseAt n hn
    have := hclause.lt_start
    omega

end

/-! ## The scanner -/

/-- Where none is read, a clause occurs behind the next character at the earliest. -/
theorem le_of_atStart?_eq_none {front rest : Text} {c : Char}
    (hnone : ImportClause.atStart? front.getLast? (c :: rest) = none) {p : Nat} {m : ImportRef}
    (hp : front.utf8Size ≤ p) (h : ClauseAt (front ++ c :: rest) p m) :
    (front ++ [c]).utf8Size ≤ p := by
  obtain ⟨front', rest', clause, after, hsource, rfl, hread, -⟩ := h.exists_read
  have hne : front.utf8Size ≠ front'.utf8Size := by
    intro hsize
    obtain ⟨rfl, rfl⟩ := Text.eq_of_append_eq hsource hsize
    cases hnone.symm.trans hread
  rcases List.append_eq_append_iff.1 hsource with ⟨a, rfl, ha⟩ | ⟨a, rfl, -⟩
  · cases a with
    | nil => simp at hne
    | cons d a =>
      obtain ⟨rfl, -⟩ := List.cons.inj ha
      simp
  · rw [Text.utf8Size_append] at hp hne
    omega

theorem not_clauseAt_end {front : Text} {p : Nat} {m : ImportRef} (hp : front.utf8Size ≤ p) :
    ¬ ClauseAt front p m := by
  intro h
  obtain ⟨front', rest, clause, after, rfl, rfl, hread, -⟩ := h.exists_read
  have hsize := ImportClause.append_of_atStart? hread
  have : 0 < rest.utf8Size := by
    rw [hsize]
    simp only [ImportClause.text, Text.utf8Size_append, Text.utf8Size_cons, Quote.utf8Size_char]
    omega
  rw [Text.utf8Size_append] at hp
  omega

theorem getLast?_append_text (front : Text) (clause : ImportClause) :
    (front ++ clause.text).getLast? = some clause.quote.char := by
  have htext : front ++ clause.text =
      upToQuote clause front ++ clause.specifier ++ [clause.quote.char] := by
    simp [upToQuote, ImportClause.text]
  rw [htext, List.getLast?_concat]

/-- Scanning behind `done` and `passed` finds the leftmost clauses from there on. -/
theorem leftmost_scan (before : Option Char) (done passed t : Text)
    (hbefore : before = (done ++ passed.reverse).getLast?) :
    Leftmost (done ++ passed.reverse ++ t) (done ++ passed.reverse).utf8Size
      (importsFrom done.utf8Size (done.lineFeeds + 1) (scan before passed t).clauses) := by
  fun_induction scan before passed t generalizing done with
  | case1 before passed t clause after h ih =>
    subst hbefore
    obtain ⟨rfl, -⟩ := ImportClause.atStart?_eq_some_iff.1 h
    -- the clause that is kept has the passed characters in front
    have htext : done ++ ImportClause.text { clause with lead := passed.reverse ++ clause.lead } =
        done ++ passed.reverse ++ clause.text := by
      simp [ImportClause.text]
    have hplaced : placed done { clause with lead := passed.reverse ++ clause.lead } =
        placed (done ++ passed.reverse) clause := by
      simp [placed, upToQuote]
    have hend : (done ++ passed.reverse ++ clause.text).utf8Size =
        (placed (done ++ passed.reverse) clause).stop + 1 := by
      simp [placed, upToQuote, ImportClause.text, Quote.utf8Size_char]
      omega
    have hmore := ih (done ++ passed.reverse ++ clause.text)
      (by rw [List.reverse_nil, List.append_nil, getLast?_append_text])
    simp only [List.reverse_nil, List.append_nil] at hmore
    rw [hend] at hmore
    rw [importsFrom_cons_placed, htext, hplaced, hend]
    refine .cons (Nat.le_refl _) (clauseAt_placed h) (fun q _ hq _ => hq) ?_
    simpa only [List.append_assoc] using hmore
  | case2 before passed h =>
    rw [List.append_nil]
    exact .nil fun p m hp => not_clauseAt_end hp
  | case3 before passed c rest h ih =>
    subst hbefore
    have hfront : done ++ (c :: passed).reverse = done ++ passed.reverse ++ [c] := by simp
    have hmore := ih done (by simp)
    rw [hfront, List.append_assoc _ [c]] at hmore
    refine hmore.of_skip ?_ fun p m hp hm => le_of_atStart?_eq_none h hp hm
    rw [Text.utf8Size_append (done ++ passed.reverse)]
    exact Nat.le_add_right _ _

/-- The specifiers of a source are those of the leftmost clauses, and of no others. Each is plain
and stands between two quotes of one kind at its place, one behind the other, and its line is
counted by the line feeds before it. -/
theorem leftmost_iff_eq_imports (source : Text) :
    let imports := (ofText source).imports
    (∀ ms, Leftmost source 0 ms ↔ ms = imports) ∧
      (∀ m ∈ imports, source.slice? m.start m.stop = some m.specifier ∧ Plain m.specifier ∧
        (∃ (quote : Quote) (before : Nat), before + 1 = m.start ∧
          source.slice? before m.start = some [quote.char] ∧
          source.slice? m.stop (m.stop + 1) = some [quote.char]) ∧
        m.start < m.stop ∧ m.line = ((Utf8.encode source).take m.start).count 0x0A + 1) ∧
      imports.Pairwise fun m n => m.stop < n.start := by
  intro imports
  have hfound : Leftmost source 0 imports := leftmost_scan none [] [] source rfl
  refine ⟨fun ms => ⟨fun h => h.unique hfound, fun h => h ▸ hfound⟩, ?_, hfound.pairwise⟩
  intro m hm
  obtain ⟨p, -, hclause⟩ := hfound.exists_clauseAt m hm
  obtain ⟨hslice, hquotes⟩ := hclause.slices
  refine ⟨hslice, ?_, hquotes, hclause.lt_stop, ?_⟩
  · cases hclause with
    | intro _ _ _ _ plain => exact plain
  · cases hclause with
    | intro _ _ _ _ _ _ _ line => exact line

set_option maxRecDepth 20000 in
/-- The first quote of the attempt that fails is passed over, and what it encloses is read. -/
example : (ofText "from 'from \"x\"'".toList).specifiers = ["x".toList] := by cbv

end TrueCase

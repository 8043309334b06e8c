import Mathlib.Data.List.Basic
import TrueCase.Report.Json

/-!
# The grammar of JSON

What a JSON document says, as a relation between a text, what is read from its front, and what is
left of it. The rules are those of the format: white space may stand around every value, strings
hold any character but quotes, backslashes and control characters, which are escaped, and numerals
have an integer part, perhaps with a fraction and an exponent.

A relation of this kind could read one text in several ways. It does not: what is read is determined
by the text, as soon as what is left cannot belong to it any more. In particular a document says one
thing only.

## Main definitions

* `Tree`: what a document says.
* `ReadsString`: a string behind its opening quote, with escapes.
* `IsNumeral`: the numerals.
* `Reads`: the grammar.
* `IsDocument`: a text that is a document, and what it says.

## Main statements

* `Reads.unique`: the grammar is unambiguous.
* `IsDocument.unique`: a document says one thing.
-/

namespace TrueCase.Json

/-- What a JSON document says. Numbers are kept as they are written, and members in their order. -/
inductive Tree where
  | null
  | boolean (b : Bool)
  | number (numeral : Text)
  | string (t : Text)
  | array (items : List Tree)
  | object (members : List (Text × Tree))

/-! ## White space -/

/-- White space between the parts of a document. -/
def isBlank (c : Char) : Bool :=
  c = ' ' || c = '\t' || c = '\n' || c = '\r'

/-- White space at the front of a text, perhaps none. -/
def Blanks (s r : Text) : Prop :=
  ∃ w, (∀ c ∈ w, isBlank c = true) ∧ s = w ++ r

/-- A text that does not start with white space. -/
def Solid (t : Text) : Prop :=
  ∀ c, t.head? = some c → isBlank c = false

theorem Blanks.refl (r : Text) : Blanks r r :=
  ⟨[], by simp, rfl⟩

theorem Blanks.eq_dropWhile {s r : Text} (h : Blanks s r) (hr : Solid r) :
    r = s.dropWhile isBlank := by
  obtain ⟨w, hw, rfl⟩ := h
  rw [List.dropWhile_append_of_pos hw]
  cases r with
  | nil => rfl
  | cons c r => rw [List.dropWhile_cons_of_neg (by simp [hr c rfl])]

theorem Blanks.unique {s r r' : Text} (h : Blanks s r) (h' : Blanks s r') (hr : Solid r)
    (hr' : Solid r') : r = r' := by
  rw [h.eq_dropWhile hr, h'.eq_dropWhile hr']

/-! ## Strings -/

/-- The value of a hexadecimal digit. -/
def hexValue? (c : Char) : Option Nat :=
  if c.isDigit then some (c.toNat - '0'.toNat)
  else if 'a' ≤ c ∧ c ≤ 'f' then some (c.toNat - 'a'.toNat + 10)
  else if 'A' ≤ c ∧ c ≤ 'F' then some (c.toNat - 'A'.toNat + 10)
  else none

/-- The code unit that is written with four hexadecimal digits. -/
def codeUnit? (a b c d : Char) : Option Nat := do
  return (((← hexValue? a) * 16 + (← hexValue? b)) * 16 + (← hexValue? c)) * 16 + (← hexValue? d)

/-- The first code unit of two that stand for one character. -/
def IsHigh (unit : Nat) : Prop :=
  0xD800 ≤ unit ∧ unit < 0xDC00

/-- The second code unit of two that stand for one character. -/
def IsLow (unit : Nat) : Prop :=
  0xDC00 ≤ unit ∧ unit < 0xE000

/-- The character that is written with a single letter behind a backslash. -/
def shortEscape? : Char → Option Char
  | '"' => some '"'
  | '\\' => some '\\'
  | '/' => some '/'
  | 'b' => some '\x08'
  | 'f' => some '\x0c'
  | 'n' => some '\n'
  | 'r' => some '\r'
  | 't' => some '\t'
  | _ => none

/-- One character of a string at the front of a text. A code unit that stands for a character only
together with another one has to be followed by it. -/
inductive ReadsChar : Text → Char → Text → Prop where
  | plain {c : Char} {r : Text} : 0x20 ≤ c.toNat → c ≠ '"' → c ≠ '\\' → ReadsChar (c :: r) c r
  | short {e c : Char} {r : Text} : shortEscape? e = some c → ReadsChar ('\\' :: e :: r) c r
  | unit {a b c d : Char} {unit : Nat} {r : Text} :
      codeUnit? a b c d = some unit → ¬ IsHigh unit → ¬ IsLow unit →
        ReadsChar ('\\' :: 'u' :: a :: b :: c :: d :: r) (Char.ofNat unit) r
  | pair {a b c d a' b' c' d' : Char} {high low : Nat} {r : Text} :
      codeUnit? a b c d = some high → IsHigh high → codeUnit? a' b' c' d' = some low → IsLow low →
        ReadsChar
          ('\\' :: 'u' :: a :: b :: c :: d :: '\\' :: 'u' :: a' :: b' :: c' :: d' :: r)
          (Char.ofNat (0x10000 + (high - 0xD800) * 0x400 + (low - 0xDC00))) r

/-- A string behind its opening quote, up to the closing one. -/
inductive ReadsString : Text → Text → Text → Prop where
  | close {r : Text} : ReadsString ('"' :: r) [] r
  | char {c : Char} {s t u r : Text} :
      ReadsChar s c u → ReadsString u t r → ReadsString s (c :: t) r

theorem ReadsChar.unique {s r r' : Text} {c c' : Char} (h : ReadsChar s c r)
    (h' : ReadsChar s c' r') : c = c' ∧ r = r' := by
  cases h with
  | plain hlow hquote hslash =>
    cases h' with
    | plain => exact ⟨rfl, rfl⟩
    | short => exact absurd rfl hslash
    | unit => exact absurd rfl hslash
    | pair => exact absurd rfl hslash
  | short he =>
    cases h' with
    | plain _ _ hslash => exact absurd rfl hslash
    | short he' => exact ⟨Option.some.inj (he.symm.trans he'), rfl⟩
    | unit => cases he
    | pair => cases he
  | unit hu hhigh _ =>
    cases h' with
    | plain _ _ hslash => exact absurd rfl hslash
    | short he' => cases he'
    | unit hu' =>
      obtain rfl := Option.some.inj (hu.symm.trans hu')
      exact ⟨rfl, rfl⟩
    | pair hu' hhigh' =>
      obtain rfl := Option.some.inj (hu.symm.trans hu')
      exact absurd hhigh' hhigh
  | pair hu hhigh hv _ =>
    cases h' with
    | plain _ _ hslash => exact absurd rfl hslash
    | short he' => cases he'
    | unit hu' hhigh' =>
      obtain rfl := Option.some.inj (hu.symm.trans hu')
      exact absurd hhigh hhigh'
    | pair hu' _ hv' =>
      obtain rfl := Option.some.inj (hu.symm.trans hu')
      obtain rfl := Option.some.inj (hv.symm.trans hv')
      exact ⟨rfl, rfl⟩

theorem not_readsChar_quote {c : Char} {r r' : Text} : ¬ ReadsChar ('"' :: r) c r' := by
  intro h
  cases h with
  | plain _ hquote => exact hquote rfl

theorem ReadsString.unique {s t t' r r' : Text} (h : ReadsString s t r)
    (h' : ReadsString s t' r') : t = t' ∧ r = r' := by
  induction h generalizing t' r' with
  | close =>
    cases h' with
    | close => exact ⟨rfl, rfl⟩
    | char hc => exact absurd hc not_readsChar_quote
  | char hc _ ih =>
    cases h' with
    | close => exact absurd hc not_readsChar_quote
    | char hc' ht' =>
      obtain ⟨rfl, rfl⟩ := hc.unique hc'
      obtain ⟨rfl, rfl⟩ := ih ht'
      exact ⟨rfl, rfl⟩

/-! ## Numerals -/

/-- One digit or more. -/
def IsDigits (t : Text) : Prop :=
  t ≠ [] ∧ ∀ c ∈ t, c.isDigit = true

/-- A numeral: digits without a zero in front that could be left out, perhaps with a minus sign, a
fraction and an exponent. -/
def IsNumeral (t : Text) : Prop :=
  ∃ sign int fraction exponent, t = sign ++ (int ++ (fraction ++ exponent)) ∧
    (sign = [] ∨ sign = ['-']) ∧
    (IsDigits int ∧ (int.head? = some '0' → int = ['0'])) ∧
    (fraction = [] ∨ ∃ ds, IsDigits ds ∧ fraction = '.' :: ds) ∧
    (exponent = [] ∨ ∃ e sign ds, (e = 'e' ∨ e = 'E') ∧ (sign = [] ∨ sign = ['-'] ∨ sign = ['+']) ∧
      IsDigits ds ∧ exponent = e :: (sign ++ ds))

/-- The characters of numerals. -/
def isNumeralChar (c : Char) : Bool :=
  c.isDigit || c = '-' || c = '+' || c = '.' || c = 'e' || c = 'E'

theorem IsDigits.isNumeralChar {t : Text} (h : IsDigits t) : ∀ c ∈ t, isNumeralChar c = true := by
  intro c hc
  rw [Json.isNumeralChar, h.2 c hc]
  rfl

theorem IsNumeral.isNumeralChar {t : Text} (h : IsNumeral t) :
    ∀ c ∈ t, isNumeralChar c = true := by
  obtain ⟨sign, int, fraction, exponent, rfl, hsign, ⟨hint, -⟩, hfraction, hexponent⟩ := h
  simp only [List.forall_mem_append]
  refine ⟨?_, hint.isNumeralChar, ?_, ?_⟩
  · rcases hsign with rfl | rfl
    · exact List.forall_mem_nil _
    · exact List.forall_mem_singleton.2 (by decide)
  · rcases hfraction with rfl | ⟨ds, hds, rfl⟩
    · exact List.forall_mem_nil _
    · exact List.forall_mem_cons.2 ⟨by decide, hds.isNumeralChar⟩
  · rcases hexponent with rfl | ⟨e, sign, ds, he, hsign, hds, rfl⟩
    · exact List.forall_mem_nil _
    · refine List.forall_mem_cons.2 ⟨?_, List.forall_mem_append.2 ⟨?_, hds.isNumeralChar⟩⟩
      · rcases he with rfl | rfl <;> decide
      · rcases hsign with rfl | rfl | rfl
        · exact List.forall_mem_nil _
        · exact List.forall_mem_singleton.2 (by decide)
        · exact List.forall_mem_singleton.2 (by decide)

theorem IsNumeral.ne_nil {t : Text} (h : IsNumeral t) : t ≠ [] := by
  obtain ⟨sign, int, fraction, exponent, rfl, -, ⟨⟨hne, -⟩, -⟩, -⟩ := h
  simp [hne]

/-- A numeral starts with a character of its own. -/
theorem IsNumeral.exists_cons {t : Text} (h : IsNumeral t) :
    ∃ c u, t = c :: u ∧ Json.isNumeralChar c = true := by
  obtain ⟨c, u, rfl⟩ := List.exists_cons_of_ne_nil h.ne_nil
  exact ⟨c, u, rfl, h.isNumeralChar c List.mem_cons_self⟩

/-- A text with another character in front does not start with a numeral. -/
theorem IsNumeral.cons_ne {t r s : Text} {c : Char} (h : IsNumeral t)
    (hc : Json.isNumeralChar c = false) : c :: s ≠ t ++ r := by
  obtain ⟨d, u, rfl, hd⟩ := h.exists_cons
  intro heq
  obtain rfl := (List.cons.inj heq).1
  rw [hc] at hd
  cases hd

theorem isNumeralChar_of_isBlank {c : Char} (h : isBlank c = true) : isNumeralChar c = false := by
  simp only [isBlank, Bool.or_eq_true, decide_eq_true_eq] at h
  rcases h with ((rfl | rfl) | rfl) | rfl <;> decide

/-- A text that does not start with a character that could belong to a numeral. -/
def PastNumeral (t : Text) : Prop :=
  ∀ c, t.head? = some c → isNumeralChar c = false

theorem IsNumeral.eq_takeWhile {t r : Text} (h : IsNumeral t) (hr : PastNumeral r) :
    t = (t ++ r).takeWhile Json.isNumeralChar := by
  have hrest : r.takeWhile Json.isNumeralChar = [] := by
    cases r with
    | nil => rfl
    | cons c r => rw [List.takeWhile_cons_of_neg (by simp [hr c rfl])]
  rw [List.takeWhile_append_of_pos h.isNumeralChar, hrest, List.append_nil]

theorem IsNumeral.unique {t t' r r' : Text} (h : IsNumeral t) (h' : IsNumeral t')
    (heq : t ++ r = t' ++ r') (hr : PastNumeral r) (hr' : PastNumeral r') :
    t = t' ∧ r = r' := by
  have ht : t = t' := by
    rw [h.eq_takeWhile hr, heq, ← h'.eq_takeWhile hr']
  subst ht
  exact ⟨rfl, List.append_cancel_left heq⟩

/-! ## Values -/

/-- The parts of a document. -/
inductive Part where
  | value
  /-- A value with white space around it. -/
  | element
  /-- The elements of an array, one or more, with commas between them. -/
  | elements
  /-- A name and an element, with a colon between them. -/
  | member
  /-- The members of an object, one or more, with commas between them. -/
  | members

/-- What a part says. -/
abbrev Part.Meaning : Part → Type
  | value | element => Tree
  | elements => List Tree
  | member => Text × Tree
  | members => List (Text × Tree)

/-- A part at the front of a text, with what it says and what is left of the text. -/
inductive Reads : (part : Part) → part.Meaning → Text → Text → Prop where
  | null {r : Text} : Reads .value .null ('n' :: 'u' :: 'l' :: 'l' :: r) r
  | yes {r : Text} : Reads .value (.boolean true) ('t' :: 'r' :: 'u' :: 'e' :: r) r
  | no {r : Text} : Reads .value (.boolean false) ('f' :: 'a' :: 'l' :: 's' :: 'e' :: r) r
  | number {t s r : Text} : IsNumeral t → s = t ++ r → Reads .value (.number t) s r
  | string {t s r : Text} : ReadsString s t r → Reads .value (.string t) ('"' :: s) r
  | emptyArray {s r : Text} : Blanks s (']' :: r) → Reads .value (.array []) ('[' :: s) r
  | array {items : List Tree} {s r : Text} :
      Reads .elements items s (']' :: r) → Reads .value (.array items) ('[' :: s) r
  | emptyObject {s r : Text} : Blanks s ('\x7d' :: r) → Reads .value (.object []) ('\x7b' :: s) r
  | object {members : List (Text × Tree)} {s r : Text} :
      Reads .members members s ('\x7d' :: r) → Reads .value (.object members) ('\x7b' :: s) r
  | element {v : Tree} {s t u r : Text} :
      Blanks s t → Reads .value v t u → Blanks u r → Reads .element v s r
  | lastElement {v : Tree} {s r : Text} : Reads .element v s r → Reads .elements [v] s r
  | elements {v : Tree} {vs : List Tree} {s t r : Text} :
      Reads .element v s (',' :: t) → Reads .elements vs t r → Reads .elements (v :: vs) s r
  | member {name : Text} {v : Tree} {s t u w r : Text} :
      Blanks s ('"' :: t) → ReadsString t name u → Blanks u (':' :: w) → Reads .element v w r →
        Reads .member (name, v) s r
  | lastMember {m : Text × Tree} {s r : Text} : Reads .member m s r → Reads .members [m] s r
  | members {m : Text × Tree} {ms : List (Text × Tree)} {s t r : Text} :
      Reads .member m s (',' :: t) → Reads .members ms t r → Reads .members (m :: ms) s r

/-- What stands behind a part cannot belong to it. -/
def Part.Ends : Part → Text → Prop
  | value, r => PastNumeral r
  | element, r | member, r => Solid r ∧ PastNumeral r
  | elements, r | members, r => Solid r ∧ PastNumeral r ∧ r.head? ≠ some ','

theorem solid_cons {c : Char} (h : isBlank c = false) (t : Text) : Solid (c :: t) := by
  intro d hd
  obtain rfl := Option.some.inj hd
  exact h

theorem pastNumeral_cons {c : Char} (h : isNumeralChar c = false) (t : Text) :
    PastNumeral (c :: t) := by
  intro d hd
  obtain rfl := Option.some.inj hd
  exact h

/-- Commas, colons, brackets and braces end all that stands before them. -/
theorem ends_cons {c : Char} (hblank : isBlank c = false) (hnumeral : isNumeralChar c = false)
    (t : Text) : Part.element.Ends (c :: t) ∧ (c ≠ ',' → Part.elements.Ends (c :: t)) := by
  have hsolid := solid_cons hblank t
  have hpast := pastNumeral_cons hnumeral t
  exact ⟨⟨hsolid, hpast⟩, fun hcomma => ⟨hsolid, hpast, by simpa using hcomma⟩⟩

/-- White space does not belong to a numeral. -/
theorem Blanks.pastNumeral {u r : Text} (h : Blanks u r) (hr : PastNumeral r) : PastNumeral u := by
  obtain ⟨w, hw, rfl⟩ := h
  cases w with
  | nil => exact hr
  | cons c w =>
    exact pastNumeral_cons (isNumeralChar_of_isBlank (hw c List.mem_cons_self)) _

/-- A value starts with neither white space nor a closing bracket. -/
theorem Reads.exists_cons {v : Tree} {s r : Text} (h : Reads .value v s r) :
    ∃ c t, s = c :: t ∧ isBlank c = false ∧ c ≠ ']' := by
  cases h with
  | number ht heq =>
    obtain ⟨c, u, rfl, hc⟩ := ht.exists_cons
    refine ⟨c, u ++ r, heq, ?_, ?_⟩
    · refine Bool.eq_false_iff.2 fun hblank => ?_
      rw [isNumeralChar_of_isBlank hblank] at hc
      cases hc
    · rintro rfl
      exact absurd hc (by decide)
  | _ => exact ⟨_, _, rfl, by decide, by decide⟩

theorem Reads.solid {v : Tree} {s r : Text} (h : Reads .value v s r) : Solid s := by
  obtain ⟨c, t, rfl, hblank, -⟩ := h.exists_cons
  exact solid_cons hblank t

theorem Reads.not_blanks_bracket {vs : List Tree} {s r r' : Text} (h : Reads .elements vs s r) :
    ¬ Blanks s (']' :: r') := by
  intro hs
  have helement {v : Tree} {u : Text} (hv : Reads .element v s u) : False := by
    cases hv with
    | element hs' hv _ =>
      obtain ⟨c, t, rfl, hblank, hc⟩ := hv.exists_cons
      have heq := hs'.unique hs (solid_cons hblank t) (solid_cons (by decide) r')
      exact hc (List.cons.inj heq).1
  cases h with
  | lastElement hv => exact helement hv
  | elements hv _ => exact helement hv

theorem Reads.not_blanks_brace {ms : List (Text × Tree)} {s r r' : Text}
    (h : Reads .members ms s r) : ¬ Blanks s ('\x7d' :: r') := by
  intro hs
  have hmember {m : Text × Tree} {u : Text} (hm : Reads .member m s u) : False := by
    cases hm with
    | member hs' =>
      have heq := hs'.unique hs (solid_cons (by decide) _) (solid_cons (by decide) r')
      exact absurd (List.cons.inj heq).1 (by decide)
  cases h with
  | lastMember hm => exact hmember hm
  | members hm _ => exact hmember hm

/-- The grammar is unambiguous: the front of a text can be read in one way only, if what is left
cannot belong to it. -/
theorem Reads.unique {part : Part} {a a' : part.Meaning} {s r r' : Text} (h : Reads part a s r)
    (h' : Reads part a' s r') (hr : part.Ends r) (hr' : part.Ends r') : a = a' ∧ r = r' := by
  have hcomma (t : Text) := ends_cons (c := ',') (by decide) (by decide) t
  have hbracket (t : Text) := ends_cons (c := ']') (by decide) (by decide) t
  have hbrace (t : Text) := ends_cons (c := '\x7d') (by decide) (by decide) t
  induction h generalizing r' with
  | null =>
    cases h' with
    | null => exact ⟨rfl, rfl⟩
    | number ht heq => exact absurd heq (ht.cons_ne (by decide))
  | yes =>
    cases h' with
    | yes => exact ⟨rfl, rfl⟩
    | number ht heq => exact absurd heq (ht.cons_ne (by decide))
  | no =>
    cases h' with
    | no => exact ⟨rfl, rfl⟩
    | number ht heq => exact absurd heq (ht.cons_ne (by decide))
  | number ht heq =>
    cases h' with
    | number ht' heq' =>
      obtain ⟨rfl, rfl⟩ := ht.unique ht' (heq.symm.trans heq') hr hr'
      exact ⟨rfl, rfl⟩
    | _ => exact absurd heq (ht.cons_ne (by decide))
  | string ht =>
    cases h' with
    | string ht' =>
      obtain ⟨rfl, rfl⟩ := ht.unique ht'
      exact ⟨rfl, rfl⟩
    | number ht heq => exact absurd heq (ht.cons_ne (by decide))
  | emptyArray hs =>
    cases h' with
    | emptyArray hs' =>
      have heq := hs.unique hs' (hbracket _).1.1 (hbracket _).1.1
      exact ⟨rfl, (List.cons.inj heq).2⟩
    | array hvs' => exact absurd hs hvs'.not_blanks_bracket
    | number ht heq => exact absurd heq (ht.cons_ne (by decide))
  | array hvs ih =>
    cases h' with
    | emptyArray hs' => exact absurd hs' hvs.not_blanks_bracket
    | array hvs' =>
      obtain ⟨rfl, heq⟩ := ih hvs' ((hbracket _).2 (by decide)) ((hbracket _).2 (by decide))
      exact ⟨rfl, (List.cons.inj heq).2⟩
    | number ht heq => exact absurd heq (ht.cons_ne (by decide))
  | emptyObject hs =>
    cases h' with
    | emptyObject hs' =>
      have heq := hs.unique hs' (hbrace _).1.1 (hbrace _).1.1
      exact ⟨rfl, (List.cons.inj heq).2⟩
    | object hms' => exact absurd hs hms'.not_blanks_brace
    | number ht heq => exact absurd heq (ht.cons_ne (by decide))
  | object hms ih =>
    cases h' with
    | emptyObject hs' => exact absurd hs' hms.not_blanks_brace
    | object hms' =>
      obtain ⟨rfl, heq⟩ := ih hms' ((hbrace _).2 (by decide)) ((hbrace _).2 (by decide))
      exact ⟨rfl, (List.cons.inj heq).2⟩
    | number ht heq => exact absurd heq (ht.cons_ne (by decide))
  | element hs hv hu ih =>
    cases h' with
    | element hs' hv' hu' =>
      obtain rfl := hs.unique hs' hv.solid hv'.solid
      obtain ⟨rfl, rfl⟩ := ih hv' (hu.pastNumeral hr.2) (hu'.pastNumeral hr'.2)
      exact ⟨rfl, hu.unique hu' hr.1 hr'.1⟩
  | lastElement hv ih =>
    cases h' with
    | lastElement hv' =>
      obtain ⟨rfl, rfl⟩ := ih hv' ⟨hr.1, hr.2.1⟩ ⟨hr'.1, hr'.2.1⟩
      exact ⟨rfl, rfl⟩
    | elements hv' _ =>
      obtain ⟨-, rfl⟩ := ih hv' ⟨hr.1, hr.2.1⟩ (hcomma _).1
      exact absurd rfl hr.2.2
  | elements hv hvs ih ihs =>
    cases h' with
    | lastElement hv' =>
      obtain ⟨-, rfl⟩ := ih hv' (hcomma _).1 ⟨hr'.1, hr'.2.1⟩
      exact absurd rfl hr'.2.2
    | elements hv' hvs' =>
      obtain ⟨rfl, heq⟩ := ih hv' (hcomma _).1 (hcomma _).1
      obtain rfl := (List.cons.inj heq).2
      obtain ⟨rfl, rfl⟩ := ihs hvs' hr hr'
      exact ⟨rfl, rfl⟩
  | member hs hname hu hv ih =>
    cases h' with
    | member hs' hname' hu' hv' =>
      have hquote := hs.unique hs' (solid_cons (by decide) _) (solid_cons (by decide) _)
      obtain rfl := (List.cons.inj hquote).2
      obtain ⟨rfl, rfl⟩ := hname.unique hname'
      have hcolon := hu.unique hu' (solid_cons (by decide) _) (solid_cons (by decide) _)
      obtain rfl := (List.cons.inj hcolon).2
      obtain ⟨rfl, rfl⟩ := ih hv' hr hr'
      exact ⟨rfl, rfl⟩
  | lastMember hm ih =>
    cases h' with
    | lastMember hm' =>
      obtain ⟨rfl, rfl⟩ := ih hm' ⟨hr.1, hr.2.1⟩ ⟨hr'.1, hr'.2.1⟩
      exact ⟨rfl, rfl⟩
    | members hm' _ =>
      obtain ⟨-, rfl⟩ := ih hm' ⟨hr.1, hr.2.1⟩ (hcomma _).1
      exact absurd rfl hr.2.2
  | members hm hms ih ihs =>
    cases h' with
    | lastMember hm' =>
      obtain ⟨-, rfl⟩ := ih hm' (hcomma _).1 ⟨hr'.1, hr'.2.1⟩
      exact absurd rfl hr'.2.2
    | members hm' hms' =>
      obtain ⟨rfl, heq⟩ := ih hm' (hcomma _).1 (hcomma _).1
      obtain rfl := (List.cons.inj heq).2
      obtain ⟨rfl, rfl⟩ := ihs hms' hr hr'
      exact ⟨rfl, rfl⟩

/-- A text that is a document, and what it says. -/
def IsDocument (t : Text) (tree : Tree) : Prop :=
  Reads .element tree t []

theorem IsDocument.unique {t : Text} {tree tree' : Tree} (h : IsDocument t tree)
    (h' : IsDocument t tree') : tree = tree' := by
  have hend : Part.element.Ends [] := by simp [Part.Ends, Solid, PastNumeral]
  exact (Reads.unique h h' hend hend).1

end TrueCase.Json

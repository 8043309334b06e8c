/-!
# Text

Text is handled as the list of its characters, so that paths, specifiers and sources can be cut
and compared by structural recursion. Offsets count the bytes of the UTF-8 form.

## Main definitions

* `Text` is a list of characters.
* `Text.utf8Size` is the number of bytes that a text takes.
* `Text.ofNat` writes a number in decimal.
* `Text.lineFeeds` counts line feeds.
-/

namespace TrueCase

/-- Text as the list of its characters. -/
abbrev Text := List Char

namespace Text

/-- The number of bytes of the UTF-8 form. -/
def utf8Size : Text → Nat
  | [] => 0
  | c :: t => c.utf8Size + utf8Size t

@[simp] theorem utf8Size_nil : utf8Size [] = 0 := rfl

@[simp] theorem utf8Size_cons (c : Char) (t : Text) :
    utf8Size (c :: t) = c.utf8Size + utf8Size t :=
  rfl

@[simp] theorem utf8Size_append (s t : Text) :
    utf8Size (s ++ t) = utf8Size s + utf8Size t := by
  induction s with
  | nil => simp
  | cons c s ih => simp [ih, Nat.add_assoc]

/-- The number of line feeds. -/
def lineFeeds (t : Text) : Nat :=
  t.count '\n'

/-- The decimal digits of a number. -/
def ofNat (n : Nat) : Text :=
  Nat.toDigits 10 n

theorem isDigit_of_mem_ofNat {n : Nat} {c : Char} (h : c ∈ ofNat n) : c.isDigit = true :=
  Nat.isDigit_of_mem_toDigits (by decide) (by decide) h

end Text

end TrueCase

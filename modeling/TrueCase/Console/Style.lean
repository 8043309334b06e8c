import TrueCase.Text.Basic

/-!
# Styled text

Text on a terminal is styled by escape sequences: one that switches the style on stands in front,
one that resets it behind. Without colour the text stands by itself.
-/

namespace TrueCase

/-- What is said from outside about colour. A setting counts as off when it is the digit zero. -/
structure ColourSettings where
  /-- Colour is wanted, terminal or not. -/
  force : Option Text
  /-- Colour is not wanted. -/
  avoid : Option Text
  /-- Colour is wanted on a terminal, as it is without this setting. -/
  allow : Option Text
  /-- Whether the output is a terminal. -/
  terminal : Bool
  deriving DecidableEq, Repr

/-- Whether to use colour. -/
def ColourSettings.coloured (settings : ColourSettings) : Bool :=
  if settings.force.any on then true
  else if settings.avoid.isSome then false
  else settings.allow.all on && settings.terminal
where
  on (setting : Text) : Bool :=
    setting ≠ ['0']

/-- The colours in use. -/
inductive Colour where
  | red
  | green
  | yellow
  | blue
  | cyan
  deriving DecidableEq, Repr

def Colour.code : Colour → Nat
  | red => 31
  | green => 32
  | yellow => 33
  | blue => 34
  | cyan => 36

/-- A style: its attributes and its colour. -/
structure Style where
  bold : Bool := false
  dimmed : Bool := false
  colour : Option Colour := none
  deriving DecidableEq, Repr

namespace Style

/-- The codes of a style, attributes before the colour. -/
def codes (style : Style) : List Nat :=
  (if style.bold then [1] else []) ++ (if style.dimmed then [2] else []) ++
    (style.colour.map Colour.code).toList

/-- The escape sequence with the given codes. -/
def sequence (codes : List Nat) : Text :=
  '\x1b' :: '[' :: [';'].intercalate (codes.map Text.ofNat) ++ ['m']

/-- The sequence that resets the style. -/
def reset : Text :=
  ['\x1b', '[', '0', 'm']

/-- The text with `opening` again behind each reset in it, so that the style goes on. -/
def reopen (opening : Text) : Text → Text
  | '\x1b' :: '[' :: '0' :: 'm' :: rest => reset ++ opening ++ reopen opening rest
  | c :: rest => c :: reopen opening rest
  | [] => []

/-- The text in a style. Without colour it stays as it is. -/
def paint (style : Style) (coloured : Bool) (t : Text) : Text :=
  if coloured then
    let opening := sequence style.codes
    opening ++ reopen opening t ++ reset
  else t

end Style

end TrueCase

import TrueCase.Text.Basic

/-!
# JSON documents

The values that a report is made of, and their layout over several indented lines.

## Main definitions

* `Json`: a value; numbers are natural.
* `Json.escape`: a text as it stands between quotes.
* `Json.pretty`: a value with two spaces of indentation for each level.
-/

namespace TrueCase

/-- A JSON value. Members of an object keep their order. -/
inductive Json where
  | boolean (b : Bool)
  | number (n : Nat)
  | string (t : Text)
  | array (items : List Json)
  | object (members : List (Text × Json))

namespace Json

/-- The digit of a number below 16. -/
def hexDigit (n : Nat) : Char :=
  if n < 10 then Char.ofNat ('0'.toNat + n) else Char.ofNat ('a'.toNat + (n - 10))

/-- How a character stands between quotes. Only quotes, backslashes and control characters are
written in another way than as themselves. -/
def escapeChar (c : Char) : Text :=
  match c with
  | '"' => ['\\', '"']
  | '\\' => ['\\', '\\']
  | '\x08' => ['\\', 'b']
  | '\x0c' => ['\\', 'f']
  | '\n' => ['\\', 'n']
  | '\r' => ['\\', 'r']
  | '\t' => ['\\', 't']
  | c =>
    if c.toNat < 32 then
      ['\\', 'u', '0', '0', hexDigit (c.toNat / 16), hexDigit (c.toNat % 16)]
    else [c]

/-- How a text stands between quotes. -/
def escape (t : Text) : Text :=
  t.flatMap escapeChar

/-- A text between quotes. -/
def quote (t : Text) : Text :=
  '"' :: (escape t ++ ['"'])

/-- The start of a line at the given depth. -/
def newline (depth : Nat) : Text :=
  '\n' :: List.replicate (2 * depth) ' '

mutual

/-- The layout of a value whose first line is indented to the given depth. -/
def prettyAt (depth : Nat) : Json → Text
  | boolean b => if b then "true".toList else "false".toList
  | number n => Text.ofNat n
  | string t => quote t
  | array [] => ['[', ']']
  | array (item :: items) =>
    '[' :: newline (depth + 1) ++ prettyAt (depth + 1) item ++ prettyItems (depth + 1) items ++
      newline depth ++ [']']
  | object [] => ['\x7b', '\x7d']
  | object ((name, value) :: members) =>
    '\x7b' :: newline (depth + 1) ++ quote name ++ [':', ' '] ++ prettyAt (depth + 1) value ++
      prettyMembers (depth + 1) members ++ newline depth ++ ['\x7d']

/-- The layout of the items behind the first. -/
def prettyItems (depth : Nat) : List Json → Text
  | [] => []
  | item :: items => ',' :: newline depth ++ prettyAt depth item ++ prettyItems depth items

/-- The layout of the members behind the first. -/
def prettyMembers (depth : Nat) : List (Text × Json) → Text
  | [] => []
  | (name, value) :: members =>
    ',' :: newline depth ++ quote name ++ [':', ' '] ++ prettyAt depth value ++
      prettyMembers depth members

end

/-- The document of a value. There is no line feed at its end. -/
def pretty (json : Json) : Text :=
  prettyAt 0 json

end Json

end TrueCase

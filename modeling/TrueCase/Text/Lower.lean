import TrueCase.Text.Basic
import TrueCase.Unicode.Case

/-!
# Lower case

The lower-case form of a text. Each character is mapped by itself except the capital sigma, which
has a form of its own at the end of a word.

## Main definitions

* `Text.startsCased` looks ahead for a cased letter.
* `Text.lower` is the lower-case form.
-/

namespace TrueCase.Text

open Unicode

/-- Whether the first character that is not case-ignorable is cased. -/
def startsCased (t : Text) : Bool :=
  (t.find? fun c => !isCaseIgnorable c).any isCased

/-- The lower-case form of what follows a text. `afterCased` says whether the last character before
it that is not case-ignorable is cased. A sigma is final when a cased letter stands before it and
none after it. -/
def lowerAfter (afterCased : Bool) : Text → Text
  | [] => []
  | c :: rest =>
    (if c = 'Σ' then [if afterCased && !startsCased rest then 'ς' else 'σ'] else lowerChar c) ++
      lowerAfter (if isCaseIgnorable c then afterCased else isCased c) rest

/-- The lower-case form of a text. -/
def lower (t : Text) : Text :=
  lowerAfter false t

@[simp] theorem lower_nil : lower [] = [] := rfl

end TrueCase.Text

import TrueCase.Text.Utf8

/-!
# Answers to a question

A question is answered by a single key. Enter takes the answer that is offered, which is yes. Keys
arrive as bytes. Those that stand for no character, such as the arrows, arrive as an escape with
some bytes behind it, which are no answers.

## Main definitions

* `Prompt.sequenceLength`: how many bytes belong to an escape.
* `Prompt.answer?`: the first answer among the keys.
-/

namespace TrueCase.Prompt

/-- The question that is asked before a file is written. -/
def question : Text :=
  "Apply these changes?".toList

/-- The byte that starts the sequence of a key without a character. -/
abbrev escape : UInt8 := 0x1B

/-- The bytes that end the sequence of a key right behind the bracket. -/
def finals : Bytes :=
  Utf8.encode "ABCDFHZ".toList

/-- How many of the bytes behind an escape belong to the same key, where there are so many: one, or
behind a bracket one or two more. -/
def sequenceLength : Bytes → Nat
  | 0x5B :: b :: _ => if b ∈ finals then 2 else 3
  | _ => 1

/-- The answer that a byte gives. The bytes that give none are passed over. -/
def answerOfByte? (b : UInt8) : Option Bool :=
  if b ∈ Utf8.encode "yY\r\n".toList then some true
  else if b ∈ Utf8.encode "nN".toList then some false
  else none

/-- The first answer among the keys, with the keys behind it. -/
def answer? : Bytes → Option (Bool × Bytes)
  | [] => none
  | b :: keys =>
    if b = escape then answer? (keys.drop (sequenceLength keys))
    else
      match answerOfByte? b with
      | some answer => some (answer, keys)
      | none => answer? keys
termination_by keys => keys.length

/-- Why there is no answer where there is no terminal. -/
def noTerminal : Text :=
  "IO error: not a terminal".toList

/-- Why there is no answer when the keys have run out. -/
def noMoreKeys : Text :=
  "IO error: Reached end of file".toList

end TrueCase.Prompt

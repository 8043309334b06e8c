import TrueCase.Text.Basic

/-!
# UTF-8

File names and file contents are bytes. Most of them are UTF-8, but any sequence can occur.

## Main definitions

* `Utf8.encode` writes a text as bytes.
* `Utf8.pieces` reads bytes as characters and ill-formed sequences.
* `Utf8.decode?` reads bytes that are a text throughout.
* `Utf8.lossy` reads any bytes, with U+FFFD in place of each ill-formed sequence.
-/

namespace TrueCase

/-- The content of a file, or a name or path as the file system holds it. -/
abbrev Bytes := List UInt8

namespace Utf8

/-- The bytes of a text. -/
def encode (t : Text) : Bytes :=
  t.flatMap String.utf8EncodeChar

@[simp] theorem encode_nil : encode [] = [] := rfl

@[simp] theorem encode_append (s t : Text) : encode (s ++ t) = encode s ++ encode t := by
  simp [encode]

/-- What the first byte of a character says about those behind it: how many there are, and the
range of the first of them. -/
structure Lead where
  following : Nat
  low : UInt8
  high : UInt8

/-- The lead that a byte makes, if a character can start with it. The narrow ranges shut out
surrogates, forms that are longer than needed, and numbers beyond the last code point. -/
def Lead.ofByte? (b : UInt8) : Option Lead :=
  if b < 0x80 then some ⟨0, 0x80, 0xBF⟩
  else if b < 0xC2 then none
  else if b < 0xE0 then some ⟨1, 0x80, 0xBF⟩
  else if b = 0xE0 then some ⟨2, 0xA0, 0xBF⟩
  else if b = 0xED then some ⟨2, 0x80, 0x9F⟩
  else if b < 0xF0 then some ⟨2, 0x80, 0xBF⟩
  else if b = 0xF0 then some ⟨3, 0x90, 0xBF⟩
  else if b < 0xF4 then some ⟨3, 0x80, 0xBF⟩
  else if b = 0xF4 then some ⟨3, 0x80, 0x8F⟩
  else none

/-- As many of the next `n` bytes as can continue a character, the first within the given range. -/
def continuation : Nat → UInt8 → UInt8 → Bytes → Bytes
  | n + 1, low, high, b :: rest =>
    if low ≤ b ∧ b ≤ high then b :: continuation n 0x80 0xBF rest else []
  | _, _, _, _ => []

/-- The code point made of the payload bits of a first byte and of those that follow it. -/
def codePoint (first : UInt8) (following : Bytes) : Nat :=
  let payload := if following = [] then 128 else 1 <<< (6 - following.length)
  following.foldl (fun n b => n * 64 + b.toNat % 64) (first.toNat % payload)

/-- The bytes as characters. Each longest sequence that starts a character and does not complete
it, and each byte that cannot start one, counts as one ill-formed piece. -/
def pieces : Bytes → List (Option Char)
  | [] => []
  | b :: rest =>
    match Lead.ofByte? b with
    | none => none :: pieces rest
    | some lead =>
      let following := continuation lead.following lead.low lead.high rest
      let piece :=
        if following.length = lead.following then some (Char.ofNat (codePoint b following))
        else none
      piece :: pieces (rest.drop following.length)
termination_by bytes => bytes.length

/-- The text with the given bytes, if they are well-formed. -/
def decode? (bytes : Bytes) : Option Text :=
  (pieces bytes).mapM id

/-- The text that is shown for the given bytes. -/
def lossy (bytes : Bytes) : Text :=
  (pieces bytes).map (·.getD '\uFFFD')

end Utf8

end TrueCase

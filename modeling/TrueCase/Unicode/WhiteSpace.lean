import TrueCase.Unicode.Range

/-!
# White space

The characters with the Unicode property `White_Space`. The zero width space and the byte order
mark are not among them.
-/

namespace TrueCase.Unicode

def whiteSpaceRanges : Range.Table :=
  [⟨0x9, 0xD⟩, ⟨0x20, 0x20⟩, ⟨0x85, 0x85⟩, ⟨0xA0, 0xA0⟩, ⟨0x1680, 0x1680⟩,
   ⟨0x2000, 0x200A⟩, ⟨0x2028, 0x2029⟩, ⟨0x202F, 0x202F⟩, ⟨0x205F, 0x205F⟩, ⟨0x3000, 0x3000⟩]

/-- Whether the character is white space. -/
def isWhiteSpace (c : Char) : Bool :=
  whiteSpaceRanges.has c

theorem isWhiteSpace_of_ascii {c : Char} (h : c.isWhitespace = true) :
    isWhiteSpace c = true := by
  simp only [Char.isWhitespace, Bool.or_eq_true, decide_eq_true_eq] at h
  rcases h with ((rfl | rfl) | rfl) | rfl <;> decide

end TrueCase.Unicode

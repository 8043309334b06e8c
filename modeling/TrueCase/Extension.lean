import TrueCase.Text.Basic

/-!
# Source extensions

The four extensions by which a source file is recognised. An import may leave its extension out;
the order of `Extension.all` then decides between files that differ in nothing else.

## Main definitions

* `Extension.all` lists the extensions, the preferred one first.
* `dropExtension` removes a recognised extension from the end of a path.
-/

namespace TrueCase

/-- A recognised extension. -/
inductive Extension where
  | jsx
  | js
  | tsx
  | ts
  deriving DecidableEq, Repr

namespace Extension

/-- The extensions in the order in which they are tried. -/
def all : List Extension :=
  [.jsx, .js, .tsx, .ts]

/-- The letters of the extension. -/
def text : Extension → Text
  | .jsx => "jsx".toList
  | .js => "js".toList
  | .tsx => "tsx".toList
  | .ts => "ts".toList

/-- The extension with the dot in front of it. -/
def suffix (e : Extension) : Text :=
  '.' :: e.text

theorem mem_all (e : Extension) : e ∈ all := by
  cases e <;> decide

end Extension

/-- The path without the recognised extension at its end, or the whole path if it has none. -/
def dropExtension (path : Text) : Text :=
  (Extension.all.findSome? fun e => e.suffix.isSuffixOf? path).getD path

end TrueCase

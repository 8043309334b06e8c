import TrueCase.Extension
import TrueCase.Path.Basic
import TrueCase.Text.Utf8

/-!
# Paths as the file system takes them

A path that is handed to the file system is a sequence of bytes. Two spellings of a path can have
the same components: slashes that are doubled or stand at the end count for nothing, and neither
does a dot, except at the very start.

## Main definitions

* `RawPath.components`: the components of a path.
* `RawPath.child`: the path of an entry of a directory.
* `RawPath.relativeTo?`: what is left of a path below a root.
* `RawPath.fileName?`, `RawPath.extension?`: the last component and its extension.
* `isSourceFile`: whether a path has a recognised extension.
-/

namespace TrueCase

/-- A path as the bytes that the file system takes. -/
abbrev RawPath := Bytes

namespace RawPath

/-- The byte of a slash. -/
abbrev slash : UInt8 := 0x2F

/-- The byte of a full stop. -/
abbrev stop : UInt8 := 0x2E

/-- The component that stands for the root of the file system. -/
abbrev rootDir : Bytes := [slash]

/-- The component that stands for the directory itself. -/
abbrev currentDir : Bytes := [stop]

/-- The component that stands for the directory above. -/
abbrev parentDir : Bytes := [stop, stop]

/-- The path of a text. -/
def ofText (t : Text) : RawPath :=
  Utf8.encode t

/-- How a path is shown. -/
def display (p : RawPath) : Text :=
  Utf8.lossy p

/-- The components of a path. -/
def components (p : RawPath) : List Bytes :=
  let pieces := p.splitOn slash
  let proper := pieces.filter fun s => s ≠ [] ∧ s ≠ currentDir
  if p.head? = some slash then rootDir :: proper
  else if pieces.head? = some currentDir then currentDir :: proper
  else proper

/-- The path of the entry `name` in the directory `p`. -/
def child (p : RawPath) (name : Bytes) : RawPath :=
  if p = [] ∨ p.getLast? = some slash then p ++ name else p ++ slash :: name

/-- The components of `p` below `root`, if it starts with the components of `root`. -/
def below? (root p : RawPath) : Option (List Bytes) :=
  (components root).isPrefixOf? (components p)

/-- The path of `p` relative to `root`, with slashes between its components. -/
def relativeTo? (root p : RawPath) : Option Text :=
  (below? root p).map fun names => Path.ofSegments (names.map Utf8.lossy)

/-- The last component, if it is a name. -/
def fileName? (p : RawPath) : Option Bytes :=
  (components p).getLast?.filter fun s => s ≠ rootDir ∧ s ≠ currentDir ∧ s ≠ parentDir

/-- What follows the last full stop of a name, unless nothing stands before it. -/
def nameExtension? (name : Bytes) : Option Bytes :=
  let pieces := name.splitOn stop
  if pieces.dropLast = [] ∨ pieces.dropLast = [[]] then none else pieces.getLast?

/-- The extension of a path. -/
def extension? (p : RawPath) : Option Bytes :=
  (fileName? p).bind nameExtension?

end RawPath

/-- Whether the path has a recognised extension. -/
def isSourceFile (p : RawPath) : Bool :=
  Extension.all.any fun e => p.extension? = some (Utf8.encode e.text)

end TrueCase

import TrueCase.Extension
import TrueCase.FileIndex
import TrueCase.Path.Basic

/-!
# Resolving a specifier

An import names a file by a specifier, relative to the directory of the file that imports. The
specifier is looked up in the index of source files without regard to case: first the path that it
leads to, then that path with each extension, then the index file of the directory of that name.

## Main definitions

* `Resolution`: the file that a specifier names, and how it names it.
* `directCandidates`, `directoryCandidates`: the paths that are tried.
* `resolve`: the resolution of a specifier.
-/

namespace TrueCase

/-- How a specifier names its file. -/
inductive Resolution.Kind where
  /-- It names the file itself, with or without the extension. -/
  | direct
  /-- It names a directory with an index file. -/
  | directoryIndex
  deriving DecidableEq, Repr

/-- The file that a specifier names. -/
structure Resolution where
  entry : FileEntry
  kind : Resolution.Kind
  deriving DecidableEq, Repr

/-- What comes of looking a specifier up. -/
inductive Resolved where
  /-- The specifier is not relative, so it names a package. -/
  | external
  /-- The specifier is relative, and no file answers to it. -/
  | notFound
  | found (resolution : Resolution)
  deriving DecidableEq, Repr

/-- Relative specifiers start with a dot. -/
def isRelative (specifier : Text) : Bool :=
  specifier.head? = some '.'

/-- The paths that `target` can stand for as a file, in the order in which they are tried. -/
def directCandidates (target : Text) : List Text :=
  target :: Extension.all.map (target ++ ·.suffix)

/-- The index files that `target` can stand for as a directory, in the order in which they are
tried. -/
def directoryCandidates (target : Text) : List Text :=
  let stem := if target = [] then "index".toList else target ++ "/index".toList
  Extension.all.map (stem ++ ·.suffix)

/-- The path that a specifier in the file `current` leads to. -/
def targetOf (current specifier : Text) : Text :=
  Path.join (Path.parent current) specifier

/-- The file that a specifier names in the file `current`. -/
def resolve (index : FileIndex) (current specifier : Text) : Resolved :=
  if isRelative specifier then
    let target := targetOf current specifier
    match (directCandidates target).findSome? index.get? with
    | some entry => .found ⟨entry, .direct⟩
    | none =>
      match (directoryCandidates target).findSome? index.get? with
      | some entry => .found ⟨entry, .directoryIndex⟩
      | none => .notFound
  else .external

end TrueCase

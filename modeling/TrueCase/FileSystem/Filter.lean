import TrueCase.Glob
import TrueCase.Text.Utf8

/-!
# What a walk leaves out

Some directories hold no sources of the project and are never entered. Patterns given by the user
leave out further files and directories by their bare names. A name that is not text is never left
out.
-/

namespace TrueCase

/-- The patterns of names that a walk leaves out. -/
structure Filter where
  patterns : List Glob
  deriving DecidableEq, Repr

namespace Filter

/-- The filter without patterns. -/
def empty : Filter where
  patterns := []

/-- The names of the directories that are always left out. -/
def excludedDirectories : List Text :=
  ["node_modules".toList, ".git".toList, "dist".toList]

/-- The filter of the given patterns, or the first of them that is none, with its mistake. -/
def ofGlobs (globs : List Text) : Except (Text × Glob.Error) Filter :=
  (globs.mapM fun g => (Glob.parse g).mapError (g, ·)).map Filter.mk

/-- Whether the entry `name` of a directory is left out. -/
def prunes (filter : Filter) (name : Bytes) (isDirectory : Bool) : Bool :=
  match Utf8.decode? name with
  | none => false
  | some text =>
    (isDirectory && text ∈ excludedDirectories) || filter.patterns.any (·.matchesText text)

end Filter

end TrueCase

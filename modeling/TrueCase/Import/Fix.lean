import TrueCase.Import.Canonical
import TrueCase.Import.Clause

/-!
# Fixing a source

Each specifier of a source is judged by itself: it is kept, replaced by the canonical one, or
reported because no file answers to it. The fixed source differs from the source in nothing but the
specifiers that are replaced.

## Main definitions

* `FixRecord`, `IssueRecord`: what is reported of a replaced and of a missing specifier.
* `Verdict`: what is to be done about a specifier.
* `fixSource`: the fixed source with its records.
-/

namespace TrueCase

/-- A specifier that has been replaced. -/
structure FixRecord where
  /-- The importing file. -/
  file : Text
  /-- The specifier as it was written. -/
  old : Text
  /-- The specifier that takes its place. -/
  new : Text
  /-- The path of the imported file. -/
  target : Text
  deriving DecidableEq, Repr

/-- A relative specifier that names no file. -/
structure IssueRecord where
  /-- The importing file. -/
  file : Text
  specifier : Text
  line : Nat
  reason : Text
  deriving DecidableEq, Repr

/-- The reason that is given for a specifier that names no file. -/
def IssueRecord.notFound : Text :=
  "File not found".toList

/-- What is to be done about a specifier. -/
inductive Verdict where
  | keep
  | replace (new target : Text)
  | missing
  deriving DecidableEq, Repr

/-- The verdict on a specifier in the file `current`. Packages are left alone. -/
def judge (index : FileIndex) (current specifier : Text) : Verdict :=
  match resolve index current specifier with
  | .external => .keep
  | .notFound => .missing
  | .found resolution =>
    let canonical := canonicalSpecifier index current resolution
    if canonical = specifier then .keep else .replace canonical resolution.entry.actualPath

namespace Verdict

/-- The specifier that stands in the source afterwards. -/
def specifier (old : Text) : Verdict → Text
  | replace new _ => new
  | _ => old

/-- The record of a replaced specifier. -/
def fix? (file old : Text) : Verdict → Option FixRecord
  | replace new target => some ⟨file, old, new, target⟩
  | _ => none

/-- The record of a missing file. -/
def issue? (file : Text) (imported : ImportRef) : Verdict → Option IssueRecord
  | missing => some ⟨file, imported.specifier, imported.line, IssueRecord.notFound⟩
  | _ => none

end Verdict

/-- A fixed source. -/
structure Outcome where
  content : Text
  fixes : List FixRecord
  issues : List IssueRecord
  deriving DecidableEq, Repr

/-- Whether any specifier has been replaced. -/
def Outcome.changed (outcome : Outcome) : Bool :=
  !outcome.fixes.isEmpty

/-- The specifier that stands for `specifier` once the file `current` is fixed. -/
def fixedSpecifier (index : FileIndex) (current specifier : Text) : Text :=
  (judge index current specifier).specifier specifier

/-- The source of the file `current` with each specifier as it should be. -/
def fixSource (index : FileIndex) (current source : Text) : Outcome :=
  let parts := SourceText.ofText source
  { content := (parts.mapSpecifiers (fixedSpecifier index current)).text
    fixes := parts.imports.filterMap fun i =>
      (judge index current i.specifier).fix? current i.specifier
    issues := parts.imports.filterMap fun i =>
      (judge index current i.specifier).issue? current i }

end TrueCase

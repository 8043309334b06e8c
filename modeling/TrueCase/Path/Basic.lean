import TrueCase.Text.Basic

/-!
# Relative paths

Paths inside a source tree, and import specifiers, are texts whose segments are separated by
slashes. They are read and joined here without looking at any file.

## Main definitions

* `Path.segments`, `Path.ofSegments`: the text of a path against its list of segments.
* `Path.Clean`: a path without empty segments and dots.
* `Path.parent`, `Path.fileName`: what stands before and after the last slash.
* `Path.join`: follows a specifier from a directory.
* `Path.relative`: the shortest way from a directory to a path.
* `Path.explicit`: the same, marked as relative by a dot in front.
-/

namespace TrueCase.Path

/-- The segment that stands for the directory itself. -/
abbrev dot : Text := ['.']

/-- The segment that stands for the directory above. -/
abbrev dotDot : Text := ['.', '.']

/-- The segments of a path, empty ones included. -/
def segments (p : Text) : List Text :=
  p.splitOn '/'

/-- The path with the given segments. -/
def ofSegments (ss : List Text) : Text :=
  ['/'].intercalate ss

@[simp] theorem ofSegments_segments (p : Text) : ofSegments (segments p) = p :=
  List.intercalate_splitOn '/'

theorem segments_ofSegments {ss : List Text} (h : ∀ s ∈ ss, '/' ∉ s) (hne : ss ≠ []) :
    segments (ofSegments ss) = ss :=
  List.splitOn_intercalate '/' h hne

/-- The segments of a path that are not empty. -/
def names (p : Text) : List Text :=
  (segments p).filter (· ≠ [])

/-- A path is clean when it has one segment or more and each is a proper name. -/
def Clean (p : Text) : Prop :=
  ∀ s ∈ segments p, s ≠ [] ∧ s ≠ dot ∧ s ≠ dotDot

instance (p : Text) : Decidable (Clean p) :=
  inferInstanceAs (Decidable (∀ s ∈ segments p, s ≠ [] ∧ s ≠ dot ∧ s ≠ dotDot))

/-- The directory part of a path, empty for a path without a slash. -/
def parent (p : Text) : Text :=
  ofSegments (segments p).dropLast

/-- The part of a path after its last slash. -/
def fileName (p : Text) : Text :=
  (segments p).getLastD []

/-! ## join -/

/-- Follow one segment from the directory whose segments are given innermost first. Going up from
the root, or from above it, leads further up. -/
def step (place : List Text) (segment : Text) : List Text :=
  if segment = [] ∨ segment = dot then place
  else if segment = dotDot then
    match place with
    | [] => [dotDot]
    | inner :: outer => if inner = dotDot then dotDot :: place else outer
  else segment :: place

/-- The path that `specifier` leads to from the directory `base`, without dots except for steps
above the root at its start. -/
def join (base specifier : Text) : Text :=
  ofSegments ((segments specifier).foldl step (names base).reverse).reverse

/-! ## relative -/

/-- The way between two directories: up from what only the first has, then down what only the
second has. -/
def way : List Text → List Text → List Text
  | f :: fs, t :: ts => if f = t then way fs ts else (f :: fs).map (fun _ => dotDot) ++ t :: ts
  | fs, ts => fs.map (fun _ => dotDot) ++ ts

/-- The shortest relative path from the directory `base` to the path `target`. Segments are
compared letter for letter. -/
def relative (base target : Text) : Text :=
  ofSegments (way (names base) (names target))

/-- The relative path from `base` to `target` as a specifier: it starts with `./` or `../`, and one
that ends above the base has a slash behind. -/
def explicit (base target : Text) : Text :=
  let rel := relative base target
  if rel = [] then ['.', '/']
  else if (segments rel).getLast? = some dotDot then rel ++ ['/']
  else if (segments rel).head? = some dotDot then rel
  else '.' :: '/' :: rel

end TrueCase.Path

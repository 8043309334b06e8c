import TrueCase.FileSystem.Filter
import TrueCase.FileSystem.Tree

/-!
# Collecting source files

A walk visits everything below a root, directories in the order in which they list their entries,
and collects the source files. Links below the root are neither followed nor collected, and what the
filter leaves out is not visited. The root itself is never left out, and a link that stands for it
is followed.

A directory is entered by its path. The walk ends at the first one whose path is too long for that,
and then it collects nothing.

## Main definitions

* `Node.admitted`: the files that a walk visits.
* `Node.entered`: the directories that it enters.
* `Node.collect`: the paths of the source files that a walk from a root collects.
-/

namespace TrueCase

namespace Node

mutual

/-- The files that the entry `name` contributes to a walk, as the names on the way to them. -/
def admitted (filter : Filter) (name : Bytes) : Node → List Place
  | file _ => if filter.prunes name false then [] else [[name]]
  | link _ => []
  | directory entries =>
    if filter.prunes name true then [] else (admittedEntries filter entries).map (name :: ·)

/-- The files that a list of entries contributes to a walk. -/
def admittedEntries (filter : Filter) : List (Bytes × Node) → List Place
  | [] => []
  | (name, node) :: entries => node.admitted filter name ++ admittedEntries filter entries

end

mutual

/-- The directories that a walk enters at the entry `name`, as the names on the way to them. A
directory stands before those that are in it. -/
def entered (filter : Filter) (name : Bytes) : Node → List Place
  | file _ => []
  | link _ => []
  | directory entries =>
    if filter.prunes name true then []
    else [name] :: (enteredEntries filter entries).map (name :: ·)

/-- The directories that a walk enters at a list of entries. -/
def enteredEntries (filter : Filter) : List (Bytes × Node) → List Place
  | [] => []
  | (name, node) :: entries => node.entered filter name ++ enteredEntries filter entries

end

/-- The path of a place below the path `root`. -/
def pathBelow (root : RawPath) (place : Place) : RawPath :=
  place.foldl RawPath.child root

/-- The paths of the source files below the directory `node`, which stands at the path `root`. -/
def sourcesBelow (filter : Filter) (root : RawPath) (node : Node) :
    Except WalkError (List RawPath) :=
  match ((enteredEntries filter node.entries).map (pathBelow root)).find?
      (maxPathLength ≤ ·.length) with
  | some path => .error ⟨path, .nameTooLong⟩
  | none =>
    .ok (((admittedEntries filter node.entries).map (pathBelow root)).filter isSourceFile)

/-- The paths of the source files that a walk collects from a root at which the node `found` stands.
A root that is a file is collected if it is a source file. If it is a link, `target` is what the link
leads to; only a directory counts there. -/
def sourcesAt (filter : Filter) (root : RawPath) (found : Node) (target : Except WalkError Node) :
    Except WalkError (List RawPath) :=
  match found with
  | file _ => .ok (if isSourceFile root then [root] else [])
  | directory entries => sourcesBelow filter root (directory entries)
  | link _ => do
    match ← target with
    | directory entries => sourcesBelow filter root (directory entries)
    | _ => .ok []

/-- The node that a path names. -/
def lookup (top : Node) (purpose : Purpose) (path : RawPath) : Except FileError Node := do
  match top.at? (← top.locate purpose path) with
  | some node => .ok node
  | none => .error .notFound

/-- The paths of the source files that a walk from `root` collects. -/
def collect (top : Node) (filter : Filter) (root : RawPath) :
    Except WalkError (List RawPath) := do
  let find (purpose : Purpose) : Except WalkError Node :=
    (top.lookup purpose root).mapError fun cause => ⟨root, cause⟩
  sourcesAt filter root (← find .itself) (find .target)

end Node

end TrueCase

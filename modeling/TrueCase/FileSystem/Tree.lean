import TrueCase.FileSystem.Error
import TrueCase.FileSystem.RawPath

/-!
# Trees of files

A tree of directories, files and symbolic links, and the way from a path to the place in the tree
that it names. The tree is the whole world: its top is the root of the file system and the working
directory. So an absolute path leads from the top, and a path that leads above it stays there.

## Main definitions

* `Node`: a file, a link or a directory. The entries of a directory stand in the order in which it
  lists them.
* `Node.at?`, `Node.set`, `Node.remove`: reach, replace and remove the node at a place.
* `Node.files`: every file with its place.
* `Node.Purpose`: what a path is followed for.
* `Node.followNames`, `Node.follow`: follow names up to a link, and through links.
* `Node.locate`: the place that a path names.
* `Node.read`, `Node.write`: the content of the file that a path names.
-/

namespace TrueCase

/-- A node of a tree of files. -/
inductive Node where
  | file (content : Bytes)
  | link (target : RawPath)
  | directory (entries : List (Bytes × Node))

/-- A place in a tree: the names on the way to it from the top. -/
abbrev Place := List Bytes

namespace Node

/-- The tree without files. -/
def empty : Node :=
  directory []

/-- The entries of a directory. Other nodes have none. -/
def entries : Node → List (Bytes × Node)
  | directory entries => entries
  | _ => []

/-- The entry of the given name. -/
def child? (node : Node) (name : Bytes) : Option Node :=
  (node.entries.find? (·.1 = name)).map (·.2)

/-- The node at a place. -/
def at? : Node → Place → Option Node
  | node, [] => some node
  | node, name :: names => (node.child? name).bind (·.at? names)

/-- Put `node` in place of the entry of that name, or behind the others if there is none. -/
def putEntry (name : Bytes) (node : Node) : List (Bytes × Node) → List (Bytes × Node)
  | [] => [(name, node)]
  | entry :: entries =>
    if entry.1 = name then (name, node) :: entries else entry :: putEntry name node entries

/-- The tree with `new` at the given place. Directories on the way to it are made. -/
def set (new : Node) : Place → Node → Node
  | [], _ => new
  | name :: names, node =>
    directory (putEntry name (set new names ((node.child? name).getD empty)) node.entries)

/-- The tree without the node at the given place. -/
def remove : Place → Node → Node
  | [], _ => empty
  | [name], node => directory (node.entries.filter (·.1 ≠ name))
  | name :: names, node =>
    match node.child? name with
    | some inner => directory (putEntry name (remove names inner) node.entries)
    | none => node

mutual

/-- The files of a tree with their places, in the order of the directories. -/
def files : Node → List (Place × Bytes)
  | file content => [([], content)]
  | link _ => []
  | directory entries => filesOfEntries entries

/-- The files below the given entries. -/
def filesOfEntries : List (Bytes × Node) → List (Place × Bytes)
  | [] => []
  | (name, node) :: entries =>
    node.files.map (fun (place, content) => (name :: place, content)) ++ filesOfEntries entries

end

/-! ## Following a path -/

/-- How many links are followed on the way to a place. -/
def maxLinks : Nat := 40

/-- The most bytes that a name can have. -/
def maxNameLength : Nat := 255

/-- A path must have fewer bytes than this. -/
def maxPathLength : Nat := 4096

/-- What a path is followed for. -/
inductive Purpose where
  /-- For what stands there, which may be a link. -/
  | itself
  /-- For what a link that stands there leads to. -/
  | target
  /-- For the file that stands there, or for a place to make one. -/
  | creation
  deriving DecidableEq, Repr

/-- The name that stands behind the last slash of a path that ends with one. It asks for a
directory. -/
abbrev noName : Bytes := []

/-- The names that are followed for a path. -/
def steps (path : RawPath) : List Bytes :=
  (path.splitOn RawPath.slash).filter (· ≠ noName) ++
    if path.getLast? = some RawPath.slash then [noName] else []

/-- The place from which a path is followed that is met at `here`: the top, if it is absolute. -/
def origin (here : Place) (path : RawPath) : Place :=
  if path.head? = some RawPath.slash then [] else here

/-- The place that is reached from `here` by the given names. A link that is met on the way is left
to `jump`, with the names behind it. No file can be made at a name with a slash behind. -/
def followNames (top : Node) (purpose : Purpose)
    (jump : Place → List Bytes → Except FileError Place) (here : Place) :
    List Bytes → Except FileError Place
  | [] => .ok here
  | name :: names =>
    match top.at? here with
    | some (directory entries) =>
      if name = noName ∨ name = RawPath.currentDir then top.followNames purpose jump here names
      else if name = RawPath.parentDir then top.followNames purpose jump here.dropLast names
      else if purpose = .creation ∧ names = [noName] then .error .isDirectory
      else
        match (directory entries).child? name with
        | none =>
          -- no entry has a name that is too long, so the others need not be measured
          if maxNameLength < name.length then .error .nameTooLong
          else if purpose = .creation ∧ names = [] then .ok (here ++ [name])
          else .error .notFound
        | some (link target) =>
          if purpose = .itself ∧ names = [] then .ok (here ++ [name])
          else jump (origin here target) (steps target ++ names)
        | some _ => top.followNames purpose jump (here ++ [name]) names
    | _ => .error .notDirectory

/-- The place that is reached from `here` by the given names, in so many rounds at most: one for the
names themselves, and one for each link that is followed. -/
def follow (top : Node) (purpose : Purpose) : Nat → Place → List Bytes → Except FileError Place
  | 0, _, _ => .error .tooManyLinks
  | rounds + 1, here, names => top.followNames purpose (top.follow purpose rounds) here names

/-- The place that a path names. -/
def locate (top : Node) (purpose : Purpose) (path : RawPath) : Except FileError Place :=
  if 0 ∈ path then .error .nulInPath
  else if path = [] then .error .notFound
  else if maxPathLength ≤ path.length then .error .nameTooLong
  else top.follow purpose (maxLinks + 1) [] (steps path)

/-! ## Reading and writing -/

/-- The content of the file that a path names. -/
def read (top : Node) (path : RawPath) : Except FileError Bytes := do
  let place ← top.locate .target path
  match top.at? place with
  | some (file content) => .ok content
  | some (directory _) => .error .isDirectory
  | _ => .error .notFound

/-- The tree in which the file that a path names has the given content. The file need not exist,
but its directory must. -/
def write (top : Node) (path : RawPath) (content : Bytes) : Except FileError Node := do
  let place ← top.locate .creation path
  match top.at? place with
  | some (directory _) => .error .isDirectory
  | _ => .ok (set (file content) place top)

end Node

end TrueCase

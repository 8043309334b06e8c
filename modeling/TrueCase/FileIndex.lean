import TrueCase.Text.Lower
import TrueCase.Text.Utf8

/-!
# The index of source files

The files of a source tree by their lower-case path, so that a path is found whatever the case of
its letters. Each entry keeps the path as the file system spells it.

## Main definitions

* `FileEntry` describes one source file.
* `FileIndex` holds at most one entry for each key.
* `FileIndex.insert` puts an entry in place of the one with its key.
* `FileIndex.get?` finds the entry of a path without regard to case.
-/

namespace TrueCase

/-- A source file. -/
structure FileEntry where
  /-- The lower-case relative path, by which the file is found. -/
  key : Text
  /-- The relative path as the file system spells it. -/
  actualPath : Text
  /-- The path by which the file was reached, the root in front. -/
  fullPath : Bytes
  /-- The last part of the path. -/
  fileName : Text
  deriving DecidableEq, Repr

/-- The source files of a tree, no two of them with the same key. -/
structure FileIndex where
  entries : List FileEntry
  nodup_keys : (entries.map (·.key)).Nodup := by simp

namespace FileIndex

/-- The index without files. -/
def empty : FileIndex where
  entries := []

/-- Add an entry. One that has the same key gives way to it. -/
def insert (index : FileIndex) (entry : FileEntry) : FileIndex where
  entries := entry :: index.entries.filter (·.key ≠ entry.key)
  nodup_keys := by
    have h := index.nodup_keys.sublist ((List.filter_sublist (p := (·.key ≠ entry.key))).map _)
    simpa using h

/-- The index of the given entries, of which later ones win. -/
def ofList (entries : List FileEntry) : FileIndex :=
  entries.foldl insert empty

/-- The entry with the given key. -/
def find? (index : FileIndex) (key : Text) : Option FileEntry :=
  index.entries.find? (·.key = key)

/-- The entry of a path, whatever the case of its letters. -/
def get? (index : FileIndex) (path : Text) : Option FileEntry :=
  index.find? path.lower

/-- The number of entries. -/
def size (index : FileIndex) : Nat :=
  index.entries.length

/-- Whether the index holds no entry. -/
def isEmpty (index : FileIndex) : Bool :=
  index.entries.isEmpty

@[simp] theorem find?_empty (key : Text) : empty.find? key = none := rfl

@[simp] theorem find?_insert_self (index : FileIndex) (entry : FileEntry) :
    (index.insert entry).find? entry.key = some entry := by
  simp [find?, insert]

theorem find?_insert_of_ne (index : FileIndex) {entry : FileEntry} {key : Text}
    (h : entry.key ≠ key) : (index.insert entry).find? key = index.find? key := by
  simp only [find?, insert, List.find?_cons, h, decide_false]
  rw [List.find?_filter]
  congr 1
  funext e
  by_cases he : e.key = key
  · simp [he, Ne.symm h]
  · simp [he]

end FileIndex

end TrueCase

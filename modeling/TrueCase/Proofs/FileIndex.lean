import Mathlib.Data.List.Induction
import Mathlib.Data.List.Nodup
import TrueCase.FileIndex
import TrueCase.Proofs.Path.Segments

/-!
# Regular indexes

The index of a tree finds each of its files by the lower-case form of its path. What that takes is
said here of an entry, kept by insertion, and turned into laws of the lookup.

## Main definitions

* `FileEntry.Regular`: an entry with a clean path and its lower-case form as key.
* `FileEntry.ofPath`, `FileIndex.ofPaths`: the entry and the index of given paths.
* `FileEntry.Normal`: the same, where the path may be empty, as that of a root that is a file.
* `FileIndex.Regular`, `FileIndex.Normal`: an index of such entries.

## Main statements

* `FileIndex.find?_insert`, `FileIndex.find?_ofList`: of entries with one key the last one is found.
* `FileIndex.regular_ofList`: insertion keeps an index regular.
* `FileIndex.get?_eq_some_iff`: what a lookup finds.
-/

namespace TrueCase

namespace FileEntry

/-- An entry with a clean path that is found by the lower-case form of that path. -/
structure Regular (entry : FileEntry) : Prop where
  clean : Path.Clean entry.actualPath
  key_eq : entry.key = entry.actualPath.lower

/-- An entry with a clean or empty path that is found by the lower-case form of that path. -/
structure Normal (entry : FileEntry) : Prop where
  normal : Path.Normal entry.actualPath
  key_eq : entry.key = entry.actualPath.lower

/-- The entry of a file that is reached from its root by the given path. -/
def ofPath (path : Text) : FileEntry where
  key := path.lower
  actualPath := path
  fullPath := Utf8.encode path
  fileName := Path.fileName path

theorem regular_ofPath {path : Text} (h : Path.Clean path) : (ofPath path).Regular :=
  ⟨h, rfl⟩

theorem Regular.toNormal {entry : FileEntry} (h : entry.Regular) : entry.Normal :=
  ⟨h.clean.normal, h.key_eq⟩

end FileEntry

namespace FileIndex

/-- An index of regular entries. -/
def Regular (index : FileIndex) : Prop :=
  ∀ entry ∈ index.entries, entry.Regular

/-- An index of normal entries. -/
def Normal (index : FileIndex) : Prop :=
  ∀ entry ∈ index.entries, entry.Normal

theorem Regular.toNormal {index : FileIndex} (h : index.Regular) : index.Normal :=
  fun entry he => (h entry he).toNormal

/-! ## Keys -/

theorem mem_of_find?_eq_some {index : FileIndex} {key : Text} {entry : FileEntry}
    (h : index.find? key = some entry) : entry ∈ index.entries ∧ entry.key = key :=
  ⟨List.mem_of_find?_eq_some h, by simpa using List.find?_some h⟩

theorem eq_of_key_eq {index : FileIndex} {e f : FileEntry} (he : e ∈ index.entries)
    (hf : f ∈ index.entries) (h : e.key = f.key) : e = f :=
  List.inj_on_of_nodup_map index.nodup_keys he hf h

/-- An entry is found by its key. -/
theorem find?_key {index : FileIndex} {entry : FileEntry} (h : entry ∈ index.entries) :
    index.find? entry.key = some entry := by
  cases hf : index.find? entry.key with
  | none => simpa using List.find?_eq_none.1 hf entry h
  | some found =>
    obtain ⟨hmem, hkey⟩ := mem_of_find?_eq_some hf
    rw [eq_of_key_eq hmem h hkey]

/-! ## Insertion -/

/-- An insertion makes a difference to the key of the entry only. -/
theorem find?_insert (index : FileIndex) (entry : FileEntry) (key : Text) :
    (index.insert entry).find? key = if entry.key = key then some entry else index.find? key := by
  split
  · next h => rw [← h, find?_insert_self]
  · next h => exact find?_insert_of_ne index h

theorem get?_insert (index : FileIndex) (entry : FileEntry) (path : Text) :
    (index.insert entry).get? path =
      if entry.key = path.lower then some entry else index.get? path :=
  find?_insert index entry path.lower

theorem ofList_concat (entries : List FileEntry) (entry : FileEntry) :
    ofList (entries ++ [entry]) = (ofList entries).insert entry :=
  List.foldl_concat insert empty entry entries

/-- Of the entries with a key the one that was put in last is found. -/
theorem find?_ofList (entries : List FileEntry) (key : Text) :
    (ofList entries).find? key = entries.reverse.find? (·.key = key) := by
  induction entries using List.reverseRecOn with
  | nil => rfl
  | append_singleton entries entry ih =>
    rw [ofList_concat, find?_insert, ih, List.reverse_append, List.reverse_singleton,
      List.singleton_append, List.find?_cons]
    split <;> simp [*]

/-- Every entry of an index that has been built up was put into it. -/
theorem mem_of_mem_entries_ofList {entries : List FileEntry} {entry : FileEntry}
    (h : entry ∈ (ofList entries).entries) : entry ∈ entries := by
  have hfound := find?_key h
  rw [find?_ofList] at hfound
  exact List.mem_reverse.1 (List.mem_of_find?_eq_some hfound)

theorem regular_ofList {entries : List FileEntry} (h : ∀ entry ∈ entries, entry.Regular) :
    (ofList entries).Regular :=
  fun entry he => h entry (mem_of_mem_entries_ofList he)

/-- The index of the files that are reached from their root by the given paths. -/
def ofPaths (paths : List Text) : FileIndex :=
  ofList (paths.map FileEntry.ofPath)

theorem regular_ofPath_of_mem_map {paths : List Text} (h : ∀ path ∈ paths, Path.Clean path) :
    ∀ entry ∈ paths.map FileEntry.ofPath, entry.Regular := by
  intro entry he
  obtain ⟨path, hp, rfl⟩ := List.mem_map.1 he
  exact FileEntry.regular_ofPath (h path hp)

theorem regular_ofPaths {paths : List Text} (h : ∀ path ∈ paths, Path.Clean path) :
    (ofPaths paths).Regular :=
  regular_ofList (regular_ofPath_of_mem_map h)

/-! ## Paths -/

/-- A lookup does not look at the case of letters. -/
theorem get?_congr {index : FileIndex} {p q : Text} (h : p.lower = q.lower) :
    index.get? p = index.get? q := by
  rw [get?, get?, h]

variable {index : FileIndex} (hi : index.Normal)

include hi

/-- A lookup finds the entry whose path has the same lower-case form. -/
theorem get?_eq_some_iff {path : Text} {entry : FileEntry} :
    index.get? path = some entry ↔
      entry ∈ index.entries ∧ entry.actualPath.lower = path.lower := by
  constructor
  · intro h
    obtain ⟨hmem, hkey⟩ := mem_of_find?_eq_some h
    exact ⟨hmem, by rw [← (hi entry hmem).key_eq, hkey]⟩
  · rintro ⟨hmem, hlower⟩
    rw [get?, ← hlower, ← (hi entry hmem).key_eq]
    exact find?_key hmem

/-- A file is found by its own path. -/
theorem get?_actualPath {entry : FileEntry} (h : entry ∈ index.entries) :
    index.get? entry.actualPath = some entry :=
  (get?_eq_some_iff hi).2 ⟨h, rfl⟩

end FileIndex

end TrueCase

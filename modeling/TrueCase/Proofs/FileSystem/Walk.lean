import Mathlib.Data.List.Nodup
import TrueCase.FileSystem.Walk
import TrueCase.Proofs.FileSystem.Tree

/-!
# What a walk collects

The paths that a walk collects are the root with the names on the way to the files behind it. In a
well-formed tree no two of them name the same file, each has a path relative to the root, and what
is read there is the content of that file, if the path is short enough. What is collected depends on
the shape of the tree only.

## Main definitions

* `Node.WellFormed`: a tree whose directories list proper names, none of them twice.
* `Node.Apart`: two paths that do not name the same file.
* `Node.FileBelowRoot`: a file that stands below a root by some names.
* `Node.Collected`: the paths of different files below a root.

## Main statements

* `Node.collect_congr`: trees of one shape have the same source files.
* `Node.FileBelowRoot.read_eq_ok_iff`: what is read at the path of a file below a root.
* `Node.cases_of_collect`: what a walk comes to that does not fail.
* `Node.exists_collected`, `Node.exists_fileBelowRoot_of_collect`: where the collected files stand.
* `Node.pairwise_apart_of_collect`: no file is collected twice.
* `Node.relativeTo?_of_collect`: every collected file has a path relative to the root.
-/

namespace TrueCase

namespace Node

open RawPath

/-! ## Well-formed trees -/

mutual

/-- Every directory of the tree lists proper names, none of them twice, as a file system has it. -/
def WellFormed : Node → Prop
  | file _ => True
  | link _ => True
  | directory entries => (entries.map (·.1)).Nodup ∧ WellFormedEntries entries

/-- The entries have proper names and are well-formed trees. -/
def WellFormedEntries : List (Bytes × Node) → Prop
  | [] => True
  | (name, node) :: entries => IsName name ∧ node.WellFormed ∧ WellFormedEntries entries

end

theorem WellFormedEntries.of_child? {entries : List (Bytes × Node)}
    (h : WellFormedEntries entries) {name : Bytes} {node : Node}
    (hchild : (directory entries).child? name = some node) : node.WellFormed := by
  induction entries with
  | nil => cases hchild
  | cons entry entries ih =>
    obtain ⟨other, inner⟩ := entry
    obtain ⟨-, hinner, hrest⟩ := h
    by_cases ho : other = name
    · have heq : inner = node := by simpa [child?, Node.entries, ho] using hchild
      exact heq ▸ hinner
    · exact ih hrest (by simpa [child?, Node.entries, ho] using hchild)

/-- What stands somewhere in a well-formed tree is one. -/
theorem WellFormed.of_at? {top node : Node} (h : top.WellFormed) {place : Place}
    (hat : top.at? place = some node) : node.WellFormed := by
  induction place generalizing top with
  | nil =>
    cases hat
    exact h
  | cons name names ih =>
    obtain ⟨inner, hchild, hinner⟩ := Option.bind_eq_some_iff.1 hat
    obtain ⟨entries, rfl⟩ := exists_entries_of_child? hchild
    rw [WellFormed] at h
    exact ih (h.2.of_child? hchild) hinner

theorem mem_map_of_child? {entries : List (Bytes × Node)} {name : Bytes} {node : Node}
    (h : (directory entries).child? name = some node) : name ∈ entries.map (·.1) := by
  obtain ⟨entry, hfind, -⟩ := Option.map_eq_some_iff.1 h
  have hname : entry.1 = name := by simpa using List.find?_some hfind
  exact hname ▸ List.mem_map_of_mem (List.mem_of_find?_eq_some hfind)

/-- A file with the given names on the way to it stands below the directory of these entries. -/
def FileBelow (entries : List (Bytes × Node)) (names : Place) : Prop :=
  (∃ content, (directory entries).at? names = some (file content)) ∧ names ≠ [] ∧
    ∀ name ∈ names, IsName name

theorem FileBelow.cons {entries : List (Bytes × Node)} {names : Place} (h : FileBelow entries names)
    {entry : Bytes × Node} (hentry : entry.1 ∉ entries.map (·.1)) :
    FileBelow (entry :: entries) names := by
  obtain ⟨⟨content, hat⟩, hne, hnames⟩ := h
  cases names with
  | nil => exact absurd rfl hne
  | cons name names =>
    refine ⟨⟨content, ?_⟩, hne, hnames⟩
    obtain ⟨inner, hchild, hinner⟩ := Option.bind_eq_some_iff.1 hat
    have hother : entry.1 ≠ name := fun heq => hentry (heq ▸ mem_map_of_child? hchild)
    rw [at?, ← hat, at?]
    congr 1
    simp [child?, Node.entries, hother]

mutual

theorem of_mem_admitted (filter : Filter) {name : Bytes} : (node : Node) → node.WellFormed →
    {names : Place} → names ∈ node.admitted filter name → ∃ rest content, names = name :: rest ∧
      node.at? rest = some (file content) ∧ ∀ n ∈ rest, IsName n
  | file content, _, names, h => by
    rw [admitted] at h
    split at h
    · cases h
    · exact ⟨[], content, List.mem_singleton.1 h, rfl, by simp⟩
  | link _, _, names, h => by
    rw [admitted] at h
    cases h
  | directory entries, hwf, names, h => by
    rw [admitted] at h
    split at h
    · cases h
    · obtain ⟨rest, hrest, rfl⟩ := List.mem_map.1 h
      rw [WellFormed] at hwf
      obtain ⟨⟨content, hat⟩, -, hnames⟩ := of_mem_admittedEntries filter entries hwf.1 hwf.2 hrest
      exact ⟨rest, content, rfl, hat, hnames⟩

/-- What a walk admits below a directory are files that stand there. -/
theorem of_mem_admittedEntries (filter : Filter) : (entries : List (Bytes × Node)) →
    (entries.map (·.1)).Nodup → WellFormedEntries entries →
    {names : Place} → names ∈ admittedEntries filter entries → FileBelow entries names
  | [], _, _, names, h => by
    rw [admittedEntries] at h
    cases h
  | (name, node) :: entries, hnodup, hwf, names, h => by
    rw [admittedEntries] at h
    rw [WellFormedEntries] at hwf
    obtain ⟨hname, hnode, hentries⟩ := hwf
    obtain ⟨hnot, hnodup⟩ := List.nodup_cons.1 hnodup
    rcases List.mem_append.1 h with h | h
    · obtain ⟨rest, content, rfl, hat, hrest⟩ := of_mem_admitted filter node hnode h
      refine ⟨⟨content, ?_⟩, List.cons_ne_nil name rest, List.forall_mem_cons.2 ⟨hname, hrest⟩⟩
      rw [at?, ← hat]
      simp [child?, Node.entries]
    · exact (of_mem_admittedEntries filter entries hnodup hentries h).cons hnot

end

mutual

theorem nodup_admitted (filter : Filter) (name : Bytes) : (node : Node) → node.WellFormed →
    (node.admitted filter name).Nodup
  | file _, _ => by
    rw [admitted]
    split <;> simp
  | link _, _ => by simp [admitted]
  | directory entries, hwf => by
    rw [admitted]
    rw [WellFormed] at hwf
    split
    · simp
    · exact (nodup_admittedEntries filter entries hwf.1 hwf.2).map (List.cons_injective)

/-- No file is admitted twice. -/
theorem nodup_admittedEntries (filter : Filter) : (entries : List (Bytes × Node)) →
    (entries.map (·.1)).Nodup → WellFormedEntries entries → (admittedEntries filter entries).Nodup
  | [], _, _ => by simp [admittedEntries]
  | (name, node) :: entries, hnodup, hwf => by
    rw [admittedEntries]
    rw [WellFormedEntries] at hwf
    obtain ⟨hname, hnode, hentries⟩ := hwf
    obtain ⟨hnot, hnodup⟩ := List.nodup_cons.1 hnodup
    refine List.nodup_append.2 ⟨nodup_admitted filter name node hnode,
      nodup_admittedEntries filter entries hnodup hentries, ?_⟩
    -- what is admitted at the entry starts with its name, and nothing else does
    rintro names h₁ _ h₂ rfl
    obtain ⟨rest, content, rfl, -⟩ := of_mem_admitted filter node hnode h₁
    obtain ⟨⟨content', hat⟩, -⟩ := of_mem_admittedEntries filter entries hnodup hentries h₂
    obtain ⟨inner, hchild, -⟩ := Option.bind_eq_some_iff.1 hat
    exact hnot (mem_map_of_child? hchild)

end

/-! ## Walks and shapes -/

mutual

theorem admitted_shape (filter : Filter) (name : Bytes) : (node : Node) →
    node.shape.admitted filter name = node.admitted filter name
  | file _ => by simp only [shape, admitted]
  | link _ => by simp only [shape, admitted]
  | directory entries => by
    simp only [shape, admitted, admittedEntries_shapeEntries filter entries]

theorem admittedEntries_shapeEntries (filter : Filter) : (entries : List (Bytes × Node)) →
    admittedEntries filter (shapeEntries entries) = admittedEntries filter entries
  | [] => by simp only [shapeEntries]
  | (name, node) :: entries => by
    simp only [shapeEntries, admittedEntries, admitted_shape filter name node,
      admittedEntries_shapeEntries filter entries]

end

mutual

theorem entered_shape (filter : Filter) (name : Bytes) : (node : Node) →
    node.shape.entered filter name = node.entered filter name
  | file _ => by simp only [shape, entered]
  | link _ => by simp only [shape, entered]
  | directory entries => by
    simp only [shape, entered, enteredEntries_shapeEntries filter entries]

theorem enteredEntries_shapeEntries (filter : Filter) : (entries : List (Bytes × Node)) →
    enteredEntries filter (shapeEntries entries) = enteredEntries filter entries
  | [] => by simp only [shapeEntries]
  | (name, node) :: entries => by
    simp only [shapeEntries, enteredEntries, entered_shape filter name node,
      enteredEntries_shapeEntries filter entries]

end

theorem lookup_shape (top : Node) (purpose : Purpose) (path : RawPath) :
    top.shape.lookup purpose path = (top.lookup purpose path).map shape := by
  unfold lookup
  rw [locate_shape]
  cases top.locate purpose path with
  | error e => rfl
  | ok place =>
    simp only [bind, Except.bind, at?_shape]
    cases top.at? place <;> rfl

theorem sourcesBelow_shape (filter : Filter) (root : RawPath) (entries : List (Bytes × Node)) :
    sourcesBelow filter root (directory (shapeEntries entries)) =
      sourcesBelow filter root (directory entries) := by
  simp only [sourcesBelow, Node.entries, enteredEntries_shapeEntries, admittedEntries_shapeEntries]

theorem sourcesAt_shape (filter : Filter) (root : RawPath) (found : Node)
    (target : Except WalkError Node) :
    sourcesAt filter root found.shape (target.map shape) = sourcesAt filter root found target := by
  cases found with
  | file content => rfl
  | directory entries => exact sourcesBelow_shape filter root entries
  | link _ =>
    cases target with
    | error e => rfl
    | ok node =>
      cases node with
      | file content => rfl
      | link target => rfl
      | directory entries => exact sourcesBelow_shape filter root entries

theorem collect_eq (top : Node) (filter : Filter) (root : RawPath) : top.collect filter root =
    match top.lookup .itself root with
    | .error cause => .error ⟨root, cause⟩
    | .ok found =>
      sourcesAt filter root found
        ((top.lookup .target root).mapError fun cause => ⟨root, cause⟩) := by
  unfold collect
  dsimp only
  cases top.lookup .itself root <;> rfl

theorem collect_shape (top : Node) (filter : Filter) (root : RawPath) :
    top.shape.collect filter root = top.collect filter root := by
  rw [collect_eq, collect_eq, lookup_shape, lookup_shape]
  cases top.lookup .itself root with
  | error e => rfl
  | ok found =>
    refine Eq.trans ?_ (sourcesAt_shape filter root found _)
    cases top.lookup .target root <;> rfl

/-- Trees of one shape have the same source files. -/
theorem collect_congr {top top' : Node} (h : top.shape = top'.shape) (filter : Filter)
    (root : RawPath) : top.collect filter root = top'.collect filter root := by
  rw [← collect_shape, h, collect_shape]

/-! ## The collected paths -/

/-- No file stands at a place to which both paths lead. -/
def Apart (top : Node) (p q : RawPath) : Prop :=
  ∀ place, top.shape.at? place = some (file []) →
    ¬(top.locate .target p = .ok place ∧ top.locate .target q = .ok place)

theorem Apart.symm {top : Node} {p q : RawPath} (h : top.Apart p q) : top.Apart q p :=
  fun place hfile hboth => h place hfile hboth.symm

theorem apart_congr {top top' : Node} (h : top.shape = top'.shape) {p q : RawPath} :
    top.Apart p q ↔ top'.Apart p q := by
  simp only [Apart, h, locate_congr h]

theorem at?_shape_eq_file_iff {top : Node} {place : Place} :
    top.shape.at? place = some (file []) ↔ ∃ content, top.at? place = some (file content) := by
  rw [at?_shape]
  cases top.at? place with
  | none => simp
  | some node => cases node <;> simp [shape]

section

variable {top : Node} {filter : Filter} {root : RawPath} {paths : List RawPath}

theorem lookup_eq_ok_iff {purpose : Purpose} {path : RawPath} {node : Node} :
    top.lookup purpose path = .ok node ↔
      ∃ place, top.locate purpose path = .ok place ∧ top.at? place = some node := by
  unfold lookup
  cases top.locate purpose path with
  | error e => simp [bind, Except.bind]
  | ok place =>
    simp only [bind, Except.bind, Except.ok.injEq, exists_eq_left']
    cases top.at? place <;> simp

/-- What is found at a path, and is no link, is where the path leads if links are followed. -/
theorem locate_target {purpose : Purpose} {path : RawPath} {place : Place} {node : Node}
    (h : top.locate purpose path = .ok place) (hat : top.at? place = some node)
    (hlink : ∀ target, node ≠ link target) : top.locate .target path = .ok place := by
  obtain ⟨husable, hne, hfollow⟩ := locate_eq_ok_iff.1 h
  exact locate_eq_ok_iff.2 ⟨husable, hne, follow_target hfollow hat hlink⟩

/-! ### Files below a root -/

/-- A regular file with this content stands below the root by the given names. Without names, the
root itself is the file. -/
structure FileBelowRoot (top : Node) (root : RawPath) (names : Place) (content : Bytes) :
    Prop where
  isName : ∀ name ∈ names, IsName name
  isFile : ∃ here, top.locate .target root = .ok here ∧
    top.at? (here ++ names) = some (file content)

section

variable {here names : Place} {content : Bytes}

section

variable (hnames : ∀ name ∈ names, IsName name) (hroot : top.locate .target root = .ok here)
  (hfile : top.at? (here ++ names) = some (file content))

include hnames hroot hfile

/-- The names that are followed for the path of a file below a root lead to the file. -/
theorem follow_steps_pathBelow :
    top.follow .target (maxLinks + 1) [] (steps (pathBelow root names)) = .ok (here ++ names) := by
  obtain ⟨-, -, hfollow⟩ := locate_eq_ok_iff.1 hroot
  by_cases hne : names = []
  · subst hne
    rw [List.append_nil]
    exact hfollow
  rw [at?_append] at hfile
  obtain ⟨node, hat, hbelow⟩ := Option.bind_eq_some_iff.1 hfile
  rw [steps_pathBelow root hne hnames]
  obtain ⟨e, herror⟩ | ⟨left, there, hmore⟩ :=
    follow_append top (maxLinks + 1) [] ((root.splitOn slash).filter (· ≠ noName))
  · cases (herror _).symm.trans hfollow
  · -- a slash behind the root changes nothing
    have hthere : there = here := by
      have hslash := (hmore _).symm.trans hfollow
      split at hslash
      · exact (follow_noName hslash).1.symm
      · exact Except.ok.inj hslash
    rw [hmore, hthere, follow_eq_append hat hbelow hnames]

/-- A file below a root is found by its path, if the system takes that. -/
theorem locate_pathBelow_eq_ok_iff {place : Place} :
    top.locate .target (pathBelow root names) = .ok place ↔
      Usable (pathBelow root names) ∧ place = here ++ names := by
  have hne : pathBelow root names ≠ [] :=
    pathBelow_ne_nil (locate_eq_ok_iff.1 hroot).2.1 names
  rw [locate_eq_ok_iff, follow_steps_pathBelow hnames hroot hfile, Except.ok.injEq, eq_comm]
  exact ⟨fun h => ⟨h.1, h.2.2⟩, fun h => ⟨h.1, hne, h.2⟩⟩

end

section

variable (h : top.FileBelowRoot root names content)

include h

theorem FileBelowRoot.eq_append (hroot : top.locate .target root = .ok here) {place : Place}
    (hplace : top.locate .target (pathBelow root names) = .ok place) : place = here ++ names := by
  obtain ⟨hnames, here', hroot', hfile⟩ := h
  cases hroot.symm.trans hroot'
  exact ((locate_pathBelow_eq_ok_iff hnames hroot hfile).1 hplace).2

/-- What is read at the path of a file below a root is the content of the file, if the system takes
the path. -/
theorem FileBelowRoot.read_eq_ok_iff {bytes : Bytes} :
    top.read (pathBelow root names) = .ok bytes ↔
      Usable (pathBelow root names) ∧ bytes = content := by
  obtain ⟨hnames, here, hroot, hfile⟩ := h
  simp only [Node.read_eq_ok_iff, locate_pathBelow_eq_ok_iff hnames hroot hfile]
  constructor
  · rintro ⟨place, ⟨husable, rfl⟩, hat⟩
    cases hat.symm.trans hfile
    exact ⟨husable, rfl⟩
  · rintro ⟨husable, rfl⟩
    exact ⟨_, ⟨husable, rfl⟩, hfile⟩

end

end

/-! ### Files that are collected -/

/-- Of a walk: the paths are those of different files below the root. -/
structure Collected (top : Node) (root : RawPath) (places : List Place) (paths : List RawPath) :
    Prop where
  paths_eq : paths = places.map (pathBelow root)
  nodup : places.Nodup
  isBelow : ∀ names ∈ places, ∃ content, top.FileBelowRoot root names content

theorem exists_names_of_sourcesBelow {entries : List (Bytes × Node)}
    (h : sourcesBelow filter root (directory entries) = .ok paths) :
    ∀ path ∈ paths, ∃ names ∈ admittedEntries filter entries, path = pathBelow root names := by
  unfold sourcesBelow at h
  split at h
  · cases h
  · cases h
    intro path hpath
    obtain ⟨names, hnames, rfl⟩ := List.mem_map.1 (List.mem_filter.1 hpath).1
    exact ⟨names, hnames, rfl⟩

theorem collected_of_sourcesBelow (hwf : top.WellFormed) {here : Place}
    {entries : List (Bytes × Node)} (hat : top.at? here = some (directory entries))
    (hroot : top.locate .target root = .ok here)
    (h : sourcesBelow filter root (directory entries) = .ok paths) :
    ∃ places, Collected top root places paths := by
  have hdir := hwf.of_at? hat
  rw [WellFormed] at hdir
  unfold sourcesBelow at h
  split at h
  · cases h
  cases h
  refine ⟨(admittedEntries filter entries).filter (isSourceFile ∘ pathBelow root), ?_, ?_, ?_⟩
  · rw [Node.entries, List.filter_map]
  · exact (nodup_admittedEntries filter entries hdir.1 hdir.2).filter _
  · intro names hnames
    obtain ⟨⟨content, hbelow⟩, -, hname⟩ :=
      of_mem_admittedEntries filter entries hdir.1 hdir.2 (List.mem_filter.1 hnames).1
    exact ⟨content, hname, here, hroot, by rw [at?_append, hat, Option.bind_some, hbelow]⟩

/-- What a walk comes to that does not fail. The root is a file, or leads to a directory, or is a link
to something else, of which nothing is collected. -/
theorem cases_of_collect (h : top.collect filter root = .ok paths) : root ≠ [] ∧
    ((∃ here content, top.locate .itself root = .ok here ∧ top.at? here = some (file content) ∧
        paths = if isSourceFile root then [root] else []) ∨
      (∃ purpose here entries, top.locate purpose root = .ok here ∧
        top.at? here = some (directory entries) ∧
        sourcesBelow filter root (directory entries) = .ok paths) ∨
      paths = []) := by
  rw [collect_eq] at h
  cases hitself : top.lookup .itself root with
  | error e => simp [hitself] at h
  | ok found =>
    simp only [hitself] at h
    obtain ⟨here, hloc, hat⟩ := lookup_eq_ok_iff.1 hitself
    refine ⟨(locate_eq_ok_iff.1 hloc).2.1, ?_⟩
    cases found with
    | file content =>
      cases h
      exact Or.inl ⟨here, content, hloc, hat, rfl⟩
    | directory entries => exact Or.inr (Or.inl ⟨.itself, here, entries, hloc, hat, h⟩)
    | link _ =>
      cases htarget : top.lookup .target root with
      | error e => simp [htarget, sourcesAt, Except.mapError, bind, Except.bind] at h
      | ok node =>
        obtain ⟨there, hloc', hat'⟩ := lookup_eq_ok_iff.1 htarget
        simp only [htarget, sourcesAt, Except.mapError, bind, Except.bind] at h
        cases node with
        | directory entries => exact Or.inr (Or.inl ⟨.target, there, entries, hloc', hat', h⟩)
        | file content =>
          cases h
          exact Or.inr (Or.inr rfl)
        | link target =>
          cases h
          exact Or.inr (Or.inr rfl)

/-- The collected paths are the root with the names of the places on the way to the files below it.
A root that is a file is collected with no names on the way. -/
theorem exists_collected (hwf : top.WellFormed) (h : top.collect filter root = .ok paths) :
    root ≠ [] ∧ ∃ places, Collected top root places paths := by
  obtain ⟨hroot, ⟨here, content, hloc, hat, rfl⟩ | ⟨purpose, here, entries, hloc, hat, hbelow⟩ |
    rfl⟩ := cases_of_collect h
  · refine ⟨hroot, if isSourceFile root then [[]] else [], ?_, ?_, ?_⟩
    · split <;> rfl
    · split <;> simp
    · intro names hnames
      obtain rfl : names = [] := by
        split at hnames
        · exact List.mem_singleton.1 hnames
        · cases hnames
      exact ⟨content, by simp, here, locate_target hloc hat (by simp), by rwa [List.append_nil]⟩
  · exact ⟨hroot, collected_of_sourcesBelow hwf hat (locate_target hloc hat (by simp)) hbelow⟩
  · exact ⟨hroot, [], rfl, by simp, by simp⟩

/-- No file is collected twice. -/
theorem pairwise_apart_of_collect (hwf : top.WellFormed)
    (h : top.collect filter root = .ok paths) : paths.Pairwise top.Apart := by
  obtain ⟨-, places, hcollected⟩ := exists_collected hwf h
  rw [hcollected.paths_eq, List.pairwise_map]
  refine hcollected.nodup.imp_of_mem fun {p q} hp hq hne place _ ⟨hlocp, hlocq⟩ => hne ?_
  obtain ⟨_, hbelow⟩ := hcollected.isBelow p hp
  obtain ⟨_, hbelow'⟩ := hcollected.isBelow q hq
  obtain ⟨here, hroot, -⟩ := hbelow.isFile
  exact List.append_cancel_left
    ((hbelow.eq_append hroot hlocp).symm.trans (hbelow'.eq_append hroot hlocq))

/-- The collected paths are those of regular files below the root, or of the root itself. -/
theorem exists_fileBelowRoot_of_collect (hwf : top.WellFormed)
    (h : top.collect filter root = .ok paths) :
    ∀ path ∈ paths, ∃ names content, path = pathBelow root names ∧
      top.FileBelowRoot root names content := by
  obtain ⟨-, places, hcollected⟩ := exists_collected hwf h
  rw [hcollected.paths_eq]
  intro path hpath
  obtain ⟨names, hnames, rfl⟩ := List.mem_map.1 hpath
  obtain ⟨content, hbelow⟩ := hcollected.isBelow names hnames
  exact ⟨names, content, rfl, hbelow⟩

/-- Every collected path has a path in normal form relative to the root. -/
theorem relativeTo?_of_collect (hwf : top.WellFormed) (h : top.collect filter root = .ok paths) :
    ∀ path ∈ paths, ∃ name, relativeTo? root path = some name ∧ Path.Normal name := by
  intro path hpath
  obtain ⟨names, content, rfl, hbelow⟩ := exists_fileBelowRoot_of_collect hwf h path hpath
  exact ⟨_, relativeTo?_pathBelow (cases_of_collect h).1 hbelow.isName,
    normal_ofSegments_lossy hbelow.isName⟩

theorem exists_relativeTo?_of_collect (hwf : top.WellFormed)
    (h : top.collect filter root = .ok paths) :
    ∀ path ∈ paths, ∃ name, relativeTo? root path = some name :=
  fun path hpath => (relativeTo?_of_collect hwf h path hpath).imp fun _ hname => hname.1

/-! ## Trees of any kind -/

/-- Whatever the names in the tree are, a collected path has a path relative to the root. -/
theorem exists_relativeTo?_of_mem_collect (h : top.collect filter root = .ok paths) :
    ∀ path ∈ paths, ∃ name, relativeTo? root path = some name := by
  intro path hpath
  suffices hbelow : ∃ names, path = pathBelow root names by
    obtain ⟨names, rfl⟩ := hbelow
    exact exists_relativeTo?_pathBelow (cases_of_collect h).1 names
  obtain ⟨-, ⟨here, content, -, -, rfl⟩ | ⟨purpose, here, entries, -, -, hbelow⟩ | rfl⟩ :=
    cases_of_collect h
  · split at hpath
    · exact ⟨[], List.mem_singleton.1 hpath⟩
    · cases hpath
  · obtain ⟨names, -, hnames⟩ := exists_names_of_sourcesBelow hbelow path hpath
    exact ⟨names, hnames⟩
  · cases hpath

end

end Node

end TrueCase

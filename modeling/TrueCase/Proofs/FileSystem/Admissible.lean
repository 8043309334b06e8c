import Mathlib.Data.List.Nodup
import Mathlib.Tactic.Tauto
import TrueCase.Proofs.FileSystem.SourceName
import TrueCase.Proofs.FileSystem.Walk

/-!
# Admissible files

What a walk collects can be said of each file by itself, from the names on the way to it: the filter
lets all of them pass, and none of the directories has a name that is always left out. The walk
comes to nothing if a directory that it enters has a path that is too long.

## Main definitions

* `Filter.Passes`, `Opens`: what may be said against a name.
* `Node.Admissible`: the source files below a directory that a walk is to collect.
* `Node.Enterable`: the directories below a directory that a walk is to enter.
* `Node.dotted`: paths of a directory that are as long as may be.

## Main statements

* `Node.mem_admittedEntries_iff`, `Node.mem_enteredEntries_iff`: what a walk visits.
* `Node.collect_eq_sourcesBelow`: a root that leads to a directory is walked from there.
* `Node.collect_iff_admissible`: a walk collects each admissible file once, and nothing else.
* `Node.lookup_dotted`: a long path by which a directory is found.
-/

namespace TrueCase

/-! ## Names -/

/-- No pattern of the filter stands for the name. A name that is not text has nothing to fear. -/
def Filter.Passes (filter : Filter) (name : Bytes) : Prop :=
  ∀ text, Utf8.decode? name = some text →
    ∀ glob ∈ filter.patterns, ¬ Glob.Matches glob.tokens text

/-- The name is not that of a directory that is always left out. -/
def Opens (name : Bytes) : Prop :=
  ∀ text, Utf8.decode? name = some text → text ∉ Filter.excludedDirectories

theorem prunes_eq_false_iff {filter : Filter} {name : Bytes} {isDirectory : Bool} :
    filter.prunes name isDirectory = false ↔
      (isDirectory = true → Opens name) ∧ filter.Passes name := by
  unfold Filter.prunes Opens Filter.Passes
  cases Utf8.decode? name with
  | none => simp
  | some text =>
    simp only [Bool.or_eq_false_iff, Bool.and_eq_false_imp, decide_eq_false_iff_not,
      List.any_eq_false, Glob.matchesText, Glob.matchesTokens_eq_true_iff, Option.some.injEq,
      forall_eq']

namespace Node

open RawPath

/-! ## Entries -/

/-- In a directory that lists no name twice each entry is found by its name. -/
theorem child?_eq_some_iff {entries : List (Bytes × Node)} (hnodup : (entries.map (·.1)).Nodup)
    {name : Bytes} {node : Node} :
    (directory entries).child? name = some node ↔ (name, node) ∈ entries := by
  constructor
  · intro h
    obtain ⟨entry, hfind, rfl⟩ := Option.map_eq_some_iff.1 h
    obtain rfl : entry.1 = name := by simpa using List.find?_some hfind
    exact List.mem_of_find?_eq_some hfind
  · intro hmem
    cases hfind : entries.find? (·.1 = name) with
    | none => simpa using List.find?_eq_none.1 hfind _ hmem
    | some entry =>
      have hname : entry.1 = name := by simpa using List.find?_some hfind
      have hsame : entry = (name, node) :=
        List.inj_on_of_nodup_map hnodup (List.mem_of_find?_eq_some hfind) hmem hname
      rw [child?, Node.entries, hfind, hsame]
      rfl

/-- What the entries of a directory contribute under a name comes from the entry of that name, if
all that an entry contributes starts with its name. -/
theorem mem_flatMap_entries_iff {entries : List (Bytes × Node)}
    (hnodup : (entries.map (·.1)).Nodup) {visit : Bytes → Node → List Place}
    (hvisit : ∀ name node names, names ∈ visit name node → names.head? = some name)
    {name : Bytes} {rest : Place} :
    name :: rest ∈ entries.flatMap (fun entry => visit entry.1 entry.2) ↔
      ∃ node, (directory entries).child? name = some node ∧ name :: rest ∈ visit name node := by
  simp only [List.mem_flatMap, child?_eq_some_iff hnodup]
  constructor
  · rintro ⟨⟨other, node⟩, hentry, hmem⟩
    obtain rfl : name = other := Option.some.inj (hvisit other node _ hmem)
    exact ⟨node, hentry, hmem⟩
  · rintro ⟨node, hentry, hmem⟩
    exact ⟨(name, node), hentry, hmem⟩

theorem admittedEntries_eq_flatMap (filter : Filter) (entries : List (Bytes × Node)) :
    admittedEntries filter entries =
      entries.flatMap fun entry => entry.2.admitted filter entry.1 := by
  induction entries with
  | nil => rw [admittedEntries, List.flatMap_nil]
  | cons entry entries ih => rw [admittedEntries, ih, List.flatMap_cons]

theorem enteredEntries_eq_flatMap (filter : Filter) (entries : List (Bytes × Node)) :
    enteredEntries filter entries =
      entries.flatMap fun entry => entry.2.entered filter entry.1 := by
  induction entries with
  | nil => rw [enteredEntries, List.flatMap_nil]
  | cons entry entries ih => rw [enteredEntries, ih, List.flatMap_cons]

theorem head?_of_mem_admitted (filter : Filter) (name : Bytes) (node : Node) (names : Place)
    (h : names ∈ node.admitted filter name) : names.head? = some name := by
  cases node with
  | link target => simp [admitted] at h
  | file content =>
    rw [admitted] at h
    split at h
    · cases h
    · rw [List.mem_singleton.1 h, List.head?_cons]
  | directory entries =>
    rw [admitted] at h
    split at h
    · cases h
    · obtain ⟨rest, -, rfl⟩ := List.mem_map.1 h
      rfl

theorem head?_of_mem_entered (filter : Filter) (name : Bytes) (node : Node) (names : Place)
    (h : names ∈ node.entered filter name) : names.head? = some name := by
  cases node with
  | link target => simp [entered] at h
  | file content => simp [entered] at h
  | directory entries =>
    rw [entered] at h
    split at h
    · cases h
    · rcases List.mem_cons.1 h with rfl | h
      · rfl
      · obtain ⟨rest, -, rfl⟩ := List.mem_map.1 h
        rfl

theorem WellFormedEntries.isName_of_child? {entries : List (Bytes × Node)}
    (h : WellFormedEntries entries) {name : Bytes} {node : Node}
    (hchild : (directory entries).child? name = some node) : IsName name := by
  induction entries with
  | nil => cases hchild
  | cons entry entries ih =>
    obtain ⟨other, inner⟩ := entry
    obtain ⟨hother, -, hrest⟩ := h
    by_cases ho : other = name
    · exact ho ▸ hother
    · exact ih hrest (by simpa [child?, Node.entries, ho] using hchild)

/-- The names on the way to a node of a well-formed tree are proper names. -/
theorem WellFormed.isName_of_at? {node found : Node} (h : node.WellFormed) {names : Place}
    (hat : node.at? names = some found) : ∀ name ∈ names, IsName name := by
  induction names generalizing node with
  | nil => simp
  | cons name names ih =>
    obtain ⟨inner, hchild, hinner⟩ := Option.bind_eq_some_iff.1 hat
    obtain ⟨entries, rfl⟩ := exists_entries_of_child? hchild
    rw [WellFormed] at h
    exact List.forall_mem_cons.2 ⟨h.2.isName_of_child? hchild, ih (h.2.of_child? hchild) hinner⟩

/-! ## What a walk visits -/

/-- A file that a walk from the directory `node` is to collect, by the names on the way to it. -/
structure Admissible (filter : Filter) (node : Node) (names : Place) : Prop where
  /-- It is a regular file, and only directories are on the way to it. -/
  isFile : ∃ content, node.at? names = some (file content)
  /-- Its name has a recognised extension. -/
  isSource : ∃ name, names.getLast? = some name ∧ IsSourceName name
  /-- None of the directories is one that is always left out. -/
  opens : ∀ name ∈ names.dropLast, Opens name
  /-- No pattern stands for the name of the file or of one of the directories. -/
  passes : ∀ name ∈ names, filter.Passes name

/-- A directory that a walk from the directory `node` is to enter, by the names on the way to it. -/
structure Enterable (filter : Filter) (node : Node) (names : Place) : Prop where
  isDirectory : ∃ entries, node.at? names = some (directory entries)
  isBelow : names ≠ []
  opens : ∀ name ∈ names, Opens name
  passes : ∀ name ∈ names, filter.Passes name

theorem at?_file_eq_some_iff {content : Bytes} {names : Place} {node : Node} :
    (file content).at? names = some node ↔ names = [] ∧ node = file content := by
  cases names with
  | nil => simp [at?, eq_comm]
  | cons name names => simp [at?, child?, Node.entries]

theorem at?_link_eq_some_iff {target : RawPath} {names : Place} {node : Node} :
    (link target).at? names = some node ↔ names = [] ∧ node = link target := by
  cases names with
  | nil => simp [at?, eq_comm]
  | cons name names => simp [at?, child?, Node.entries]

/-- A walk admits the files that are reached by names which the filter does not leave out. -/
theorem mem_admittedEntries_iff (filter : Filter) {entries : List (Bytes × Node)}
    (hwf : (directory entries).WellFormed) {names : Place} :
    names ∈ admittedEntries filter entries ↔
      (∃ content, (directory entries).at? names = some (file content)) ∧
        (∀ name ∈ names.dropLast, Opens name) ∧ ∀ name ∈ names, filter.Passes name := by
  induction names generalizing entries with
  | nil =>
    constructor
    · intro h
      rw [admittedEntries_eq_flatMap] at h
      obtain ⟨entry, -, hmem⟩ := List.mem_flatMap.1 h
      cases head?_of_mem_admitted filter _ _ _ hmem
    · rintro ⟨⟨content, hat⟩, -⟩
      cases hat
  | cons name rest ih =>
    rw [WellFormed] at hwf
    rw [admittedEntries_eq_flatMap,
      mem_flatMap_entries_iff hwf.1 (head?_of_mem_admitted filter), at?]
    cases hchild : (directory entries).child? name with
    | none => simp
    | some node =>
      simp only [Option.some.injEq, exists_eq_left', Option.bind_some]
      cases node with
      | link target =>
        rw [admitted]
        simp [at?_link_eq_some_iff]
      | file content =>
        have hmem : name :: rest ∈ (file content).admitted filter name ↔
            filter.prunes name false = false ∧ rest = [] := by
          rw [admitted]
          split <;> simp [*]
        rw [hmem, prunes_eq_false_iff]
        simp only [at?_file_eq_some_iff, file.injEq]
        constructor
        · rintro ⟨hpass, rfl⟩
          exact ⟨⟨content, rfl, rfl⟩, by simp, by simpa using hpass⟩
        · rintro ⟨⟨-, rfl, -⟩, -, hpass⟩
          exact ⟨by simpa using hpass, rfl⟩
      | directory inner =>
        have hmem : name :: rest ∈ (directory inner).admitted filter name ↔
            filter.prunes name true = false ∧ rest ∈ admittedEntries filter inner := by
          rw [admitted]
          split <;> simp [*]
        rw [hmem, prunes_eq_false_iff, ih (hwf.2.of_child? hchild)]
        by_cases hrest : rest = []
        · subst hrest
          simp [at?]
        · rw [List.dropLast_cons_of_ne_nil hrest, List.forall_mem_cons, List.forall_mem_cons]
          tauto

/-- A walk enters the directories that are reached by names which the filter does not leave out. -/
theorem mem_enteredEntries_iff (filter : Filter) {entries : List (Bytes × Node)}
    (hwf : (directory entries).WellFormed) {names : Place} :
    names ∈ enteredEntries filter entries ↔ Enterable filter (directory entries) names := by
  induction names generalizing entries with
  | nil =>
    constructor
    · intro h
      rw [enteredEntries_eq_flatMap] at h
      obtain ⟨entry, -, hmem⟩ := List.mem_flatMap.1 h
      cases head?_of_mem_entered filter _ _ _ hmem
    · intro h
      exact absurd rfl h.isBelow
  | cons name rest ih =>
    rw [WellFormed] at hwf
    rw [enteredEntries_eq_flatMap, mem_flatMap_entries_iff hwf.1 (head?_of_mem_entered filter)]
    cases hchild : (directory entries).child? name with
    | none =>
      constructor
      · simp
      · rintro ⟨⟨inner, hat⟩, -⟩
        rw [at?, hchild] at hat
        cases hat
    | some node =>
      have hat : (directory entries).at? (name :: rest) = node.at? rest := by
        rw [at?, hchild, Option.bind_some]
      simp only [Option.some.injEq, exists_eq_left']
      cases node with
      | link target =>
        constructor
        · simp [entered]
        · rintro ⟨⟨inner, hdir⟩, -⟩
          cases (at?_link_eq_some_iff.1 (hat.symm.trans hdir)).2
      | file content =>
        constructor
        · simp [entered]
        · rintro ⟨⟨inner, hdir⟩, -⟩
          cases (at?_file_eq_some_iff.1 (hat.symm.trans hdir)).2
      | directory inner =>
        have hmem : name :: rest ∈ (directory inner).entered filter name ↔
            filter.prunes name true = false ∧
              (rest = [] ∨ rest ∈ enteredEntries filter inner) := by
          rw [entered]
          split <;> simp [*]
        rw [hmem, prunes_eq_false_iff, ih (hwf.2.of_child? hchild)]
        constructor
        · rintro ⟨⟨hopens, hpass⟩, rfl | h⟩
          · exact ⟨⟨inner, hat⟩, by simp, by simpa using hopens, by simpa using hpass⟩
          · obtain ⟨deeper, hdeeper⟩ := h.isDirectory
            exact ⟨⟨deeper, hat.trans hdeeper⟩, by simp,
              List.forall_mem_cons.2 ⟨hopens rfl, h.opens⟩,
              List.forall_mem_cons.2 ⟨hpass, h.passes⟩⟩
        · rintro ⟨⟨deeper, hdir⟩, -, hopens, hpass⟩
          rw [List.forall_mem_cons] at hopens hpass
          refine ⟨⟨fun _ => hopens.1, hpass.1⟩, ?_⟩
          by_cases hrest : rest = []
          · exact .inl hrest
          · exact .inr ⟨⟨deeper, hat.symm.trans hdir⟩, hrest, hopens.2, hpass.2⟩

/-! ## Paths with dots -/

/-- A path of the directory `name`, with dots behind. -/
def dotted (name : Bytes) : Nat → RawPath
  | 0 => name
  | n + 1 => dotted name n ++ [slash, stop]

theorem length_dotted (name : Bytes) (n : Nat) : (dotted name n).length = name.length + 2 * n := by
  induction n with
  | zero => rfl
  | succ n ih =>
    rw [dotted, List.length_append, ih, List.length_cons, List.length_singleton]
    omega

theorem zero_not_mem_dotted {name : Bytes} (h : 0 ∉ name) (n : Nat) : 0 ∉ dotted name n := by
  induction n with
  | zero => exact h
  | succ n ih =>
    rw [dotted, List.mem_append]
    exact not_or.2 ⟨ih, by decide⟩

section

variable {top : Node} {name : Bytes} {entries : List (Bytes × Node)}

theorem getLast?_dotted (h : IsName name) (n : Nat) :
    (dotted name n).getLast? ≠ some slash := by
  cases n with
  | zero => exact fun hlast => h.2.2.2 (List.mem_of_getLast? hlast)
  | succ n =>
    rw [dotted, List.getLast?_append]
    exact fun hlast => absurd (Option.some.inj hlast) (by decide)

theorem dotted_ne_nil (h : IsName name) (n : Nat) : dotted name n ≠ [] := by
  cases n with
  | zero => exact h.1
  | succ n => simp [dotted]

theorem length_child_dotted (h : IsName name) (n : Nat) (inner : Bytes) :
    (child (dotted name n) inner).length = name.length + 2 * n + 1 + inner.length := by
  rw [child, if_neg (not_or.2 ⟨dotted_ne_nil h n, getLast?_dotted h n⟩), List.length_append,
    length_dotted, List.length_cons]
  omega

/-- The names that are followed are the name of the directory and the dots. -/
theorem steps_dotted (h : IsName name) (n : Nat) :
    steps (dotted name n) = name :: List.replicate n currentDir := by
  rw [steps, if_neg (getLast?_dotted h n), List.append_nil]
  induction n with
  | zero =>
    rw [dotted, List.splitOn_eq_singleton h.2.2.2]
    simp [h.1]
  | succ n ih =>
    rw [dotted, List.splitOn_append_cons_self, List.filter_append, ih, List.replicate_succ']
    rfl

theorem follow_replicate_currentDir (purpose : Purpose) (rounds : Nat) {here : Place}
    (hat : top.at? here = some (directory entries)) (n : Nat) :
    top.follow purpose (rounds + 1) here (List.replicate n currentDir) = .ok here := by
  induction n with
  | zero => rw [List.replicate_zero, follow_nil]
  | succ n ih => rw [List.replicate_succ, follow_stay hat (.inr rfl), ih]

/-- A directory at the top is found by its name with dots behind, unless these are so many that no
path is that long. -/
theorem lookup_dotted (h : IsName name) (hnul : 0 ∉ name)
    (hchild : top.child? name = some (directory entries)) {n : Nat}
    (hn : name.length + 2 * n < maxPathLength) :
    top.lookup .target (dotted name n) = .ok (directory entries) := by
  obtain ⟨topEntries, rfl⟩ := exists_entries_of_child? hchild
  have hat : (directory topEntries).at? [name] = some (directory entries) := by
    rw [at?, hchild, Option.bind_some, at?]
  refine lookup_eq_ok_iff.2 ⟨[name],
    locate_eq_ok_iff.2 ⟨⟨zero_not_mem_dotted hnul n, ?_⟩, dotted_ne_nil h n, ?_⟩, hat⟩
  · rwa [length_dotted]
  · rw [steps_dotted h, follow_down rfl (not_or.2 ⟨h.1, h.2.1⟩) h.2.2.1 (by simp) hchild (by simp)]
    exact follow_replicate_currentDir .target maxLinks hat n

end

/-! ## The root -/

section

variable {top : Node} {root : RawPath} {entries : List (Bytes × Node)}

/-- A root that is a directory, or a link that leads to one, is walked from that directory. -/
theorem collect_eq_sourcesBelow (filter : Filter)
    (h : top.lookup .target root = .ok (directory entries)) :
    top.collect filter root = sourcesBelow filter root (directory entries) := by
  obtain ⟨there, hloc, hat⟩ := lookup_eq_ok_iff.1 h
  obtain ⟨husable, hne, hfollow⟩ := locate_eq_ok_iff.1 hloc
  rw [collect_eq, h]
  rcases follow_of_target .itself hfollow (by simp) with hself | ⟨-, place, target, hself, hlink⟩
  · have hitself : top.lookup .itself root = .ok (directory entries) :=
      lookup_eq_ok_iff.2 ⟨there, locate_eq_ok_iff.2 ⟨husable, hne, hself⟩, hat⟩
    rw [hitself]
    rfl
  · have hitself : top.lookup .itself root = .ok (link target) :=
      lookup_eq_ok_iff.2 ⟨place, locate_eq_ok_iff.2 ⟨husable, hne, hself⟩, hlink⟩
    rw [hitself]
    rfl

theorem pathBelow_concat (root : RawPath) (names : Place) (name : Bytes) :
    pathBelow root (names ++ [name]) = child (pathBelow root names) name :=
  List.foldl_concat child root name names

/-- Different places have different paths. -/
theorem eq_of_pathBelow_eq (hroot : root ≠ []) {names names' : Place}
    (h : ∀ name ∈ names, IsName name) (h' : ∀ name ∈ names', IsName name)
    (heq : pathBelow root names = pathBelow root names') : names = names' := by
  have hcomponents := congrArg components heq
  rw [components_pathBelow hroot h, components_pathBelow hroot h'] at hcomponents
  exact List.append_cancel_left hcomponents

/-- The path of a file below the root is that of a source file by the name of the file. -/
theorem isSourceFile_pathBelow_iff (hroot : root ≠ []) {names : Place} (hne : names ≠ [])
    (h : ∀ name ∈ names, IsName name) :
    isSourceFile (pathBelow root names) = true ↔
      ∃ name, names.getLast? = some name ∧ IsSourceName name := by
  obtain ⟨front, name, rfl⟩ := (List.eq_nil_or_concat' names).resolve_left hne
  rw [pathBelow_concat, isSourceFile_child (pathBelow_ne_nil hroot front) (h name (by simp))]
  simp

/-- The admissible files are those that a walk admits and whose path is that of a source file. -/
theorem admissible_iff (hroot : root ≠ []) (filter : Filter)
    (hwf : (directory entries).WellFormed) {names : Place} :
    names ∈ admittedEntries filter entries ∧ isSourceFile (pathBelow root names) = true ↔
      Admissible filter (directory entries) names := by
  have hsource {content : Bytes} (hat : (directory entries).at? names = some (file content)) :
      isSourceFile (pathBelow root names) = true ↔
        ∃ name, names.getLast? = some name ∧ IsSourceName name := by
    refine isSourceFile_pathBelow_iff hroot ?_ (hwf.isName_of_at? hat)
    rintro rfl
    cases hat
  rw [mem_admittedEntries_iff filter hwf]
  constructor
  · rintro ⟨⟨⟨content, hat⟩, hopens, hpasses⟩, h⟩
    exact ⟨⟨content, hat⟩, (hsource hat).1 h, hopens, hpasses⟩
  · rintro ⟨⟨content, hat⟩, h, hopens, hpasses⟩
    exact ⟨⟨⟨content, hat⟩, hopens, hpasses⟩, (hsource hat).2 h⟩

/-- A walk from a directory, in which `root` is the path of that directory, or of a link that leads
to it. Either the walk enters a directory whose path is too long, and fails; or there is none, and
it collects the paths of the admissible files, each of them once. -/
theorem collect_iff_admissible (hwf : top.WellFormed) (filter : Filter)
    (hroot : top.lookup .target root = .ok (directory entries)) :
    (∃ names, Enterable filter (directory entries) names ∧
        maxPathLength ≤ (pathBelow root names).length ∧
        top.collect filter root = .error ⟨pathBelow root names, .nameTooLong⟩) ∨
      (∀ names, Enterable filter (directory entries) names →
        (pathBelow root names).length < maxPathLength) ∧
      ∃ places : List Place, top.collect filter root = .ok (places.map (pathBelow root)) ∧
        (places.map (pathBelow root)).Nodup ∧
        ∀ names, names ∈ places ↔ Admissible filter (directory entries) names := by
  obtain ⟨there, hloc, hat⟩ := lookup_eq_ok_iff.1 hroot
  have hne : root ≠ [] := (locate_eq_ok_iff.1 hloc).2.1
  have hdir := hwf.of_at? hat
  rw [collect_eq_sourcesBelow filter hroot]
  cases hlong : ((enteredEntries filter entries).map (pathBelow root)).find?
      (maxPathLength ≤ ·.length) with
  | some path =>
    left
    obtain ⟨names, hmem, rfl⟩ := List.mem_map.1 (List.mem_of_find?_eq_some hlong)
    refine ⟨names, (mem_enteredEntries_iff filter hdir).1 hmem, ?_, ?_⟩
    · simpa using List.find?_some hlong
    · rw [sourcesBelow, Node.entries, hlong]
  | none =>
    right
    refine ⟨fun names hnames => ?_,
      (admittedEntries filter entries).filter (isSourceFile ∘ pathBelow root), ?_, ?_, ?_⟩
    · have hpath := List.mem_map_of_mem (f := pathBelow root)
        ((mem_enteredEntries_iff filter hdir).2 hnames)
      simpa using List.find?_eq_none.1 hlong _ hpath
    · rw [sourcesBelow, Node.entries, hlong, List.filter_map]
    · have hname : ∀ names ∈
          (admittedEntries filter entries).filter (isSourceFile ∘ pathBelow root),
          ∀ name ∈ names, IsName name := by
        intro names hnames
        obtain ⟨⟨content, hfile⟩, -⟩ :=
          (mem_admittedEntries_iff filter hdir).1 (List.mem_filter.1 hnames).1
        exact hdir.isName_of_at? hfile
      refine List.Nodup.map_on (fun names hnames names' hnames' heq =>
        eq_of_pathBelow_eq hne (hname names hnames) (hname names' hnames') heq) ?_
      rw [WellFormed] at hdir
      exact (nodup_admittedEntries filter entries hdir.1 hdir.2).filter _
    · intro names
      rw [List.mem_filter]
      exact admissible_iff hne filter hdir

end

/-- Sources, one of them behind a directory that is left out, and a link. -/
def sampleEntries : List (Bytes × Node) :=
  [(RawPath.ofText "App.tsx".toList, file []),
    (RawPath.ofText "Again.tsx".toList, link (RawPath.ofText "App.tsx".toList)),
    (RawPath.ofText "dist.js".toList, file []),
    (RawPath.ofText "lib".toList, directory [(RawPath.ofText "dist".toList, directory
      [(RawPath.ofText "lib.js".toList, file [])])])]

/-- The tree that has them in the directory `app`, to which `src` is a link. -/
def sampleTree : Node :=
  directory [(RawPath.ofText "app".toList, directory sampleEntries),
    (RawPath.ofText "src".toList, link (RawPath.ofText "/app".toList))]

/-- From `/src` no path is too long, and of the sources two are admissible. -/
theorem collect_src_admissible :
    let root := RawPath.ofText "/src".toList
    ∃ places : List Place, sampleTree.collect .empty root = .ok (places.map (pathBelow root)) ∧
      (∀ names, names ∈ places ↔ Admissible .empty (directory sampleEntries) names) ∧
      places.length = 2 := by
  have hwf : sampleTree.WellFormed := by
    simp only [sampleTree, sampleEntries, WellFormed, WellFormedEntries]
    decide
  have hroot : sampleTree.lookup .target (RawPath.ofText "/src".toList) =
      .ok (directory sampleEntries) :=
    lookup_eq_ok_iff.2 ⟨[RawPath.ofText "app".toList], by decide +kernel, rfl⟩
  have hcollect : (sampleTree.collect .empty (RawPath.ofText "/src".toList)).toOption.map
      List.length = some 2 := by
    decide +kernel
  obtain ⟨names, -, -, herror⟩ | ⟨-, places, hok, -, hplaces⟩ :=
    collect_iff_admissible hwf .empty hroot
  · rw [herror] at hcollect
    cases hcollect
  · rw [hok] at hcollect
    exact ⟨places, hok, hplaces, by simpa [Except.toOption] using hcollect⟩

/-- The entries of a directory with a source file in a directory of its own. -/
def deepEntries : List (Bytes × Node) :=
  [(RawPath.ofText "components".toList,
    directory [(RawPath.ofText "Button.tsx".toList, file [])])]

/-- The directory `src` is found by a path that is short enough, but the path of the directory in it
is too long. So the walk fails, and an admissible file is not collected. -/
theorem collect_dotted_fails :
    let top := directory [(RawPath.ofText "src".toList, directory deepEntries)]
    let root := dotted (RawPath.ofText "src".toList) 2043
    top.WellFormed ∧ top.lookup .target root = .ok (directory deepEntries) ∧
      Admissible .empty (directory deepEntries)
        [RawPath.ofText "components".toList, RawPath.ofText "Button.tsx".toList] ∧
      top.collect .empty root =
        .error ⟨child root (RawPath.ofText "components".toList), .nameTooLong⟩ := by
  intro top root
  have hwf : top.WellFormed := by
    simp only [top, deepEntries, WellFormed, WellFormedEntries]
    decide
  have hroot : top.lookup .target root = .ok (directory deepEntries) :=
    lookup_dotted (by decide) (by decide) rfl (by decide)
  have hentered : enteredEntries .empty deepEntries = [[RawPath.ofText "components".toList]] := by
    decide +kernel
  refine ⟨hwf, hroot, ⟨⟨[], rfl⟩, ⟨_, rfl, ?_⟩, ?_, ?_⟩, ?_⟩
  · exact ⟨RawPath.ofText "Button".toList, .tsx, by decide, by decide⟩
  · intro name hname text htext
    obtain rfl := List.mem_singleton.1 hname
    rw [RawPath.ofText, Utf8.decode?_encode] at htext
    cases htext
    decide
  · simp [Filter.Passes, Filter.empty]
  · have hlong : maxPathLength ≤ (child root (RawPath.ofText "components".toList)).length := by
      rw [length_child_dotted (by decide)]
      decide
    rw [collect_eq_sourcesBelow .empty hroot, sourcesBelow, Node.entries, hentered,
      List.map_singleton, pathBelow, List.foldl_cons, List.foldl_nil, List.find?_singleton]
    simp only [hlong, decide_true, if_true]

end Node

end TrueCase

import TrueCase.Proofs.Batch.Run
import TrueCase.Proofs.FileSystem.Admissible

/-!
# A run records what it writes

A run in mode `fix` may meet files that cannot be written. Whichever these are, its report has the
fixes of the other files only, the issues of all files that it has read, and counts to match. In the
tree the files that were to be changed and could be written hold their fixed contents, and nothing
else has changed. Read are all files that are collected and hold text, but for those whose path is
too long to be opened.

## Main definitions

* `overwriteIf`: the writer that fails for some paths.
* `outcomesOf`: the outcomes for files of known contents.

## Main statements

* `outcomes_eq_outcomesOf`: the collected files that can be read, by their paths and contents.
* `records_of_fixTreeWith`: the report and the tree after a run in mode `fix`.
-/

namespace TrueCase

/-- The writer that overwrites the files at the accepted paths, and fails for all others without
touching them. -/
def overwriteIf (accepts : RawPath → Bool) : Writer (StateM World) := fun path content =>
  if accepts path then World.host.overwrite path content
  else return .error (.cannotWrite path (.other "disk full".toList))

theorem writes_overwriteIf (accepts : RawPath → Bool) : Writes (overwriteIf accepts) accepts where
  accept path content w h := by rw [overwriteIf, if_pos h]
  refuse path content w h := by
    rw [overwriteIf, if_neg (Bool.eq_false_iff.1 h)]
    exact ⟨_, rfl⟩

/-! ## The files that are read -/

/-- The outcomes for the files at the given paths, but for those whose path the system does not take
and those whose content is not text. -/
def outcomesOf (index : FileIndex) (root : RawPath) (content : RawPath → Bytes)
    (paths : List RawPath) : List (RawPath × Outcome) :=
  paths.filterMap fun path =>
    if Node.Usable path then
      (Utf8.decode? (content path)).map fun source =>
        (path, fixSource index (nameBelow root path) source)
    else none

/-- The text of a file below a root is what its content stands for, if the system takes its path. -/
theorem Node.FileBelowRoot.readText_eq_ok_iff {top : Node} {root : RawPath} {names : Place}
    {content : Bytes} (h : top.FileBelowRoot root names content) {text : Text} :
    top.readText (pathBelow root names) = .ok text ↔
      Usable (pathBelow root names) ∧ Utf8.decode? content = some text := by
  rw [Node.readText_eq_ok_iff, h.read_eq_ok_iff, Utf8.decode?_eq_some_iff, eq_comm]

/-- The collected files that can be read are those with a text at a path that the system takes. -/
theorem outcomes_eq_outcomesOf {top : Node} {root : RawPath} {paths : List RawPath}
    {content : RawPath → Bytes} (hfiles : ∀ path ∈ paths, ∃ names,
      path = Node.pathBelow root names ∧ top.FileBelowRoot root names (content path))
    (index : FileIndex) :
    outcomes index root top paths = outcomesOf index root content paths := by
  refine List.filterMap_congr fun path hpath => ?_
  obtain ⟨names, rfl, hfile⟩ := hfiles path hpath
  cases hread : top.readText (Node.pathBelow root names) with
  | ok source =>
    obtain ⟨husable, htext⟩ := hfile.readText_eq_ok_iff.1 hread
    rw [if_pos husable, htext]
    rfl
  | error failure =>
    dsimp only
    split
    · next husable =>
      cases htext : Utf8.decode? (content (Node.pathBelow root names)) with
      | none => rfl
      | some source => cases hread.symm.trans (hfile.readText_eq_ok_iff.2 ⟨husable, htext⟩)
    · rfl

/-- The report and the tree after a run in mode `fix`. The files that are `read` are those collected
whose content is valid UTF-8 and whose path the system takes, as it is not too long. Each comes with
its outcome for the text that it had before the run. Those `written` are accepted by the writer and
have a fix. -/
theorem records_of_fixTreeWith {accepts : RawPath → Bool} {write : Writer (StateM World)}
    (hwrite : Writes write accepts) {options : BatchOptions} (hmode : options.mode = .fix)
    {w w' : World} (hfiles : w.files.WellFormed) {report : Report}
    (hrun : (fixTreeWith World.host write options).run w = (.ok report, w')) :
    ∃ paths index content, w.files.collect options.filter options.root = .ok paths ∧
      indexOf options.root paths = .ok index ∧
      (∀ path ∈ paths, relativePath options.root path = .ok (nameBelow options.root path)) ∧
      (∀ path ∈ paths, ∃ names, path = Node.pathBelow options.root names ∧
        w.files.FileBelowRoot options.root names (content path)) ∧
      let read := outcomesOf index options.root content paths
      let written := read.filter fun o => accepts o.1 && o.2.changed
      report.fixes = (read.filter fun o => accepts o.1).flatMap (·.2.fixes) ∧
      report.issues = read.flatMap (·.2.issues) ∧
      report.counts =
        { totalFixes := report.fixes.length
          totalIssues := report.issues.length
          filesIndexed := index.size
          filesScanned := read.length
          filesChanged := written.length } ∧
      (∀ o ∈ written, w'.files.read o.1 = .ok (Utf8.encode o.2.content)) ∧
      (∀ place, (∀ o ∈ written, w.files.locate .target o.1 ≠ .ok place) → ∀ bytes,
        w'.files.at? place = some (.file bytes) ↔ w.files.at? place = some (.file bytes)) ∧
      w'.files.shape = w.files.shape := by
  cases hcollect : w.files.collect options.filter options.root with
  | error e =>
    obtain ⟨w₁, hfail⟩ := run_fixTreeWith_of_error write hcollect
    cases hrun.symm.trans hfail
  | ok paths =>
    have hname := Node.exists_relativeTo?_of_collect hfiles hcollect
    obtain ⟨tally, w₁, hrun₁, hfixed⟩ := fixed_of_fixTreeWith hwrite hmode hcollect hname
      (Node.pairwise_apart_of_collect hfiles hcollect)
    cases hrun.symm.trans hrun₁
    choose! names content hbelow using Node.exists_fileBelowRoot_of_collect hfiles hcollect
    have hcontent : ∀ path ∈ paths, ∃ names, path = Node.pathBelow options.root names ∧
        w.files.FileBelowRoot options.root names (content path) :=
      fun path hpath => ⟨names path, hbelow path hpath⟩
    have hwritten {o : RawPath × Outcome} :
        o ∈ (outcomes (indexBelow options.root paths) options.root w.files paths).filter
          (fun o => accepts o.1 && o.2.changed) ↔
        o ∈ outcomes (indexBelow options.root paths) options.root w.files paths ∧
          accepts o.1 = true ∧ o.2.changed = true := by
      rw [List.mem_filter, Bool.and_eq_true]
    refine ⟨paths, indexBelow options.root paths, content, rfl, indexOf_eq hname, ?_, hcontent, ?_⟩
    · intro path hpath
      obtain ⟨name, hrel⟩ := hname path hpath
      exact relativePath_eq hrel
    · rw [← outcomes_eq_outcomesOf hcontent]
      refine ⟨hfixed.fixes, hfixed.issues, ?_, ?_, ?_, hfixed.shape⟩
      · simp [Tally.report, Report.assemble, hfixed.scanned, hfixed.changed]
      · intro o ho
        obtain ⟨hread, haccepts, hchanged⟩ := hwritten.1 ho
        exact hfixed.written o hread haccepts hchanged
      · intro place hnot bytes
        exact hfixed.kept place
          (fun o hread haccepts hchanged => hnot o (hwritten.2 ⟨hread, haccepts, hchanged⟩)) bytes

/-- A tree in which two files import each other with a wrong letter. -/
def mutualImports : World :=
  .ofFiles (.directory
    [(RawPath.ofText "App.ts".toList, .file (Utf8.encode "from './card'".toList)),
      (RawPath.ofText "Card.ts".toList, .file (Utf8.encode "from './app'".toList))]) []

theorem wellFormed_mutualImports : mutualImports.files.WellFormed := by
  simp only [mutualImports, World.ofFiles, Node.WellFormed, Node.WellFormedEntries]
  decide

/-- The paths of the two files. -/
def mutualPaths : List RawPath :=
  [RawPath.ofText "/App.ts".toList, RawPath.ofText "/Card.ts".toList]

theorem collect_mutualImports :
    mutualImports.files.collect sampleOptions.filter sampleOptions.root = .ok mutualPaths := by
  decide +kernel

/-- Whether a path is not the one of the first file. -/
def notApp (path : RawPath) : Bool :=
  path ≠ RawPath.ofText "/App.ts".toList

theorem outcomes_mutualImports :
    let read := outcomes (indexBelow sampleOptions.root mutualPaths) sampleOptions.root
      mutualImports.files mutualPaths
    (((read.filter fun o => notApp o.1).flatMap (·.2.fixes)).map (·.file), read.length) =
      (["Card.ts".toList], 2) := by
  decide +kernel

/-- Of two files with a fix one cannot be written. The fix of the other is the only one recorded,
although both files have been read. -/
theorem records_of_fixTreeWith_not_app : ∃ report w',
    (fixTreeWith World.host (overwriteIf notApp) sampleOptions).run mutualImports =
      (.ok report, w') ∧
    report.fixes.map (·.file) = ["Card.ts".toList] ∧ report.counts.filesScanned = 2 ∧
    report.counts.totalFixes = report.fixes.length ∧
    w'.files.shape = mutualImports.files.shape := by
  have hname :=
    Node.exists_relativeTo?_of_collect wellFormed_mutualImports collect_mutualImports
  -- the run is known to succeed, so only the outcomes have to be computed
  obtain ⟨tally, w', hrun, -⟩ := fixed_of_fixTreeWith (writes_overwriteIf notApp) rfl
    collect_mutualImports hname
    (Node.pairwise_apart_of_collect wellFormed_mutualImports collect_mutualImports)
  obtain ⟨paths, index, content, hcollect, hindex, -, hcontent, hfixes, -, hcounts, -, -,
    hshape⟩ := records_of_fixTreeWith (writes_overwriteIf notApp) rfl wellFormed_mutualImports hrun
  rw [← outcomes_eq_outcomesOf hcontent] at hfixes hcounts
  cases collect_mutualImports.symm.trans hcollect
  cases (indexOf_eq hname).symm.trans hindex
  obtain ⟨hfile, hlength⟩ := Prod.mk.inj outcomes_mutualImports
  refine ⟨_, w', hrun, ?_, ?_, ?_, hshape⟩
  · rw [hfixes, hfile]
  · rw [hcounts, hlength]
  · rw [hcounts]

/-- A tree with one source file, without content, in the directory `src`. -/
def buttonWorld : World :=
  .ofFiles (.directory [(RawPath.ofText "src".toList, .directory
    [(RawPath.ofText "Button.tsx".toList, .file [])])]) []

/-- A run from that directory, by a path with dots. -/
def dottedOptions : BatchOptions where
  root := Node.dotted (RawPath.ofText "src".toList) 2045
  filter := .empty
  mode := .fix
  verbose := false

/-- The path of the file from there. -/
def dottedPath : RawPath :=
  Node.pathBelow dottedOptions.root [RawPath.ofText "Button.tsx".toList]

theorem not_usable_dottedPath : ¬Node.Usable dottedPath := by
  intro husable
  have hlength := husable.2
  rw [dottedPath, Node.pathBelow, List.foldl_cons, List.foldl_nil, dottedOptions,
    Node.length_child_dotted (by decide)] at hlength
  exact absurd hlength (by decide)

theorem wellFormed_buttonWorld : buttonWorld.files.WellFormed := by
  simp only [buttonWorld, World.ofFiles, Node.WellFormed, Node.WellFormedEntries]
  decide

theorem lookup_buttonWorld : buttonWorld.files.lookup .target dottedOptions.root =
    .ok (.directory [(RawPath.ofText "Button.tsx".toList, .file [])]) :=
  Node.lookup_dotted (by decide) (by decide) rfl (by decide)

theorem fileBelowRoot_buttonWorld : buttonWorld.files.FileBelowRoot dottedOptions.root
    [RawPath.ofText "Button.tsx".toList] [] := by
  obtain ⟨here, hloc, hat⟩ := Node.lookup_eq_ok_iff.1 lookup_buttonWorld
  refine ⟨by decide, here, hloc, ?_⟩
  rw [Node.at?_append, hat]
  rfl

theorem collect_buttonWorld :
    buttonWorld.files.collect dottedOptions.filter dottedOptions.root = .ok [dottedPath] := by
  obtain ⟨here, hloc, hat⟩ := Node.lookup_eq_ok_iff.1 lookup_buttonWorld
  have hsource : isSourceFile dottedPath = true := by
    refine (Node.isSourceFile_pathBelow_iff (Node.locate_eq_ok_iff.1 hloc).2.1 (by simp)
      fileBelowRoot_buttonWorld.isName).2
        ⟨_, rfl, RawPath.ofText "Button".toList, .tsx, by decide, by decide⟩
  have hentered : Node.enteredEntries .empty
      [(RawPath.ofText "Button.tsx".toList, .file [])] = [] := by
    decide +kernel
  have hadmitted : Node.admittedEntries .empty [(RawPath.ofText "Button.tsx".toList, .file [])] =
      [[RawPath.ofText "Button.tsx".toList]] := by
    decide +kernel
  change buttonWorld.files.collect .empty dottedOptions.root = .ok [dottedPath]
  rw [Node.collect_eq_sourcesBelow .empty lookup_buttonWorld, Node.sourcesBelow, Node.entries,
    hentered, hadmitted, List.map_nil, List.find?_nil, List.map_singleton]
  exact congrArg Except.ok (List.filter_cons_of_pos hsource)

/-- The path of the root is short enough, but that of the file in it is too long. So the file is
collected and then not read, although its content is text, and no scanned file is reported. -/
theorem filesScanned_dotted : buttonWorld.files.WellFormed ∧
    buttonWorld.files.collect dottedOptions.filter dottedOptions.root = .ok [dottedPath] ∧
    buttonWorld.files.FileBelowRoot dottedOptions.root [RawPath.ofText "Button.tsx".toList] [] ∧
    Utf8.decode? [] = some [] ∧
    ∃ report w', (fixTree World.host dottedOptions).run buttonWorld = (.ok report, w') ∧
      report.counts.filesScanned = 0 := by
  have hunread : outcomes (indexBelow dottedOptions.root [dottedPath]) dottedOptions.root
      buttonWorld.files [dottedPath] = [] := by
    cases hread : buttonWorld.files.readText dottedPath with
    | error failure => exact outcomes_unread hread
    | ok text =>
      exact absurd (fileBelowRoot_buttonWorld.readText_eq_ok_iff.1 hread).1 not_usable_dottedPath
  obtain ⟨tally, w', hrun, hfixed⟩ := fixed_of_fixTreeWith writes_overwrite rfl collect_buttonWorld
    (Node.exists_relativeTo?_of_collect wellFormed_buttonWorld collect_buttonWorld)
    (Node.pairwise_apart_of_collect wellFormed_buttonWorld collect_buttonWorld)
  have hscanned : tally.scanned = 0 := by
    rw [hfixed.scanned, hunread]
    rfl
  rw [fixTree]
  exact ⟨wellFormed_buttonWorld, collect_buttonWorld, fileBelowRoot_buttonWorld,
    by decide +kernel, _, w', hrun, hscanned⟩

end TrueCase

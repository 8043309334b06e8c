import TrueCase.Proofs.Batch.Atomic

/-!
# What a report names

Each fix of a report names two files, the one that imports and the one that is imported. Both have
been collected by the walk, and they are named by the text that is shown for their path below the
root. That text leads back to the file exactly when the names on the way to it are UTF-8.

## Main definitions

* `Node.Shown`: the text that is shown for a file below the root.

## Main statements

* `Node.exists_shown_of_collect`: the relative path of a collected file is what is shown for it.
* `fixes_of_fixFile`, `exists_source_of_mem_fixes`: where recorded fixes come from, for one file and
  for some files.
* `exists_file_of_mem_fixes`: the files that a report names.
-/

namespace TrueCase

/-! ## The text of a file -/

/-- A text is what is shown for the file that stands below the root by the given names. -/
structure Node.Shown (top : Node) (root : RawPath) (names : Place) (text : Text) : Prop where
  /-- There is such a file, and it is a regular one. -/
  file : ∃ content, top.FileBelowRoot root names content
  relative : relativePath root (pathBelow root names) = .ok text
  segments : text = Path.ofSegments (names.map Utf8.lossy)
  /-- The text leads back to the file exactly when all names are UTF-8. -/
  components_iff : RawPath.components (RawPath.child root (RawPath.ofText text)) =
    RawPath.components (pathBelow root names) ↔ ∀ name ∈ names, ∃ t, Utf8.decode? name = some t
  /-- The path of the file is then spelled by the text, byte for byte. Only a root that is itself the
  file gets a slash at its end. -/
  child_eq : names ≠ [] → (∀ name ∈ names, ∃ t, Utf8.decode? name = some t) →
    RawPath.child root (RawPath.ofText text) = pathBelow root names

/-- The relative path of a collected file is what is shown for it. -/
theorem Node.exists_shown_of_collect {top : Node} {filter : Filter} {root : RawPath}
    {paths : List RawPath} (hwf : top.WellFormed) (h : top.collect filter root = .ok paths) :
    ∀ path ∈ paths, ∃ names, path = pathBelow root names ∧
      top.Shown root names (nameBelow root path) := by
  intro path hpath
  have hroot := (cases_of_collect h).1
  obtain ⟨names, content, rfl, hfile⟩ := exists_fileBelowRoot_of_collect hwf h path hpath
  have hnames := hfile.isName
  have hrel := RawPath.relativeTo?_pathBelow hroot hnames
  have htext : nameBelow root (pathBelow root names) =
      Path.ofSegments (names.map Utf8.lossy) := by
    rw [nameBelow, hrel, Option.getD_some]
  refine ⟨names, rfl, ⟨content, hfile⟩, relativePath_eq hrel, htext, ?_, ?_⟩
  · rw [htext]
    exact RawPath.components_child_lossy_iff hnames hroot
  · rw [htext]
    exact RawPath.child_ofText_lossy hnames

/-! ## Where fixes come from -/

section

variable {write : Writer (StateM World)} {options : BatchOptions} {index : FileIndex}
  {tally tally' : Tally} {w w' : World}

/-- All fixes of a file are recorded, or none. -/
theorem fixes_of_settle {mode : Mode} {path : RawPath} {current : Text} {outcome : Outcome}
    (h : (settle write mode tally path current outcome).run w = (tally', w')) :
    tally'.fixes = tally.fixes ∨ tally'.fixes = tally.fixes ++ outcome.fixes := by
  unfold settle at h
  split at h
  · rw [World.run_bind] at h
    cases hrun : (applyOutcome World.host write mode path current outcome).run w with
    | mk recorded w₁ =>
      rw [hrun] at h
      cases recorded with
      | true =>
        cases h
        exact Or.inr rfl
      | false =>
        cases h
        exact Or.inl rfl
  · cases h
    exact Or.inl rfl

/-- What is recorded for a file comes from the text that has been read there. -/
theorem fixes_of_fixFile {path : RawPath} {current : Text}
    (h : (fixFile World.host write options index tally path current).run w = (tally', w')) :
    tally'.fixes = tally.fixes ∨
      ∃ source, tally'.fixes = tally.fixes ++ (fixSource index current source).fixes := by
  cases hread : w.files.readText path with
  | error failure =>
    rw [run_fixFile_of_unread write options index tally current hread] at h
    cases h
    exact Or.inl rfl
  | ok source =>
    obtain ⟨said, hrun⟩ := run_fixFile options index tally current hread
    rw [hrun write] at h
    exact (fixes_of_settle h).imp_right fun hfixes => ⟨source, hfixes⟩

/-- What is recorded for some files comes from texts that have been read there. -/
theorem exists_source_of_mem_fixes {paths : List RawPath}
    (hname : ∀ path ∈ paths, ∃ name, RawPath.relativeTo? options.root path = some name)
    (h : (fixFiles World.host write options index tally paths).run w = (.ok tally', w')) :
    ∀ fix ∈ tally'.fixes, fix ∈ tally.fixes ∨ ∃ path ∈ paths, ∃ source,
      fix ∈ (fixSource index (nameBelow options.root path) source).fixes := by
  induction paths generalizing tally w with
  | nil =>
    cases h
    exact fun fix hfix => Or.inl hfix
  | cons path paths ih =>
    obtain ⟨⟨name, hrel⟩, hname⟩ := List.forall_mem_cons.1 hname
    cases hrun : (fixFile World.host write options index tally path
        (nameBelow options.root path)).run w with
    | mk tally₁ w₁ =>
      -- the other files start from what the first one leaves, the tally and the world
      rw [run_fixFiles_cons hrel hrun] at h
      intro fix hfix
      rcases ih hname h fix hfix with hfirst | ⟨other, hother, hsource⟩
      · rcases fixes_of_fixFile hrun with hsame | ⟨source, hadded⟩
        · exact Or.inl (hsame ▸ hfirst)
        · rw [hadded] at hfirst
          refine (List.mem_append.1 hfirst).imp_right fun hfix => ?_
          exact ⟨path, List.mem_cons_self, source, hfix⟩
      · exact Or.inr ⟨other, List.mem_cons_of_mem path hother, hsource⟩

end

/-! ## The files of a report -/

/-- The target of a fix is the relative path of one of the files in the index. -/
theorem exists_path_of_mem_fixes {root : RawPath} {paths : List RawPath} {current source : Text}
    {fix : FixRecord} (h : fix ∈ (fixSource (indexBelow root paths) current source).fixes) :
    ∃ path ∈ paths, fix.target = nameBelow root path := by
  obtain ⟨specifier, r, -, hr, -, htarget⟩ := exists_of_mem_fixes h
  obtain ⟨path, hpath, hentry⟩ := exists_of_mem_indexBelow (mem_entries_of_resolve hr)
  refine ⟨path, hpath, ?_⟩
  rw [htarget, ← hentry]
  rfl

/-- Every reported file and target is shown for a regular file that the walk has collected, whatever
the mode and the writer. The root with the text behind it is the path of that file exactly when all
names on the way below the root are UTF-8. -/
theorem exists_file_of_mem_fixes {write : Writer (StateM World)} {options : BatchOptions}
    {w w' : World} {report : Report} (hwf : w.files.WellFormed)
    (hrun : (fixTreeWith World.host write options).run w = (.ok report, w')) :
    ∃ paths, w.files.collect options.filter options.root = .ok paths ∧
      ∀ fix ∈ report.fixes, ∃ file target,
        Node.pathBelow options.root file ∈ paths ∧ w.files.Shown options.root file fix.file ∧
        Node.pathBelow options.root target ∈ paths ∧
        w.files.Shown options.root target fix.target := by
  cases hcollect : w.files.collect options.filter options.root with
  | error e =>
    rw [run_fixTreeWith_eq_error options write hcollect] at hrun
    cases hrun
  | ok paths =>
    refine ⟨paths, rfl, fun fix hfix => ?_⟩
    have hname := Node.exists_relativeTo?_of_mem_collect hcollect
    obtain ⟨said, htree⟩ := run_fixTreeWith options hcollect hname
    obtain ⟨tally, w₁, hfiles⟩ := exists_run_fixFiles write (indexBelow options.root paths) {} hname
      { w with said }
    rw [htree write tally w₁ hfiles] at hrun
    cases hrun
    have hshown := Node.exists_shown_of_collect hwf hcollect
    rcases exists_source_of_mem_fixes hname hfiles fix hfix with hnone | ⟨path, hpath, source, hmem⟩
    · cases hnone
    · obtain ⟨other, hother, htarget⟩ := exists_path_of_mem_fixes hmem
      obtain ⟨file, rfl, hfile⟩ := hshown path hpath
      obtain ⟨target, rfl, hshown⟩ := hshown other hother
      refine ⟨file, target, hpath, ?_, hother, ?_⟩
      · rw [file_of_mem_fixes hmem]
        exact hfile
      · rw [htarget]
        exact hshown

/-- The files and targets that are reported if there is a report. -/
def reportedTexts (result : Except Failure Report) : Option (List (Text × Text)) :=
  result.toOption.map fun report => report.fixes.map fun fix => (fix.file, fix.target)

theorem exists_report_of_reportedTexts {run : Except Failure Report × World}
    {texts : List (Text × Text)} (h : reportedTexts run.1 = some texts) :
    ∃ report w', run = (.ok report, w') ∧
      ∀ pair ∈ texts, ∃ fix ∈ report.fixes, (fix.file, fix.target) = pair := by
  obtain ⟨result, w'⟩ := run
  cases result with
  | error failure => cases h
  | ok report =>
    refine ⟨report, w', rfl, fun pair hpair => ?_⟩
    rw [← Option.some.inj h] at hpair
    exact List.mem_map.1 hpair

/-- In the sample both files of the fix have been collected and are spelled by their texts. -/
theorem exists_file_sampleWorld : sampleWorld.files.WellFormed ∧ ∃ report w',
    (fixTree World.host sampleOptions).run sampleWorld = (.ok report, w') ∧
      ∃ paths, sampleWorld.files.collect sampleOptions.filter sampleOptions.root = .ok paths ∧
        ∃ file target, Node.pathBelow sampleOptions.root file ∈ paths ∧
          sampleWorld.files.Shown sampleOptions.root file "App.ts".toList ∧
          Node.pathBelow sampleOptions.root target ∈ paths ∧
          sampleWorld.files.Shown sampleOptions.root target "Button.ts".toList := by
  have htexts : reportedTexts ((fixTree World.host sampleOptions).run sampleWorld).1 =
      some [("App.ts".toList, "Button.ts".toList)] := by
    decide +kernel
  obtain ⟨report, w', hrun, hfix⟩ := exists_report_of_reportedTexts htexts
  obtain ⟨fix, hmem, hpair⟩ := hfix _ List.mem_cons_self
  obtain ⟨hfile, htarget⟩ := Prod.mk.inj hpair
  obtain ⟨paths, hcollect, hall⟩ := exists_file_of_mem_fixes wellFormed_sample hrun
  refine ⟨wellFormed_sample, report, w', hrun, paths, hcollect, ?_⟩
  rw [← hfile, ← htarget]
  exact hall fix hmem

/-- A tree with one file, in whose name there is a byte that no text has. It imports itself by the
name that is shown for it. -/
def unreadableName : World :=
  .ofFiles (.directory [(RawPath.ofText "src".toList, .directory
    [(0xFF :: RawPath.ofText ".ts".toList, .file (Utf8.encode "from './\uFFFD.ts'".toList))])]) []

theorem wellFormed_unreadableName : unreadableName.files.WellFormed := by
  simp only [unreadableName, World.ofFiles, Node.WellFormed, Node.WellFormedEntries]
  decide

/-- A run that plans the fixes of the files in a directory. -/
def srcOptions : BatchOptions where
  root := RawPath.ofText "src".toList
  filter := .empty
  mode := .check
  verbose := false

/-- The path of the only file. -/
def unreadablePath : RawPath :=
  RawPath.ofText "src/".toList ++ 0xFF :: RawPath.ofText ".ts".toList

theorem collect_unreadableName :
    unreadableName.files.collect srcOptions.filter srcOptions.root = .ok [unreadablePath] := by
  decide +kernel

/-- A fix may name a file and a target that do not exist. The only file is reported by a text that is
shown for its name, and that leads to no path that the walk has collected. -/
theorem exists_fix_unreadableName : unreadableName.files.WellFormed ∧ ∃ report w' paths,
    (fixTree World.host srcOptions).run unreadableName = (.ok report, w') ∧
      unreadableName.files.collect srcOptions.filter srcOptions.root = .ok paths ∧
      ∃ fix ∈ report.fixes, ∀ path ∈ paths,
        RawPath.components (RawPath.child srcOptions.root (RawPath.ofText fix.file)) ≠
            RawPath.components path ∧
          RawPath.components (RawPath.child srcOptions.root (RawPath.ofText fix.target)) ≠
            RawPath.components path := by
  have htexts : reportedTexts ((fixTree World.host srcOptions).run unreadableName).1 =
      some [("\uFFFD.ts".toList, "\uFFFD.ts".toList)] := by
    decide +kernel
  have hother : RawPath.components
      (RawPath.child srcOptions.root (RawPath.ofText "\uFFFD.ts".toList)) ≠
        RawPath.components unreadablePath := by
    decide
  obtain ⟨report, w', hrun, hfix⟩ := exists_report_of_reportedTexts htexts
  obtain ⟨fix, hmem, hpair⟩ := hfix _ List.mem_cons_self
  obtain ⟨hfile, htarget⟩ := Prod.mk.inj hpair
  refine ⟨wellFormed_unreadableName, report, w', _, hrun, collect_unreadableName, fix, hmem, ?_⟩
  rw [List.forall_mem_singleton, hfile, htarget]
  exact ⟨hother, hother⟩

end TrueCase

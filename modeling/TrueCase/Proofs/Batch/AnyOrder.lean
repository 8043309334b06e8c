import TrueCase.Proofs.Batch.HostWith
import TrueCase.Proofs.Batch.Recorded
import TrueCase.Proofs.Import.SameFiles
import TrueCase.Proofs.Report.Sorted

/-!
# Walks in any order

A directory may list its entries in any order, and in another one when the files are walked again.
What a run does about a file depends neither on the files that come before it nor on the order in
which the index was filled. So two runs leave the same tree, and their reports differ in nothing but
the order in which the files come.

## Main definitions

* `Walk.AnyOrder`: a walk that yields the files in some order.
* `DistinctKeys`: files that the index tells apart.
* `Report.SameByFile`: two reports that differ in nothing but the order of their files.

## Main statements

* `Rules.foldl_rewrite_perm`: the tree does not depend on the order of the files.
* `outcomes_perm`, `sameByFile_report`: neither does what is recorded of each of them.
* `fixTreeWith_any_order`: neither does what comes of a run.
-/

namespace TrueCase

/-- A walk that yields the files in some order. If there are errors, any of them may come first. -/
structure Walk.AnyOrder (walk : Walk) : Prop where
  ok : ∀ {w root filter paths}, w.files.collect filter root = .ok paths →
    ∃ listed, walk w root filter = .ok listed ∧ listed.Perm paths
  error : ∀ {w root filter e}, w.files.collect filter root = .error e →
    ∃ e', walk w root filter = .error e'

theorem World.anyOrder_inOrder : World.inOrder.AnyOrder where
  ok h := ⟨_, h, List.Perm.refl _⟩
  error h := ⟨_, h⟩

/-! ## The tree and the tally -/

namespace Rules

variable (rules : Rules) {files : Node} {o o' : RawPath × Outcome}

/-- Two files can be dealt with in either order. -/
theorem rewrite_comm (h : files.NamesFile o.1) (h' : files.NamesFile o'.1)
    (hapart : files.Apart o.1 o'.1) :
    rules.rewrite (rules.rewrite files o) o' = rules.rewrite (rules.rewrite files o') o := by
  have hkept := Node.locate_congr (rules.shape_rewrite h) .target o'.1
  have hkept' := Node.locate_congr (rules.shape_rewrite h') .target o.1
  obtain hsame | hset := rules.rewrite_cases o
  · rw [hsame, hsame]
  obtain hsame' | hset' := rules.rewrite_cases o'
  · rw [hsame', hsame']
  obtain ⟨place, hloc, hshape⟩ := h
  obtain ⟨place', hloc', hshape'⟩ := h'
  obtain ⟨old, hat⟩ := Node.at?_shape_eq_file_iff.1 hshape
  obtain ⟨old', hat'⟩ := Node.at?_shape_eq_file_iff.1 hshape'
  have hne : place ≠ place' := fun heq => hapart place hshape ⟨hloc, heq ▸ hloc'⟩
  rw [hset' _ place' (hkept.trans hloc'), hset _ place (hkept'.trans hloc), hset _ place hloc,
    hset' _ place' hloc', Node.set_comm hat hat' hne]

/-- The tree does not depend on the order in which files are dealt with. -/
theorem foldl_rewrite_perm {read read' : List (RawPath × Outcome)} (hperm : read.Perm read')
    (hfile : ∀ o ∈ read, files.NamesFile o.1)
    (hapart : read.Pairwise fun o o' => files.Apart o.1 o'.1) :
    read.foldl rules.rewrite files = read'.foldl rules.rewrite files := by
  induction hperm generalizing files with
  | nil => rfl
  | cons o _ ih =>
    obtain ⟨hfirst, hrest⟩ := List.forall_mem_cons.1 hfile
    have hshape := (rules.shape_rewrite hfirst).symm
    refine ih (fun o' ho' => (Node.namesFile_congr hshape).1 (hrest o' ho')) ?_
    exact (List.pairwise_cons.1 hapart).2.imp (Node.apart_congr hshape).1
  | swap o o' rest =>
    obtain ⟨h', h⟩ := List.forall_mem_cons.1 hfile
    have hboth := (List.pairwise_cons.1 hapart).1 o List.mem_cons_self
    rw [List.foldl_cons, List.foldl_cons, List.foldl_cons, List.foldl_cons,
      rules.rewrite_comm h' (h o List.mem_cons_self) hboth]
  | trans hfirst _ ih ih' =>
    refine (ih hfile hapart).trans (ih' (fun o ho => hfile o (hfirst.mem_iff.2 ho)) ?_)
    exact (hfirst.pairwise_iff Node.Apart.symm).1 hapart

/-- What a run has tallied in the end. -/
theorem foldl_tally (t : Tally) (read : List (RawPath × Outcome)) : read.foldl rules.tally t =
    { fixes := t.fixes ++ (read.filter rules.approves).flatMap (·.2.fixes)
      issues := t.issues ++ read.flatMap (·.2.issues)
      scanned := t.scanned + read.length
      changed := t.changed +
        if rules.options.mode = .check then 0 else (read.filter rules.approves).length } := by
  induction read generalizing t with
  | nil => simp
  | cons o read ih =>
    rw [List.foldl_cons, ih, tally]
    cases happroves : rules.approves o with
    | false => simp [Tally.scan, happroves, Nat.add_assoc, Nat.add_comm 1]
    | true =>
      by_cases hmode : rules.options.mode = .check <;>
        simp [Tally.scan, Tally.record, happroves, hmode, Nat.add_assoc, Nat.add_comm 1]

end Rules

/-! ## Reports -/

/-- The reports differ in nothing but the order in which the files come. -/
structure Report.SameByFile (report report' : Report) : Prop where
  timestamp : report.timestamp = report'.timestamp
  dryRun : report.dryRun = report'.dryRun
  counts : report.counts = report'.counts
  fixes : sortByFile (·.file) report.fixes = sortByFile (·.file) report'.fixes
  issues : sortByFile (·.file) report.issues = sortByFile (·.file) report'.issues

theorem Report.SameByFile.symm {report report' : Report} (h : report.SameByFile report') :
    report'.SameByFile report :=
  ⟨h.timestamp.symm, h.dryRun.symm, h.counts.symm, h.fixes.symm, h.issues.symm⟩

theorem Report.SameByFile.trans {report report' report'' : Report} (h : report.SameByFile report')
    (h' : report'.SameByFile report'') : report.SameByFile report'' :=
  ⟨h.timestamp.trans h'.timestamp, h.dryRun.trans h'.dryRun, h.counts.trans h'.counts,
    h.fixes.trans h'.fixes, h.issues.trans h'.issues⟩

section

variable {index : FileIndex} {root : RawPath} {files : Node} {paths listed listed' : List RawPath}

theorem Verdict.file_of_issue? {verdict : Verdict} {file : Text} {imported : ImportRef}
    {issue : IssueRecord} (h : verdict.issue? file imported = some issue) : issue.file = file := by
  cases verdict <;> cases h
  rfl

/-- The records of a file bear its name. -/
theorem file_of_mem_outcomes {o : RawPath × Outcome} (h : o ∈ outcomes index root files paths) :
    (∀ fix ∈ o.2.fixes, fix.file = nameBelow root o.1) ∧
      ∀ issue ∈ o.2.issues, issue.file = nameBelow root o.1 := by
  obtain ⟨-, source, -, heq⟩ := mem_outcomes h
  rw [heq]
  constructor
  · exact fun fix hfix => file_of_mem_fixes hfix
  · intro issue hissue
    obtain ⟨imported, -, hissue⟩ := List.mem_filterMap.1 hissue
    exact Verdict.file_of_issue? hissue

theorem map_fst_outcomes_sublist (index : FileIndex) (root : RawPath) (files : Node)
    (paths : List RawPath) : ((outcomes index root files paths).map (·.1)).Sublist paths := by
  induction paths with
  | nil => exact List.Sublist.slnil
  | cons path paths ih =>
    rw [outcomes, List.filterMap_cons]
    cases files.readText path with
    | error failure => exact ih.cons path
    | ok source => exact ih.cons_cons path

/-- The paths have different keys. -/
def DistinctKeys (root : RawPath) (paths : List RawPath) : Prop :=
  (paths.map fun path => (nameBelow root path).lower).Nodup

theorem DistinctKeys.nodup_names (hkeys : DistinctKeys root paths) :
    (paths.map (nameBelow root)).Nodup := by
  refine List.Nodup.of_map Text.lower ?_
  rw [List.map_map]
  exact hkeys

theorem DistinctKeys.perm (hkeys : DistinctKeys root paths) (h : listed.Perm paths) :
    DistinctKeys root listed :=
  (h.map _).nodup_iff.2 hkeys

/-- The order of the walk leaves the entries of the index as they are. -/
theorem entries_indexBelow_perm (hkeys : DistinctKeys root paths) (h : listed.Perm paths) :
    (indexBelow root listed).entries.Perm (indexBelow root paths).entries := by
  have hentries {paths : List RawPath} (hkeys : DistinctKeys root paths) :
      (indexBelow root paths).entries = (paths.map (entryBelow root)).reverse := by
    refine FileIndex.entries_ofList ?_
    rw [List.map_map]
    exact hkeys
  rw [hentries (hkeys.perm h), hentries hkeys]
  exact (List.reverse_perm _).trans ((h.map _).trans (List.reverse_perm _).symm)

/-- The files have the same outcomes, whichever way they are indexed and gone through. -/
theorem outcomes_perm (files : Node) (hkeys : DistinctKeys root paths) (h : listed.Perm paths)
    (h' : listed'.Perm paths) :
    (outcomes (indexBelow root listed) root files listed').Perm
      (outcomes (indexBelow root paths) root files paths) := by
  have hfix : fixSource (indexBelow root listed) = fixSource (indexBelow root paths) :=
    fixSource_get?_congr (FileIndex.get?_eq_of_perm (entries_indexBelow_perm hkeys h))
  unfold outcomes
  rw [hfix]
  exact h'.filterMap _

theorem sameByFile_report (rules : Rules) {read read' : List (RawPath × Outcome)}
    (hperm : read.Perm read') (hnodup : (read.map fun o => nameBelow root o.1).Nodup)
    (hfile : ∀ o ∈ read, (∀ fix ∈ o.2.fixes, fix.file = nameBelow root o.1) ∧
      ∀ issue ∈ o.2.issues, issue.file = nameBelow root o.1) (indexed : Nat) (clock : Text) :
    ((read.foldl rules.tally {}).report rules.options.mode indexed clock).SameByFile
      ((read'.foldl rules.tally {}).report rules.options.mode indexed clock) := by
  have happroved := hperm.filter rules.approves
  have hsub : (read.filter rules.approves).Sublist read := List.filter_sublist
  have hfixes := sortByFile_flatMap_perm happroved (hnodup.sublist (hsub.map _))
    fun o ho => (hfile o (hsub.mem ho)).1
  have hissues := sortByFile_flatMap_perm hperm hnodup fun o ho => (hfile o ho).2
  rw [rules.foldl_tally, rules.foldl_tally]
  constructor
  case counts =>
    simp [Tally.report, Report.assemble, happroved.length_eq, hperm.length_eq,
      (happroved.flatMap_right (·.2.fixes)).length_eq, (hperm.flatMap_right (·.2.issues)).length_eq]
  case fixes => exact hfixes
  case issues => exact hissues
  all_goals rfl

end

/-! ## Runs -/

section

variable (rules : Rules) {write : Writer (StateM World)} {walk : Walk} {w : World}
  {paths : List RawPath}

/-- A run that cannot walk fails, and leaves the tree as it is. -/
theorem Rules.run_fixTreeWith_of_error (write : Writer (StateM World)) (hwalk : walk.AnyOrder)
    {e : WalkError}
    (hcollect : w.files.collect rules.options.filter rules.options.root = .error e) :
    ∃ failure w', (fixTreeWith (World.hostWith walk rules.answers) write rules.options).run w =
      (.error failure, w') ∧ w'.files = w.files := by
  obtain ⟨e', hlisted⟩ := hwalk.error
    (w := { w with said := .indexing rules.options.root :: w.said }) hcollect
  unfold fixTreeWith
  simp only [World.run_bind, World.run_tell_hostWith, World.run_sourceFiles_hostWith, hlisted]
  exact ⟨_, _, rfl, rfl⟩

variable (hwrite : Writes write rules.accepts) (hwalk : walk.AnyOrder)
  (hfiles : w.files.WellFormed)
  (hcollect : w.files.collect rules.options.filter rules.options.root = .ok paths)

include hwrite hwalk hfiles hcollect

/-- A run whose walk succeeds goes through the files in some order, with an index that has been
filled in some other. -/
theorem Rules.run_fixTreeWith : ∃ listed listed' said, listed.Perm paths ∧ listed'.Perm paths ∧
    let index := indexBelow rules.options.root listed
    let read := outcomes index rules.options.root w.files listed'
    (fixTreeWith (World.hostWith walk rules.answers) write rules.options).run w =
      (.ok ((read.foldl rules.tally {}).report rules.options.mode index.size w.clock),
        { w with files := read.foldl rules.rewrite w.files, said }) := by
  have hname := Node.exists_relativeTo?_of_collect hfiles hcollect
  obtain ⟨listed, hlisted, hperm⟩ := hwalk.ok
    (w := { w with said := .indexing rules.options.root :: w.said }) hcollect
  let said₁ : List Message := .scanning :: .indexed (indexBelow rules.options.root listed).size ::
    .indexing rules.options.root :: w.said
  obtain ⟨listed', hlisted', hperm'⟩ := hwalk.ok (w := { w with said := said₁ }) hcollect
  obtain ⟨said, hrun⟩ := rules.run_fixFiles walk (indexBelow rules.options.root listed) hwrite {}
    listed' { w with said := said₁ }
    (fun path hpath => hname path (hperm'.mem_iff.1 hpath))
    ((hperm'.pairwise_iff Node.Apart.symm).2 (Node.pairwise_apart_of_collect hfiles hcollect))
  refine ⟨listed, listed', said, hperm, hperm', ?_⟩
  dsimp only [said₁] at hlisted' hrun
  unfold fixTreeWith
  simp only [World.run_bind, World.run_tell_hostWith, World.run_sourceFiles_hostWith, hlisted,
    Except.mapError, Except.bind, indexOf_eq fun path hpath => hname path (hperm.mem_iff.1 hpath),
    hlisted', hrun]
  rfl

/-- It comes to the same as if the files had been taken in the order `paths` both times. -/
theorem Rules.run_fixTreeWith_sameByFile (hkeys : DistinctKeys rules.options.root paths) :
    let index := indexBelow rules.options.root paths
    let read := outcomes index rules.options.root w.files paths
    ∃ report w', (fixTreeWith (World.hostWith walk rules.answers) write rules.options).run w =
        (.ok report, w') ∧
      w'.files = read.foldl rules.rewrite w.files ∧
      report.SameByFile
        ((read.foldl rules.tally {}).report rules.options.mode index.size w.clock) := by
  intro index read
  obtain ⟨listed, listed', said, hperm, hperm', hrun⟩ :=
    rules.run_fixTreeWith hwrite hwalk hfiles hcollect
  have hread := outcomes_perm w.files hkeys hperm hperm'
  have hsize : (indexBelow rules.options.root listed).size = index.size :=
    (entries_indexBelow_perm hkeys hperm).length_eq
  have hsub := map_fst_outcomes_sublist (indexBelow rules.options.root listed) rules.options.root
    w.files listed'
  refine ⟨_, _, hrun, ?_, ?_⟩
  · refine rules.foldl_rewrite_perm hread (fun o ho => ?_) ?_
    · obtain ⟨-, source, hsource, -⟩ := mem_outcomes ho
      exact Node.namesFile_of_readText hsource
    · have hapart := (hperm'.pairwise_iff Node.Apart.symm).2
        (Node.pairwise_apart_of_collect hfiles hcollect)
      exact List.pairwise_map.1 (hapart.sublist hsub)
  · rw [hsize]
    refine sameByFile_report rules hread ?_ (fun o ho => file_of_mem_outcomes ho) index.size w.clock
    have hnames := (hkeys.perm hperm').nodup_names.sublist (hsub.map (nameBelow rules.options.root))
    rwa [List.map_map] at hnames

end

/-- Two runs from one world, with the same options, answers and writer, where each walk of each of
them may yield the files in an order of its own. If no two files have the same key, they leave the
same tree, and their reports differ in nothing but the order of the files. If there is something
that cannot be walked, both of them fail and leave the tree as it is.

In mode `interactive` each answer is decided by what is asked, that is by the name of the file and
its fixes. Keys that have been typed beforehand, as the host of a world takes them, answer the first
question, the second and so on, and these are other questions in another order. -/
theorem fixTreeWith_any_order (options : BatchOptions) {w : World} (hfiles : w.files.WellFormed)
    (hkeys : ∀ paths, w.files.collect options.filter options.root = .ok paths →
      DistinctKeys options.root paths)
    (answers : Answers) {accepts : RawPath → Bool} {write : Writer (StateM World)}
    (hwrite : Writes write accepts) {walk walk' : Walk} (hwalk : walk.AnyOrder)
    (hwalk' : walk'.AnyOrder) :
    (∃ failure failure' w₁ w₂,
      (fixTreeWith (World.hostWith walk answers) write options).run w = (.error failure, w₁) ∧
      (fixTreeWith (World.hostWith walk' answers) write options).run w = (.error failure', w₂) ∧
      w₁.files = w.files ∧ w₂.files = w.files) ∨
    ∃ report report' w₁ w₂,
      (fixTreeWith (World.hostWith walk answers) write options).run w = (.ok report, w₁) ∧
      (fixTreeWith (World.hostWith walk' answers) write options).run w = (.ok report', w₂) ∧
      w₁.files = w₂.files ∧ report.SameByFile report' := by
  let rules : Rules := ⟨options, answers, accepts⟩
  cases hcollect : w.files.collect options.filter options.root with
  | error e =>
    left
    obtain ⟨failure, w₁, hrun, hsame⟩ := rules.run_fixTreeWith_of_error write hwalk hcollect
    obtain ⟨failure', w₂, hrun', hsame'⟩ := rules.run_fixTreeWith_of_error write hwalk' hcollect
    exact ⟨failure, failure', w₁, w₂, hrun, hrun', hsame, hsame'⟩
  | ok paths =>
    right
    have hkeys := hkeys paths hcollect
    obtain ⟨report, w₁, hrun, hfinal, hreport⟩ :=
      rules.run_fixTreeWith_sameByFile hwrite hwalk hfiles hcollect hkeys
    obtain ⟨report', w₂, hrun', hfinal', hreport'⟩ :=
      rules.run_fixTreeWith_sameByFile hwrite hwalk' hfiles hcollect hkeys
    exact ⟨report, report', w₁, w₂, hrun, hrun', hfinal.trans hfinal'.symm,
      hreport.trans hreport'.symm⟩

/-- A walk that turns round once the index has been filled. -/
def World.turning : Walk := fun w root filter =>
  (w.files.collect filter root).map fun paths => if .scanning ∈ w.said then paths.reverse else paths

theorem World.anyOrder_turning : World.turning.AnyOrder where
  ok {w root filter paths} h := by
    refine ⟨if .scanning ∈ w.said then paths.reverse else paths, by rw [turning, h, Except.map], ?_⟩
    split
    · exact List.reverse_perm paths
    · exact List.Perm.refl paths
  error {w root filter e} h := ⟨e, by rw [turning, h, Except.map]⟩

theorem distinctKeys_mutualPaths : DistinctKeys sampleOptions.root mutualPaths := by
  have hkeys : mutualPaths.map (fun path => (nameBelow sampleOptions.root path).lower) =
      ["app.ts".toList, "card.ts".toList] := by
    decide +kernel
  rw [DistinctKeys, hkeys]
  decide

/-- Of two files with a fix each, the one that is indexed last is fixed first. The host of the world
takes them in the opposite order. -/
theorem fixTreeWith_turning : ∃ report report' w₁ w₂,
    (fixTree World.host sampleOptions).run mutualImports = (.ok report, w₁) ∧
    (fixTreeWith (World.hostWith World.turning World.noAnswers) World.host.overwrite
      sampleOptions).run mutualImports = (.ok report', w₂) ∧
    w₁.files = w₂.files ∧ report.SameByFile report' ∧
    report'.fixes.map (·.file) = ["Card.ts".toList, "App.ts".toList] := by
  have hturned : ((fixTreeWith (World.hostWith World.turning World.noAnswers)
      World.host.overwrite sampleOptions).run mutualImports).1.toOption.map (·.fixes.map (·.file)) =
        some ["Card.ts".toList, "App.ts".toList] := by
    decide +kernel
  have hkeys : ∀ paths,
      mutualImports.files.collect sampleOptions.filter sampleOptions.root = .ok paths →
        DistinctKeys sampleOptions.root paths := by
    intro paths hcollect
    cases collect_mutualImports.symm.trans hcollect
    exact distinctKeys_mutualPaths
  obtain ⟨-, failure, -, w₂, -, hrun, -⟩ | ⟨report, report', w₁, w₂, hrun, hrun', hfiles, hsame⟩ :=
    fixTreeWith_any_order sampleOptions wellFormed_mutualImports hkeys World.noAnswers
      writes_overwrite World.anyOrder_inOrder World.anyOrder_turning
  · rw [hrun] at hturned
    cases hturned
  · rw [hrun'] at hturned
    rw [run_fixTreeWith_noAnswers sampleOptions writes_overwrite (by decide)] at hrun
    exact ⟨report, report', w₁, w₂, hrun, hrun', hfiles, hsame, Option.some.inj hturned⟩

end TrueCase

import TrueCase.Proofs.Batch.Run

/-!
# The modes of a run

A run reads the same texts in every mode, since no file is written before it is read. So its issues
and the counts of its files do not depend on the mode. A run in mode `check` plans the fixes that one
in mode `fix` writes. It writes nothing itself, and neither does a run in mode `interactive` whose
questions get no answer.

## Main definitions

* `World.Unanswered`: every question fails.
* `World.Quiet`: runs in the given mode write nothing.
* `Planned`: what going through the files at the given paths records if nothing is written.

## Main statements

* `passed_of_fixTreeWith`: a run in any mode goes through the files that its walk collects.
* `planned_of_fixTreeWith`: a quiet run does not call its writer, and leaves the tree as it is.
* `fixTreeWith_check_foretells`: the runs in the three modes, compared to the one in mode `check`.
-/

namespace TrueCase

/-! ## Questions -/

namespace World

/-- Every question fails: there is no terminal, or there is no answer among the keys. -/
def Unanswered (w : World) : Prop :=
  ∀ keys, w.keys = some keys → Prompt.answer? keys = none

/-- Runs in the given mode write nothing, as they have no leave to. -/
def Quiet (w : World) (mode : Mode) : Prop :=
  mode = .check ∨ mode = .interactive ∧ w.Unanswered

@[simp] theorem run_confirm (w : World) : host.confirm.run w = confirm w := rfl

theorem files_confirm (w : World) : (confirm w).2.files = w.files := by
  unfold confirm
  split
  · rfl
  · split <;> rfl

/-- A question that fails leaves a world in which the next one fails as well. -/
theorem exists_confirm_of_unanswered {w : World} (h : w.Unanswered) :
    ∃ reason w', confirm w = (.error reason, w') ∧ w'.files = w.files ∧ w'.Unanswered := by
  unfold confirm
  cases hkeys : w.keys with
  | none => exact ⟨_, w, rfl, rfl, h⟩
  | some keys =>
    dsimp only
    rw [h keys hkeys]
    refine ⟨_, _, rfl, rfl, ?_⟩
    intro keys' hkeys'
    cases hkeys'
    rw [Prompt.answer?]

end World

/-! ## Any mode -/

section

variable {accepts : RawPath → Bool} {write : Writer (StateM World)} {w : World} {path : RawPath}

section

variable (hwrite : Writes write accepts) {place : Place} {old : Bytes}
  (hloc : w.files.locate .target path = .ok place) (hat : w.files.at? place = some (.file old))

include hwrite hloc hat

/-- A file is overwritten, or the tree is left as it is. -/
theorem exists_run_writeOutcome (current : Text) (outcome : Outcome) :
    ∃ done w', (writeOutcome World.host write path current outcome).run w = (done, w') ∧
      (w'.files = w.files ∨ ∃ content, w'.files = .set (.file content) place w.files) := by
  cases ha : accepts path with
  | true =>
    obtain ⟨said, hrun⟩ := run_writeOutcome_accept hwrite ha hloc hat current outcome
    exact ⟨_, _, hrun, .inr ⟨_, rfl⟩⟩
  | false =>
    obtain ⟨said, hrun⟩ := run_writeOutcome_refuse hwrite ha w current outcome
    exact ⟨_, _, hrun, .inl rfl⟩

/-- In every mode a changed file is overwritten, or the tree is left as it is. -/
theorem exists_run_applyOutcome (mode : Mode) (current : Text) (outcome : Outcome) :
    ∃ done w', (applyOutcome World.host write mode path current outcome).run w = (done, w') ∧
      (w'.files = w.files ∨ ∃ content, w'.files = .set (.file content) place w.files) := by
  cases mode with
  | check => exact ⟨_, _, rfl, .inl rfl⟩
  | fix => exact exists_run_writeOutcome hwrite hloc hat current outcome
  | interactive =>
    rw [applyOutcome, World.run_bind, World.run_tell, World.run_bind, World.run_confirm]
    have hfiles := World.files_confirm
      { w with said := .wouldUpdate current outcome.fixes :: w.said }
    cases hanswer : World.confirm
      { w with said := .wouldUpdate current outcome.fixes :: w.said } with
    | mk answer w₁ =>
      rw [hanswer] at hfiles
      dsimp only at hfiles ⊢
      cases answer with
      | error reason => exact ⟨_, _, rfl, .inl hfiles⟩
      | ok agreed =>
        cases agreed with
        | false => exact ⟨_, _, rfl, .inl hfiles⟩
        | true =>
          rw [← hfiles] at hloc hat ⊢
          exact exists_run_writeOutcome hwrite hloc hat current outcome

/-- A file that has been read adds its issues and is counted, whatever is done about it. -/
theorem exists_run_settle (mode : Mode) (tally : Tally) (current : Text) (outcome : Outcome) :
    ∃ tally' w', (settle write mode tally path current outcome).run w = (tally', w') ∧
      tally'.issues = tally.issues ++ outcome.issues ∧ tally'.scanned = tally.scanned + 1 ∧
      (w'.files = w.files ∨ ∃ content, w'.files = .set (.file content) place w.files) := by
  unfold settle
  split
  · obtain ⟨done, w', hrun, hfiles⟩ :=
      exists_run_applyOutcome hwrite hloc hat mode current outcome
    rw [World.run_bind, hrun]
    cases done <;> exact ⟨_, _, rfl, rfl, rfl, hfiles⟩
  · exact ⟨_, _, rfl, rfl, rfl, .inl rfl⟩

end

variable (hwrite : Writes write accepts) (options : BatchOptions) (index : FileIndex)

include hwrite

/-- One file is gone through. -/
theorem passed_of_fixFile (tally : Tally) (path : RawPath) (w : World) :
    ∃ tally' w', (fixFile World.host write options index tally path
        (nameBelow options.root path)).run w = (tally', w') ∧
      Passed index options.root [path] w.files w'.files tally tally' := by
  cases h : w.files.readText path with
  | error failure =>
    exact ⟨_, _, run_fixFile_of_unread write options index tally _ h, passed_of_unread h⟩
  | ok source =>
    obtain ⟨place, hloc, hat⟩ := Node.read_eq_ok_iff.1 (Node.readText_eq_ok_iff.1 h)
    obtain ⟨said, hrun⟩ := run_fixFile options index tally (nameBelow options.root path) h
    obtain ⟨tally', w', hrun', hissues, hscanned, hfiles⟩ := exists_run_settle
      (w := { w with said }) hwrite hloc hat options.mode tally (nameBelow options.root path)
      (fixSource index (nameBelow options.root path) source)
    refine ⟨tally', w', (hrun write).trans hrun', ?_⟩
    rcases hfiles with hsame | ⟨content, hset⟩
    · rw [hsame]
      exact passed_of_unwritten h hissues hscanned
    · rw [hset]
      exact passed_of_written h hloc hat content hissues hscanned

/-- Files are gone through one after the other. -/
theorem passed_of_fixFiles (tally : Tally) (paths : List RawPath) (w : World)
    (hname : ∀ path ∈ paths, ∃ name, RawPath.relativeTo? options.root path = some name)
    (hapart : paths.Pairwise w.files.Apart) :
    ∃ tally' w', (fixFiles World.host write options index tally paths).run w = (.ok tally', w') ∧
      Passed index options.root paths w.files w'.files tally tally' := by
  induction paths generalizing tally w with
  | nil => exact ⟨tally, w, rfl, passed_nil⟩
  | cons path paths ih =>
    obtain ⟨name, hrel⟩ := hname path List.mem_cons_self
    obtain ⟨hfirst, hrest⟩ := List.pairwise_cons.1 hapart
    obtain ⟨tally₁, w₁, hrun₁, hpassed₁⟩ := passed_of_fixFile hwrite options index tally path w
    -- whatever has happened to the first file, the others are still different files
    obtain ⟨tally₂, w₂, hrun₂, hpassed₂⟩ := ih tally₁ w₁
      (fun p hp => hname p (List.mem_cons_of_mem path hp))
      (hrest.imp fun h => (Node.apart_congr hpassed₁.shape).2 h)
    refine ⟨tally₂, w₂, (run_fixFiles_cons hrel hrun₁ paths).trans hrun₂, ?_⟩
    exact hpassed₁.trans hpassed₂ (List.forall_mem_singleton.2 hfirst)

/-- A run in any mode goes through the files that its walk collects. -/
theorem passed_of_fixTreeWith {paths : List RawPath}
    (hcollect : w.files.collect options.filter options.root = .ok paths)
    (hname : ∀ path ∈ paths, ∃ name, RawPath.relativeTo? options.root path = some name)
    (hapart : paths.Pairwise w.files.Apart) :
    ∃ tally w', (fixTreeWith World.host write options).run w =
        (.ok (tally.report options.mode (indexBelow options.root paths).size w'.clock), w') ∧
      Passed (indexBelow options.root paths) options.root paths w.files w'.files {} tally := by
  obtain ⟨said, htree⟩ := run_fixTreeWith options hcollect hname
  obtain ⟨tally, w', hrun, hpassed⟩ := passed_of_fixFiles hwrite options
    (indexBelow options.root paths) {} paths { w with said } hname hapart
  exact ⟨tally, w', htree write tally w' hrun, hpassed⟩

end

/-! ## Modes that write nothing -/

/-- What going through the files at the given paths records if nothing is written. -/
structure Planned (mode : Mode) (index : FileIndex) (root : RawPath) (paths : List RawPath)
    (files : Node) (tally tally' : Tally) : Prop extends
    Passed index root paths files files tally tally' where
  fixes : tally'.fixes = tally.fixes ++
    if mode = .check then (outcomes index root files paths).flatMap (·.2.fixes) else []
  changed : tally'.changed = tally.changed

section

variable {mode : Mode} {index : FileIndex} {root : RawPath} {files : Node}

theorem Planned.trans {first rest : List RawPath} {t t' t'' : Tally}
    (h : Planned mode index root first files t t') (h' : Planned mode index root rest files t' t'')
    (hapart : ∀ p ∈ first, ∀ q ∈ rest, files.Apart p q) :
    Planned mode index root (first ++ rest) files t t'' := by
  refine ⟨h.toPassed.trans h'.toPassed hapart, ?_, h'.changed.trans h.changed⟩
  rw [h'.fixes, h.fixes, outcomes_append h.toPassed hapart, List.append_assoc]
  split
  · rw [List.flatMap_append]
  · rfl

variable {path : RawPath} {source : Text} {tally : Tally}

theorem planned_of_unread {failure : Failure} (h : files.readText path = .error failure) :
    Planned mode index root [path] files tally tally :=
  ⟨passed_of_unread h, by simp [outcomes_unread h], rfl⟩

theorem planned_of_unchanged (h : files.readText path = .ok source)
    (hunchanged : (fixSource index (nameBelow root path) source).changed = false) :
    Planned mode index root [path] files tally
      (tally.scan (fixSource index (nameBelow root path) source)) := by
  refine ⟨passed_of_unwritten h rfl rfl, ?_, rfl⟩
  have hnone : (fixSource index (nameBelow root path) source).fixes = [] := by
    simpa [Outcome.changed] using hunchanged
  simp [outcomes_singleton h, hnone, Tally.scan]

theorem planned_of_changed (h : files.readText path = .ok source) :
    Planned mode index root [path] files tally
      (if mode = .check then
        (tally.scan (fixSource index (nameBelow root path) source)).record mode
          (fixSource index (nameBelow root path) source)
      else tally.scan (fixSource index (nameBelow root path) source)) := by
  split
  · next hmode =>
    exact ⟨passed_of_unwritten h rfl rfl,
      by simp [outcomes_singleton h, Tally.scan, Tally.record, hmode],
      by simp [Tally.scan, Tally.record, hmode]⟩
  · next hmode =>
    exact ⟨passed_of_unwritten h rfl rfl, by simp [Tally.scan, hmode], rfl⟩

end

section

variable {w : World}

/-- Without leave to write, the fixes of a changed file are recorded in mode `check` only. -/
theorem exists_run_applyOutcome_of_quiet {mode : Mode} (h : w.Quiet mode) (path : RawPath)
    (current : Text) (outcome : Outcome) :
    ∃ w', (∀ write, (applyOutcome World.host write mode path current outcome).run w =
        (decide (mode = .check), w')) ∧ w'.files = w.files ∧ w'.Quiet mode := by
  rcases h with rfl | ⟨rfl, hunanswered⟩
  · exact ⟨_, fun _ => rfl, rfl, .inl rfl⟩
  · obtain ⟨reason, w', hconfirm, hfiles, hstill⟩ := World.exists_confirm_of_unanswered
      (w := { w with said := .wouldUpdate current outcome.fixes :: w.said }) hunanswered
    refine ⟨{ w' with said := .promptFailed current reason :: w'.said }, fun write => ?_, hfiles,
      .inr ⟨rfl, hstill⟩⟩
    rw [applyOutcome, World.run_bind, World.run_tell, World.run_bind, World.run_confirm, hconfirm]
    rfl

variable (options : BatchOptions) (index : FileIndex)

/-- One file is gone through without a call of the writer. -/
theorem planned_of_fixFile (hquiet : w.Quiet options.mode) (tally : Tally) (path : RawPath) :
    ∃ tally' w', (∀ write, (fixFile World.host write options index tally path
        (nameBelow options.root path)).run w = (tally', w')) ∧
      w'.files = w.files ∧ w'.Quiet options.mode ∧
      Planned options.mode index options.root [path] w.files tally tally' := by
  cases h : w.files.readText path with
  | error failure =>
    exact ⟨_, _, fun write => run_fixFile_of_unread write options index tally _ h, rfl, hquiet,
      planned_of_unread h⟩
  | ok source =>
    obtain ⟨said, hrun⟩ := run_fixFile options index tally (nameBelow options.root path) h
    cases hchanged : (fixSource index (nameBelow options.root path) source).changed with
    | false =>
      refine ⟨_, { w with said }, fun write => ?_, rfl, hquiet, planned_of_unchanged h hchanged⟩
      rw [hrun write, settle, hchanged]
      rfl
    | true =>
      obtain ⟨w', hrun', hfiles, hstill⟩ := exists_run_applyOutcome_of_quiet
        (w := { w with said }) hquiet path (nameBelow options.root path)
        (fixSource index (nameBelow options.root path) source)
      -- the tally is named by the mode, as the writer may not occur in it
      refine ⟨_, w', fun write => ?_, hfiles, hstill, planned_of_changed h⟩
      rw [hrun write, settle, hchanged, if_pos rfl, World.run_bind, hrun' write]
      by_cases hmode : options.mode = .check <;> simp only [hmode] <;> rfl

/-- Files are gone through one after the other without a call of the writer. -/
theorem planned_of_fixFiles (hquiet : w.Quiet options.mode) (tally : Tally)
    (paths : List RawPath)
    (hname : ∀ path ∈ paths, ∃ name, RawPath.relativeTo? options.root path = some name)
    (hapart : paths.Pairwise w.files.Apart) :
    ∃ tally' w', (∀ write, (fixFiles World.host write options index tally paths).run w =
        (.ok tally', w')) ∧ w'.files = w.files ∧
      Planned options.mode index options.root paths w.files tally tally' := by
  induction paths generalizing tally w with
  | nil => exact ⟨tally, w, fun _ => rfl, rfl, ⟨passed_nil, by simp [outcomes], rfl⟩⟩
  | cons path paths ih =>
    obtain ⟨name, hrel⟩ := hname path List.mem_cons_self
    obtain ⟨hfirst, hrest⟩ := List.pairwise_cons.1 hapart
    obtain ⟨tally₁, w₁, hrun₁, hfiles₁, hquiet₁, hplanned₁⟩ :=
      planned_of_fixFile options index hquiet tally path
    obtain ⟨tally₂, w₂, hrun₂, hfiles₂, hplanned₂⟩ := ih hquiet₁ tally₁
      (fun p hp => hname p (List.mem_cons_of_mem path hp)) (by rwa [hfiles₁])
    rw [hfiles₁] at hfiles₂ hplanned₂
    exact ⟨tally₂, w₂, fun write => (run_fixFiles_cons hrel (hrun₁ write) paths).trans (hrun₂ write),
      hfiles₂, hplanned₁.trans hplanned₂ (List.forall_mem_singleton.2 hfirst)⟩

/-- A quiet run plans what is to be done about the files that its walk collects. -/
theorem planned_of_fixTreeWith (hquiet : w.Quiet options.mode) {paths : List RawPath}
    (hcollect : w.files.collect options.filter options.root = .ok paths)
    (hname : ∀ path ∈ paths, ∃ name, RawPath.relativeTo? options.root path = some name)
    (hapart : paths.Pairwise w.files.Apart) :
    ∃ tally w', (∀ write, (fixTreeWith World.host write options).run w =
        (.ok (tally.report options.mode (indexBelow options.root paths).size w'.clock), w')) ∧
      w'.files = w.files ∧
      Planned options.mode (indexBelow options.root paths) options.root paths w.files {} tally := by
  obtain ⟨said, htree⟩ := run_fixTreeWith options hcollect hname
  obtain ⟨tally, w', hrun, hfiles, hplanned⟩ := planned_of_fixFiles (w := { w with said })
    options (indexBelow options.root paths) hquiet {} paths hname hapart
  exact ⟨tally, w', fun write => htree write tally w' (hrun write), hfiles, hplanned⟩

/-- The runs from one world, in all modes and with all writers. If the walk fails, so do they all, and
the tree is left as it is. Otherwise a run in mode `check` has the fixes of the one in mode `fix` that
can write all files, and every run has its issues and its counts of the indexed and scanned files.
It writes nothing and has the same result for all writers, which are therefore not called. The same
goes for a run in mode `interactive` in which all questions fail, and that one has no fixes. -/
theorem fixTreeWith_check_foretells (options : BatchOptions) {w : World}
    (hfiles : w.files.WellFormed) :
    (∃ failure w', w'.files = w.files ∧ ∀ mode write,
      (fixTreeWith World.host write { options with mode }).run w = (.error failure, w')) ∨
    ∃ check w₁,
      (∀ write, (fixTreeWith World.host write { options with mode := .check }).run w =
        (.ok check, w₁)) ∧
      w₁.files = w.files ∧ check.counts.filesChanged = 0 ∧
      (∃ fixed w₂, (fixTree World.host { options with mode := .fix }).run w = (.ok fixed, w₂) ∧
        check.fixes = fixed.fixes) ∧
      (∀ mode accepts write, Writes write accepts →
        ∃ report w₂, (fixTreeWith World.host write { options with mode }).run w =
            (.ok report, w₂) ∧
          report.issues = check.issues ∧
          report.counts.filesIndexed = check.counts.filesIndexed ∧
          report.counts.filesScanned = check.counts.filesScanned ∧
          (report.dryRun = true ↔ mode = .check)) ∧
      (w.Unanswered →
        ∃ asked w₂, (∀ write, (fixTreeWith World.host write
            { options with mode := .interactive }).run w = (.ok asked, w₂)) ∧
          w₂.files = w.files ∧ asked.fixes = [] ∧ asked.counts.filesChanged = 0) := by
  cases hcollect : w.files.collect options.filter options.root with
  | error e =>
    exact .inl ⟨.cannotWalk options.root e, { w with said := .indexing options.root :: w.said },
      rfl, fun mode write => run_fixTreeWith_eq_error { options with mode } write hcollect⟩
  | ok paths =>
    have hname := Node.exists_relativeTo?_of_collect hfiles hcollect
    have hapart := Node.pairwise_apart_of_collect hfiles hcollect
    obtain ⟨tally, w₁, hcheck, hsame, hplanned⟩ :=
      planned_of_fixTreeWith { options with mode := .check } (.inl rfl) hcollect hname hapart
    refine .inr ⟨_, w₁, hcheck, hsame, hplanned.changed, ?_, ?_, ?_⟩
    · obtain ⟨tally', w₂, hrun, hfixed⟩ := @fixed_of_fixTreeWith _ _
        { options with mode := .fix } _ _ writes_overwrite rfl hcollect hname hapart
      refine ⟨_, w₂, hrun, hplanned.fixes.trans (Eq.trans ?_ hfixed.fixes.symm)⟩
      rw [if_pos rfl, List.filter_true]
    · intro mode accepts write hwrite
      obtain ⟨tally', w₂, hrun, hpassed⟩ :=
        passed_of_fixTreeWith hwrite { options with mode } hcollect hname hapart
      exact ⟨_, w₂, hrun, hpassed.issues.trans hplanned.issues.symm, rfl,
        hpassed.scanned.trans hplanned.scanned.symm, by simp [Tally.report, Report.assemble]⟩
    · intro hunanswered
      obtain ⟨tally', w₂, hrun, hsame', hplanned'⟩ := planned_of_fixTreeWith
        { options with mode := .interactive } (.inr ⟨rfl, hunanswered⟩) hcollect hname hapart
      exact ⟨_, w₂, hrun, hsame', hplanned'.fixes, hplanned'.changed⟩

end

/-- The sample tree has one specifier to be fixed, which is planned in mode `check`, written in mode
`fix`, and left alone in mode `interactive`, as there is no terminal. -/
theorem fixTreeWith_check_foretells_sample : ∃ check fixed asked w₁ w₂ w₃,
    (fixTree World.host { sampleOptions with mode := .check }).run sampleWorld =
      (.ok check, w₁) ∧
    (fixTree World.host { sampleOptions with mode := .fix }).run sampleWorld =
      (.ok fixed, w₂) ∧
    (fixTree World.host { sampleOptions with mode := .interactive }).run sampleWorld =
      (.ok asked, w₃) ∧
    check.fixes.length = 1 ∧ fixed.fixes = check.fixes ∧ asked.fixes = [] ∧
    w₁.files = sampleWorld.files ∧ w₃.files = sampleWorld.files := by
  have hfix : ((fixTree World.host { sampleOptions with mode := .check }).run
      sampleWorld).1.toOption.map (·.fixes.length) = some 1 := by
    decide +kernel
  have hunanswered : sampleWorld.Unanswered := fun keys h => by cases h
  obtain ⟨failure, w', -, hrun⟩ | ⟨check, w₁, hcheck, hsame, -, hfixed, -, hasked⟩ :=
    fixTreeWith_check_foretells sampleOptions wellFormed_sample
  · rw [fixTree, hrun .check] at hfix
    cases hfix
  · obtain ⟨fixed, w₂, hfixed, heq⟩ := hfixed
    obtain ⟨asked, w₃, hasked, hsame', hnone, -⟩ := hasked hunanswered
    rw [fixTree, hcheck] at hfix
    exact ⟨check, fixed, asked, w₁, w₂, w₃, hcheck _, hfixed, hasked _, Option.some.inj hfix,
      heq.symm, hnone, hsame, hsame'⟩

end TrueCase

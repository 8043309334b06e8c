import TrueCase.Proofs.Batch.Run

/-!
# Hosts with an order of their own

A host may walk a tree in an order that changes from one walk to the next, and its user may decide
by what is asked. A run on such a host goes through its files one after the other: it tallies each
file that it can read, and rewrites the tree. As no two paths name the same file, each of them is
read as it was at the start.

## Main definitions

* `World.hostWith`: a host that walks in an order of its own, and whose user decides by what is
  asked.
* `Rules.approves`: whether the fixes of a file are recorded.
* `Rules.tally`, `Rules.rewrite`: what a run records of a file that it has read, and the tree that
  it leaves.

## Main statements

* `Rules.run_fixFile`, `Rules.run_fixFiles`: a run as a fold over the files that it can read.
* `run_fixTreeWith_noAnswers`: the host of the world is one of these, where no keys are read.
-/

namespace TrueCase

/-! ## Hosts with an order of their own -/

/-- What a walk yields. It may depend on all of the world, so two walks of a run may differ. -/
abbrev Walk := World → RawPath → Filter → Except WalkError (List RawPath)

/-- What a user says to the question whether the given fixes of a file are to be written. An answer
that cannot be had comes with the reason. -/
abbrev Answers := Text → List FixRecord → Except Text Bool

namespace World

/-- The answer to the question that has just been asked. -/
def reply (answers : Answers) (w : World) : Except Text Bool :=
  match w.said with
  | .wouldUpdate current fixes :: _ => answers current fixes
  | _ => .ok false

/-- The host that works on a world and walks by `walk`. Its user decides by what is asked, and not
by how many questions there have been: the keys that wait at the terminal of the world are not read,
and nothing ties the answers to them. -/
def hostWith (walk : Walk) (answers : Answers) : Host (StateM World) where
  collect root filter := do return walk (← get) root filter
  read := host.read
  write := host.write
  confirm := do return (← get).reply answers
  tell := host.tell
  now := host.now

variable (walk : Walk) (answers : Answers) (w : World)

@[simp] theorem run_readText_hostWith (path : RawPath) :
    ((hostWith walk answers).readText path).run w = (w.files.readText path, w) :=
  run_readText w path

theorem tellAll_hostWith : (hostWith walk answers).tellAll = host.tellAll := by
  funext messages
  induction messages with
  | nil => rfl
  | cons message messages ih =>
    rw [Host.tellAll, Host.tellAll, ih]
    rfl

@[simp] theorem run_tell_hostWith (message : Message) :
    ((hostWith walk answers).tell message).run w = ((), { w with said := message :: w.said }) := rfl

@[simp] theorem run_confirm_hostWith :
    (hostWith walk answers).confirm.run w = (w.reply answers, w) := rfl

theorem run_sourceFiles_hostWith (root : RawPath) (filter : Filter) :
    ((hostWith walk answers).sourceFiles root filter).run w =
      ((walk w root filter).mapError (.cannotWalk root), w) := rfl

end World

/-! ## What is done about a file -/

/-- What decides about the files of a run: its options, the user, and the writer. -/
structure Rules where
  options : BatchOptions
  answers : Answers
  accepts : RawPath → Bool

namespace Rules

/-- Whether the fixes of a file are recorded: there are some, and neither the user nor the writer
refuses them. -/
def approves (rules : Rules) (o : RawPath × Outcome) : Bool :=
  o.2.changed &&
    match rules.options.mode with
    | .check => true
    | .fix => rules.accepts o.1
    | .interactive =>
      match rules.answers (nameBelow rules.options.root o.1) o.2.fixes with
      | .ok true => rules.accepts o.1
      | _ => false

/-- The tally with a file that has been read. -/
def tally (rules : Rules) (t : Tally) (o : RawPath × Outcome) : Tally :=
  if rules.approves o then (t.scan o.2).record rules.options.mode o.2 else t.scan o.2

/-- The tree after a file that has been read is dealt with. -/
def rewrite (rules : Rules) (files : Node) (o : RawPath × Outcome) : Node :=
  if rules.options.mode ≠ .check ∧ rules.approves o = true then
    match files.locate .target o.1 with
    | .ok place => .set (.file (Utf8.encode o.2.content)) place files
    | .error _ => files
  else files

variable (rules : Rules) {o : RawPath × Outcome} {files : Node} {place : Place}

theorem rewrite_of_approves (hmode : rules.options.mode ≠ .check)
    (happroves : rules.approves o = true) (hloc : files.locate .target o.1 = .ok place) :
    rules.rewrite files o = .set (.file (Utf8.encode o.2.content)) place files := by
  rw [rewrite, if_pos ⟨hmode, happroves⟩, hloc]

theorem rewrite_of_not_approves (h : rules.approves o = false) : rules.rewrite files o = files :=
  if_neg fun hboth => by simp [h] at hboth

theorem rewrite_of_check (h : rules.options.mode = .check) : rules.rewrite files o = files :=
  if_neg fun hboth => hboth.1 h

variable (walk : Walk) (index : FileIndex) {write : Writer (StateM World)}
  (hwrite : Writes write rules.accepts) {w : World}

include hwrite

/-- A changed file for which only the writer has to be asked. -/
theorem run_writeOutcome {old : Bytes} (hloc : w.files.locate .target o.1 = .ok place)
    (hat : w.files.at? place = some (.file old)) (hmode : rules.options.mode ≠ .check)
    (happroves : rules.approves o = rules.accepts o.1) (current : Text) :
    ∃ said, (writeOutcome (World.hostWith walk rules.answers) write o.1 current o.2).run w =
      (rules.approves o, { w with files := rules.rewrite w.files o, said }) := by
  cases ha : rules.accepts o.1 with
  | true =>
    rw [rules.rewrite_of_approves hmode (happroves.trans ha) hloc, happroves, ha]
    exact run_writeOutcome_accept hwrite ha hloc hat current o.2
  | false =>
    rw [rules.rewrite_of_not_approves (happroves.trans ha), happroves, ha]
    exact run_writeOutcome_refuse hwrite ha w current o.2

theorem run_applyOutcome {old : Bytes} (hloc : w.files.locate .target o.1 = .ok place)
    (hat : w.files.at? place = some (.file old)) (hchanged : o.2.changed = true) :
    ∃ said, (applyOutcome (World.hostWith walk rules.answers) write rules.options.mode o.1
        (nameBelow rules.options.root o.1) o.2).run w =
      (rules.approves o, { w with files := rules.rewrite w.files o, said }) := by
  cases hmode : rules.options.mode with
  | check =>
    have happroves : rules.approves o = true := by simp [approves, hchanged, hmode]
    rw [rules.rewrite_of_check hmode, happroves]
    exact ⟨_, rfl⟩
  | fix =>
    exact rules.run_writeOutcome walk hwrite hloc hat (by simp [hmode])
      (by simp [approves, hchanged, hmode]) _
  | interactive =>
    rw [applyOutcome, World.run_bind, World.run_tell_hostWith, World.run_bind,
      World.run_confirm_hostWith, World.reply]
    dsimp only
    cases hanswer : rules.answers (nameBelow rules.options.root o.1) o.2.fixes with
    | error reason =>
      have happroves : rules.approves o = false := by simp [approves, hmode, hanswer]
      rw [rules.rewrite_of_not_approves happroves, happroves]
      exact ⟨_, rfl⟩
    | ok agreed =>
      cases agreed with
      | false =>
        have happroves : rules.approves o = false := by simp [approves, hmode, hanswer]
        rw [rules.rewrite_of_not_approves happroves, happroves]
        exact ⟨_, rfl⟩
      | true =>
        have happroves : rules.approves o = rules.accepts o.1 := by
          simp [approves, hchanged, hmode, hanswer]
        let said₁ : List Message :=
          .wouldUpdate (nameBelow rules.options.root o.1) o.2.fixes :: w.said
        exact rules.run_writeOutcome walk hwrite (w := { w with said := said₁ }) hloc hat
          (by simp [hmode]) happroves _

omit hwrite

theorem run_fixFile_of_unread (write : Writer (StateM World)) (t : Tally) {path : RawPath}
    (current : Text) {failure : Failure} (h : w.files.readText path = .error failure) :
    (fixFile (World.hostWith walk rules.answers) write rules.options index t path current).run w =
      (t, { w with said := .warning failure :: w.said }) := by
  simp only [fixFile, World.run_bind, World.run_readText_hostWith, h]
  rfl

include hwrite

/-- The step of a run: a file that can be read is tallied, and the tree is rewritten. -/
theorem run_fixFile (t : Tally) {path : RawPath} {source : Text}
    (h : w.files.readText path = .ok source) :
    let o := (path, fixSource index (nameBelow rules.options.root path) source)
    ∃ said, (fixFile (World.hostWith walk rules.answers) write rules.options index t path
        (nameBelow rules.options.root path)).run w =
      (rules.tally t o, { w with files := rules.rewrite w.files o, said }) := by
  intro o
  obtain ⟨place, hloc, hat⟩ := Node.read_eq_ok_iff.1 (Node.readText_eq_ok_iff.1 h)
  -- what has been said before the file is dealt with does not matter
  have hdeal (said₀ : List Message) : ∃ said, (do
      if o.2.changed then
        if ← applyOutcome (World.hostWith walk rules.answers) write rules.options.mode path
            (nameBelow rules.options.root path) o.2 then
          return (t.scan o.2).record rules.options.mode o.2
      return t.scan o.2 : StateM World Tally).run { w with said := said₀ } =
        (rules.tally t o, { w with files := rules.rewrite w.files o, said }) := by
    cases hchanged : o.2.changed with
    | false =>
      have happroves : rules.approves o = false := by simp [approves, hchanged]
      rw [rules.rewrite_of_not_approves happroves, tally, happroves]
      exact ⟨_, rfl⟩
    | true =>
      obtain ⟨said, hrun⟩ := rules.run_applyOutcome (w := { w with said := said₀ }) walk hwrite
        hloc hat hchanged
      refine ⟨said, ?_⟩
      rw [if_pos rfl, World.run_bind, hrun, tally]
      cases rules.approves o <;> rfl
  unfold fixFile
  simp only [World.run_bind, World.run_readText_hostWith, World.tellAll_hostWith, h]
  split
  · simp only [World.run_bind, World.run_tellAll]
    exact hdeal _
  · exact hdeal _

end Rules

/-! ## One file after the other -/

/-- A file stands where the path leads. -/
def Node.NamesFile (top : Node) (path : RawPath) : Prop :=
  ∃ place, top.locate .target path = .ok place ∧ top.shape.at? place = some (.file [])

theorem Node.namesFile_congr {top top' : Node} (h : top.shape = top'.shape) {path : RawPath} :
    top.NamesFile path ↔ top'.NamesFile path := by
  simp only [NamesFile, h, locate_congr h]

theorem Node.namesFile_of_readText {top : Node} {path : RawPath} {source : Text}
    (h : top.readText path = .ok source) : top.NamesFile path := by
  obtain ⟨place, hloc, hat⟩ := read_eq_ok_iff.1 (readText_eq_ok_iff.1 h)
  exact ⟨place, hloc, at?_shape_eq_file_iff.2 ⟨_, hat⟩⟩

namespace Rules

variable (rules : Rules)

section

variable {files : Node} {o o' : RawPath × Outcome}

/-- Whether a file is rewritten does not depend on the tree. -/
theorem rewrite_cases (o : RawPath × Outcome) : (∀ files, rules.rewrite files o = files) ∨
    ∀ files place, files.locate .target o.1 = .ok place →
      rules.rewrite files o = .set (.file (Utf8.encode o.2.content)) place files := by
  by_cases hmode : rules.options.mode = .check
  · exact .inl fun _ => rules.rewrite_of_check hmode
  · cases happroves : rules.approves o with
    | false => exact .inl fun _ => rules.rewrite_of_not_approves happroves
    | true => exact .inr fun _ _ hloc => rules.rewrite_of_approves hmode happroves hloc

theorem shape_rewrite (h : files.NamesFile o.1) : (rules.rewrite files o).shape = files.shape := by
  obtain ⟨place, hloc, hshape⟩ := h
  obtain ⟨old, hat⟩ := Node.at?_shape_eq_file_iff.1 hshape
  obtain hsame | hset := rules.rewrite_cases o
  · rw [hsame]
  · rw [hset files place hloc, Node.shape_set hat]

/-- What is done about a file does not change what is read at the path of another. -/
theorem read_rewrite (h : files.NamesFile o.1) {path : RawPath} (hapart : files.Apart o.1 path) :
    (rules.rewrite files o).read path = files.read path := by
  obtain ⟨place, hloc, hshape⟩ := h
  obtain ⟨old, hat⟩ := Node.at?_shape_eq_file_iff.1 hshape
  obtain hsame | hset := rules.rewrite_cases o
  · rw [hsame]
  · rw [hset files place hloc]
    exact Node.read_set_of_ne (fun hpath => hapart place hshape ⟨hloc, hpath⟩) hat _

end

/-- A run goes through its files by tallying those that it can read and rewriting the tree. -/
theorem run_fixFiles (walk : Walk) (index : FileIndex) {write : Writer (StateM World)}
    (hwrite : Writes write rules.accepts) (t : Tally) (paths : List RawPath) (w : World)
    (hname : ∀ path ∈ paths, ∃ name, RawPath.relativeTo? rules.options.root path = some name)
    (hapart : paths.Pairwise w.files.Apart) :
    let read := outcomes index rules.options.root w.files paths
    ∃ said, (fixFiles (World.hostWith walk rules.answers) write rules.options index t paths).run w =
      (.ok (read.foldl rules.tally t),
        { w with files := read.foldl rules.rewrite w.files, said }) := by
  induction paths generalizing t w with
  | nil => exact ⟨w.said, rfl⟩
  | cons path paths ih =>
    obtain ⟨⟨name, hrel⟩, hnames⟩ := List.forall_mem_cons.1 hname
    obtain ⟨hfirst, hrest⟩ := List.pairwise_cons.1 hapart
    have hcons : outcomes index rules.options.root w.files (path :: paths) =
        outcomes index rules.options.root w.files [path] ++
          outcomes index rules.options.root w.files paths :=
      List.filterMap_append (l := [path])
    rw [hcons]
    cases hread : w.files.readText path with
    | error failure =>
      rw [outcomes_unread hread, run_fixFiles_cons hrel
        (rules.run_fixFile_of_unread walk index write t (nameBelow rules.options.root path) hread)]
      exact ih t { w with said := .warning failure :: w.said } hnames hrest
    | ok source =>
      obtain ⟨said₁, hrun⟩ := rules.run_fixFile walk index hwrite t hread
      rw [outcomes_singleton hread, run_fixFiles_cons hrel hrun, List.singleton_append]
      generalize ho : (path, fixSource index (nameBelow rules.options.root path) source) = o
      obtain rfl : o.1 = path := by rw [← ho]
      have hfile : w.files.NamesFile o.1 := Node.namesFile_of_readText hread
      -- the other files are read as they were at the start
      have hothers : ∀ q ∈ paths, w.files.readText q = (rules.rewrite w.files o).readText q :=
        fun q hq => (Node.readText_congr (rules.read_rewrite hfile (hfirst q hq))).symm
      rw [outcomes_congr hothers]
      exact ih (rules.tally t o) { w with files := rules.rewrite w.files o, said := said₁ } hnames
        (hrest.imp (Node.apart_congr (rules.shape_rewrite hfile)).2)

end Rules

/-! ## The order of the directories -/

namespace World

/-- The walk in the order in which the directories list their entries. -/
def inOrder : Walk := fun w root filter => w.files.collect filter root

/-- The answers where there is no terminal. -/
def noAnswers : Answers := fun _ _ => .error Prompt.noTerminal

end World

section

variable (options : BatchOptions) {accepts : RawPath → Bool} {write : Writer (StateM World)}
  {w : World}

theorem run_applyOutcome_noAnswers (write : Writer (StateM World)) (mode : Mode) (path : RawPath)
    (current : Text) (outcome : Outcome) (hkeys : mode = .interactive → w.keys = none) :
    (applyOutcome (World.hostWith World.inOrder World.noAnswers) write mode path current
        outcome).run w =
      (applyOutcome World.host write mode path current outcome).run w := by
  cases mode with
  | check => rfl
  | fix => rfl
  | interactive =>
    have hconfirm : (World.host.confirm).run
        { w with said := .wouldUpdate current outcome.fixes :: w.said } =
          (.error Prompt.noTerminal,
            { w with said := .wouldUpdate current outcome.fixes :: w.said }) := by
      change World.confirm _ = _
      rw [World.confirm, hkeys rfl]
    simp only [applyOutcome, World.run_bind, World.run_tell, World.run_tell_hostWith, hconfirm,
      World.run_confirm_hostWith, World.reply, World.noAnswers]

theorem run_fixFile_noAnswers (write : Writer (StateM World)) (index : FileIndex) (t : Tally)
    (path : RawPath) (current : Text) (hkeys : options.mode = .interactive → w.keys = none) :
    (fixFile (World.hostWith World.inOrder World.noAnswers) write options index t path
        current).run w =
      (fixFile World.host write options index t path current).run w := by
  unfold fixFile
  simp only [World.run_bind, World.run_readText, World.run_readText_hostWith,
    World.tellAll_hostWith]
  cases w.files.readText path with
  | error failure => rfl
  | ok source =>
    have happly (said : List Message) := run_applyOutcome_noAnswers (w := { w with said }) write
      options.mode path current (fixSource index current source) hkeys
    dsimp only
    split
    · simp only [World.run_bind, World.run_tellAll]
      split
      · simp only [World.run_bind, happly]
      · rfl
    · split
      · simp only [World.run_bind, happly]
      · rfl

variable (hwrite : Writes write accepts)

include hwrite

theorem run_fixFiles_noAnswers (index : FileIndex) (t : Tally) (paths : List RawPath) (w : World)
    (hname : ∀ path ∈ paths, ∃ name, RawPath.relativeTo? options.root path = some name)
    (hkeys : options.mode = .interactive → w.keys = none) :
    (fixFiles (World.hostWith World.inOrder World.noAnswers) write options index t paths).run w =
      (fixFiles World.host write options index t paths).run w := by
  induction paths generalizing t w with
  | nil => rfl
  | cons path paths ih =>
    obtain ⟨⟨name, hrel⟩, hnames⟩ := List.forall_mem_cons.1 hname
    -- the step takes no keys from the terminal
    have hstep : ∃ t' files said, (fixFile (World.hostWith World.inOrder World.noAnswers) write
        options index t path (nameBelow options.root path)).run w =
          (t', { w with files, said }) := by
      let rules : Rules := ⟨options, World.noAnswers, accepts⟩
      cases hread : w.files.readText path with
      | error failure => exact ⟨_, _, _, rules.run_fixFile_of_unread _ index write t _ hread⟩
      | ok source =>
        obtain ⟨said, hrun⟩ := rules.run_fixFile World.inOrder index hwrite t hread
        exact ⟨_, _, said, hrun⟩
    obtain ⟨t', files, said, hrun⟩ := hstep
    have hrun' := (run_fixFile_noAnswers options write index t path _ hkeys).symm.trans hrun
    rw [run_fixFiles_cons hrel hrun, run_fixFiles_cons hrel hrun']
    exact ih t' { w with files, said } hnames hkeys

/-- Where no question gets an answer, the world has its own host among these. -/
theorem run_fixTreeWith_noAnswers (hkeys : options.mode = .interactive → w.keys = none) :
    (fixTreeWith (World.hostWith World.inOrder World.noAnswers) write options).run w =
      (fixTreeWith World.host write options).run w := by
  unfold fixTreeWith
  simp only [World.run_bind, World.run_tell, World.run_tell_hostWith, World.run_sourceFiles,
    World.run_sourceFiles_hostWith, World.inOrder]
  cases hcollect : w.files.collect options.filter options.root with
  | error e => rfl
  | ok paths =>
    have hname := Node.exists_relativeTo?_of_mem_collect hcollect
    simp only [Except.mapError, Except.bind, indexOf_eq hname, World.run_bind, World.run_tell,
      World.run_tell_hostWith, World.run_sourceFiles, World.run_sourceFiles_hostWith,
      World.inOrder, hcollect]
    rw [run_fixFiles_noAnswers options hwrite _ _ paths
      { w with said := _ :: _ :: _ :: w.said } hname hkeys]
    rfl

end

end TrueCase

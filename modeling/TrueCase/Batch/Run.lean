import TrueCase.Batch.Host

/-!
# Running over a tree

A run indexes the source files below a root, then walks them again and fixes each in turn. A file
that cannot be read or written is passed over with a warning. The fixes of a file are recorded only
once they are written, or planned in a run that writes nothing.

## Main definitions

* `indexOf`: the index of the files that a walk has collected.
* `fixTree`: fixes the files below a root, and gives the report.
* `runBatch`: does so, prints the summary and saves the report.
-/

namespace TrueCase

/-- How fixed sources are dealt with. -/
inductive Mode where
  /-- Write every changed file. -/
  | fix
  /-- Ask before each changed file is written. -/
  | interactive
  /-- Write nothing. -/
  | check
  deriving DecidableEq, Repr

/-- What a run works on, and how. -/
structure BatchOptions where
  root : RawPath
  filter : Filter
  mode : Mode
  verbose : Bool
  deriving DecidableEq, Repr

/-- The way in which changed files are written. -/
abbrev Writer (m : Type → Type) := RawPath → Text → m (Except Failure Unit)

/-- The path of a collected file relative to the root. -/
def relativePath (root path : RawPath) : Except Failure Text :=
  match RawPath.relativeTo? root path with
  | some relative => .ok relative
  | none => .error (.notUnder root path)

/-- The entry of a collected file. -/
def entryOf (root path : RawPath) : Except Failure FileEntry := do
  let actual ← relativePath root path
  return {
    key := Text.lower actual
    actualPath := actual
    fullPath := path
    fileName := ((RawPath.fileName? path).map Utf8.lossy).getD [] }

/-- The index of the files that a walk from `root` has collected. Of files with the same key the
last one counts. -/
def indexOf (root : RawPath) (paths : List RawPath) : Except Failure FileIndex := do
  return FileIndex.ofList (← paths.mapM (entryOf root))

/-- What a run has to show for the files that it is done with. -/
structure Tally where
  fixes : List FixRecord := []
  issues : List IssueRecord := []
  scanned : Nat := 0
  changed : Nat := 0
  deriving DecidableEq, Repr

/-- The tally with a file whose text has been read. -/
def Tally.scan (tally : Tally) (outcome : Outcome) : Tally :=
  { tally with issues := tally.issues ++ outcome.issues, scanned := tally.scanned + 1 }

/-- The tally with the fixes of a file, which may have been written or only planned. -/
def Tally.record (tally : Tally) (mode : Mode) (outcome : Outcome) : Tally :=
  { tally with
    fixes := tally.fixes ++ outcome.fixes
    changed := if mode = .check then tally.changed else tally.changed + 1 }

/-- The report of a run that indexed the given number of files. -/
def Tally.report (tally : Tally) (mode : Mode) (indexed : Nat) (timestamp : Text) : Report :=
  Report.assemble timestamp tally.fixes tally.issues
    { filesIndexed := indexed, filesScanned := tally.scanned, filesChanged := tally.changed }
    (mode = .check)

section

variable {m : Type → Type} [Monad m] (host : Host m) (write : Writer m)

/-- Write a changed file. Says whether that has been done. -/
def writeOutcome (path : RawPath) (current : Text) (outcome : Outcome) : m Bool := do
  match ← write path outcome.content with
  | .ok () =>
    host.tell (.fixed current)
    return true
  | .error failure =>
    host.tell (.warning failure)
    return false

/-- Deal with a changed file. Says whether its fixes are to be recorded. -/
def applyOutcome (mode : Mode) (path : RawPath) (current : Text) (outcome : Outcome) : m Bool := do
  match mode with
  | .check =>
    host.tell (.wouldFix current)
    return true
  | .fix => writeOutcome host write path current outcome
  | .interactive =>
    host.tell (.wouldUpdate current outcome.fixes)
    match ← host.confirm with
    | .error reason =>
      host.tell (.promptFailed current reason)
      return false
    | .ok false =>
      host.tell .skipped
      return false
    | .ok true => writeOutcome host write path current outcome

/-- Fix one file. -/
def fixFile (options : BatchOptions) (index : FileIndex) (tally : Tally) (path : RawPath)
    (current : Text) : m Tally := do
  match ← host.readText path with
  | .error failure =>
    host.tell (.warning failure)
    return tally
  | .ok source =>
    let outcome := fixSource index current source
    if options.verbose then
      host.tellAll (outcome.fixes.map .foundFix ++ outcome.issues.map .foundIssue)
    let tally := tally.scan outcome
    if outcome.changed then
      if ← applyOutcome host write options.mode path current outcome then
        return tally.record options.mode outcome
    return tally

/-- Fix files one after the other. -/
def fixFiles (options : BatchOptions) (index : FileIndex) :
    Tally → List RawPath → m (Except Failure Tally)
  | tally, [] => return .ok tally
  | tally, path :: paths => do
    match relativePath options.root path with
    | .error failure => return .error failure
    | .ok current =>
      fixFiles options index (← fixFile host write options index tally path current) paths

/-- Fix the source files below the root, writing those that change by `write`. -/
def fixTreeWith (options : BatchOptions) : m (Except Failure Report) := do
  host.tell (.indexing options.root)
  match (← host.sourceFiles options.root options.filter).bind (indexOf options.root) with
  | .error failure => return .error failure
  | .ok index =>
    host.tell (.indexed index.size)
    host.tell .scanning
    match ← host.sourceFiles options.root options.filter with
    | .error failure => return .error failure
    | .ok paths =>
      match ← fixFiles host write options index {} paths with
      | .error failure => return .error failure
      | .ok tally => return .ok (tally.report options.mode index.size (← host.now))

/-- Fix the source files below the root. -/
def fixTree (options : BatchOptions) : m (Except Failure Report) :=
  fixTreeWith host host.overwrite options

/-- Fix the source files below the root, print the summary and save the report. -/
def runBatch (options : BatchOptions) (reportPath : RawPath) : m (Except Failure Report) := do
  match ← fixTree host options with
  | .error failure => return .error failure
  | .ok report =>
    host.tell (.summary report)
    match ← host.write reportPath report.document with
    | .error e => return .error (.cannotSaveReport reportPath e)
    | .ok () =>
      host.tell (.saved reportPath)
      if report.dryRun && !report.fixes.isEmpty then
        host.tell .applyHint
      return .ok report

end

end TrueCase

import TrueCase.Batch.Run
import TrueCase.CommandLine.Help
import TrueCase.CommandLine.Parse

/-!
# Carrying out a command line

## Main definitions

* `execute`: carries out a command on a host.
* `UsageError.output`, `UsageError.complaint`, `UsageError.exitCode`: what becomes of a command
  line that is not carried out.
-/

namespace TrueCase

section

variable {m : Type → Type} [Monad m] (host : Host m)

/-- Fix the tree, or plan to, and say so at the end. -/
def executeBatch (args : Args) (filter : Filter) (mode : Mode) : m (Except Failure Unit) := do
  let options : BatchOptions :=
    { root := RawPath.ofText args.root, filter, mode, verbose := args.verbose }
  match ← runBatch host options (RawPath.ofText args.report) with
  | .error failure => return .error failure
  | .ok _ =>
    host.tell .done
    return .ok ()

/-- List the source files. -/
def executeScan (args : Args) (filter : Filter) : m (Except Failure Unit) := do
  match ← host.sourceFiles (RawPath.ofText args.root) filter with
  | .error failure => return .error failure
  | .ok paths =>
    host.tell (.listing paths)
    return .ok ()

/-- Carry out a command. The patterns are read before anything else is done. -/
def execute (args : Args) : m (Except Failure Unit) := do
  match Filter.ofGlobs args.exclude with
  | .error (pattern, e) => return .error (.badPattern pattern e)
  | .ok filter =>
    match args.effective with
    | .fix false => executeBatch host args filter .fix
    | .fix true => executeBatch host args filter .interactive
    | .check => executeBatch host args filter .check
    | .scan => executeScan host args filter

end

namespace UsageError

/-- What is printed for a command line that asks for it. -/
def output (coloured : Bool) : UsageError → Text
  | displayHelp topic => topic.text coloured
  | displayVersion => versionText
  | _ => []

/-- What is said about a command line that makes no sense. -/
def complaint : UsageError → Text
  | displayHelp _ | displayVersion => []
  | unknownArgument => say "unexpected argument found"
  | invalidSubcommand => say "unrecognized subcommand"
  | invalidValue => say "a value is required for an option but none was supplied"
  | argumentConflict => say "an option cannot be used multiple times"
  | tooManyValues => say "unexpected value for an option that takes none"
where
  say (what : String) : Text :=
    "error: ".toList ++ what.toList ++ "\n\nFor more information, try '--help'.\n".toList

/-- The exit code. -/
def exitCode : UsageError → Nat
  | displayHelp _ | displayVersion => 0
  | _ => 2

end UsageError

end TrueCase

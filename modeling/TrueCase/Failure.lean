import TrueCase.FileSystem.Error
import TrueCase.Glob

/-!
# Failures

What can go wrong in a run, and how it is reported: the failure itself first, then its cause, then
the cause of that.

## Main definitions

* `Failure.chain`: the messages of a failure and of its causes.
* `Failure.line`: all of them on one line, for warnings.
* `Failure.report`: the report of a failure that ends the program.
-/

namespace TrueCase

/-- What can go wrong in a run. -/
inductive Failure where
  | badPattern (pattern : Text) (error : Glob.Error)
  | cannotWalk (root : RawPath) (error : WalkError)
  | notUnder (root path : RawPath)
  | cannotRead (path : RawPath) (error : FileError)
  | cannotWrite (path : RawPath) (error : FileError)
  | cannotSaveReport (path : RawPath) (error : FileError)
  /-- A failure that is known by its message only. -/
  | refused (message : Text)
  deriving DecidableEq, Repr

namespace Failure

/-- The message of a failure, followed by those of its causes. -/
def chain : Failure → List Text
  | badPattern pattern error =>
    ["Invalid exclude pattern '".toList ++ pattern ++ ['\''], error.message]
  | cannotWalk root error =>
    ["Failed to walk ".toList ++ root.display, error.message, error.cause.message]
  | notUnder root path =>
    [path.display ++ " is not under ".toList ++ root.display, "prefix not found".toList]
  | cannotRead path error => ["Failed to read ".toList ++ path.display, error.message]
  | cannotWrite path error => ["Failed to write ".toList ++ path.display, error.message]
  | cannotSaveReport path error =>
    ["Failed to write report to ".toList ++ path.display, error.message]
  | refused message => [message]

/-- The messages of a failure on one line. -/
def line (failure : Failure) : Text :=
  ": ".toList.intercalate failure.chain

/-- A cause in the report of a failure. Its lines are indented; it is numbered if it is not the
only one. -/
def causeLines (number : Option Nat) (cause : Text) : Text :=
  match number with
  | none => "    ".toList ++ "\n    ".toList.intercalate (cause.splitOn '\n')
  | some n =>
    let digits := Text.ofNat n
    List.replicate (5 - digits.length) ' ' ++ digits ++ ": ".toList ++
      "\n       ".toList.intercalate (cause.splitOn '\n')

/-- The report of a failure that ends the program. -/
def report (failure : Failure) : Text :=
  match failure.chain with
  | [] => []
  | [message] => "Error: ".toList ++ message ++ ['\n']
  | [message, cause] =>
    "Error: ".toList ++ message ++ "\n\nCaused by:\n".toList ++ causeLines none cause ++ ['\n']
  | message :: causes =>
    "Error: ".toList ++ message ++ "\n\nCaused by:\n".toList ++
      ['\n'].intercalate (causes.zipIdx.map fun (cause, n) => causeLines (some n) cause) ++ ['\n']

end Failure

end TrueCase

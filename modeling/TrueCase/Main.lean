import Std.Time
import TrueCase.CommandLine.Execute
import TrueCase.Console.Prompt
import TrueCase.FileSystem.Walk

/-!
# The program

The command line on the files, the console and the clock of the machine. Only this module acts; what
it does there is decided by the modules that it imports.

A walk reads the directories below its root into a tree, without the contents of files, and leaves
the choice of the source files to the walk over that tree.
-/

namespace TrueCase.Machine

/-! ## Files -/

/-- The code and the message of an error of the system. -/
def codeOf : IO.Error → Option (UInt32 × String)
  | .alreadyExists _ code message | .invalidArgument _ code message
  | .permissionDenied _ code message | .resourceExhausted _ code message
  | .inappropriateType _ code message | .noSuchThing _ code message
  | .interrupted _ code message | .noFileOrDirectory _ code message
  | .otherError code message | .resourceBusy code message | .resourceVanished code message
  | .unsupportedOperation code message | .hardwareFault code message
  | .unsatisfiedConstraints code message | .illegalOperation code message
  | .protocolError code message | .timeExpired code message => some (code, message)
  | .unexpectedEof | .userError _ => none

/-- The refusal that an error of the system stands for. Some operations give the code with its sign
changed. -/
def refusal (e : IO.Error) : FileError :=
  match codeOf e with
  | some (code, message) => .ofCode (min code (-code)).toNat message.toList
  | none => .other e.toString.toList

/-- The outcome of an action of the system. -/
def attempt {α : Type} (action : IO α) : IO (Except FileError α) := do
  try
    return .ok (← action)
  catch e =>
    return .error (refusal e)

/-- An action on what a path names. The action is given an entry without a name whose directory is
that path. -/
def onPath {α : Type} (path : RawPath) (action : IO.FS.DirEntry → IO α) :
    IO (Except FileError α) := do
  if 0 ∈ path then return .error .nulInPath
  match Utf8.decode? path with
  | none | some [] => return .error .notFound
  | some name => attempt do action ⟨String.ofList name, ""⟩

/-- A step of a walk on what a path names. -/
def onWalk {α : Type} (path : RawPath) (action : IO.FS.DirEntry → IO α) :
    ExceptT WalkError IO α :=
  ExceptT.mk do return (← onPath path action).mapError fun cause => ⟨path, cause⟩

/-- The directories, files and links at a path, less what the filter leaves out below it. -/
partial def load (filter : Filter) (followLink : Bool) (path : RawPath) :
    ExceptT WalkError IO Node := do
  let metadata ← onWalk path fun entry =>
    if followLink then entry.root.metadata else entry.root.symlinkMetadata
  match metadata.type with
  | .file => return .file []
  | .dir =>
    let mut entries := #[]
    for inner in ← onWalk path fun entry => entry.root.readDir do
      let name := Utf8.encode inner.fileName.toList
      let metadata ← onWalk (path.child name) fun entry => entry.root.symlinkMetadata
      unless filter.prunes name (metadata.type == .dir) do
        entries := entries.push (name, ← load filter false (path.child name))
    return .directory entries.toList
  | _ => return .link []

/-- The paths of the source files below a root. -/
def collect (root : RawPath) (filter : Filter) : IO (Except WalkError (List RawPath)) := do
  match ← load filter false root with
  | .error e => return .error e
  | .ok (.link target) =>
    return Node.sourcesAt filter root (.link target) (← load filter true root)
  | .ok found => return Node.sourcesAt filter root found (.ok found)

/-- The content of a file. -/
def read (path : RawPath) : IO (Except FileError Bytes) :=
  onPath path fun entry => return (← IO.FS.readBinFile entry.root).toList

/-- Make a file with the given content, or replace the content that it has. -/
def write (path : RawPath) (content : Text) : IO (Except FileError Unit) :=
  onPath path fun entry => IO.FS.writeBinFile entry.root (String.ofList content).toUTF8

/-! ## Console and clock -/

/-- Read lines until one holds an answer. -/
partial def readAnswer : IO (Except Text Bool) := do
  let line ← (← IO.getStdin).getLine
  if line.isEmpty then return .error Prompt.noMoreKeys
  match Prompt.answer? (Utf8.encode line.toList) with
  | some (answer, _) => return .ok answer
  | none => readAnswer

/-- Ask the user, who must be at a terminal. -/
def confirm : IO (Except Text Bool) := do
  if ← (← IO.getStderr).isTty then
    IO.eprint (String.ofList Prompt.question ++ " [Y/n] ")
    readAnswer
  else return .error Prompt.noTerminal

/-- Print a text on a channel. -/
def print (channel : Channel) (t : Text) : IO Unit :=
  match channel with
  | .output => IO.print (String.ofList t)
  | .errors => IO.eprint (String.ofList t)

/-- Whether to use colour. -/
def coloured : IO Bool := do
  let setting (name : String) : IO (Option Text) := return (← IO.getEnv name).map String.toList
  let settings : ColourSettings :=
    { force := ← setting "CLICOLOR_FORCE"
      avoid := ← setting "NO_COLOR"
      allow := ← setting "CLICOLOR"
      terminal := ← (← IO.getStdout).isTty }
  return settings.coloured

/-- The present time, to the millisecond. -/
def now : IO Text := do
  let time := Std.Time.DateTime.ofTimestamp (← Std.Time.Timestamp.now) .UTC
  return (time.format "uuuu-MM-dd'T'HH:mm:ss.SSS'Z'").toList

/-- The host that works on the machine. -/
def host (inColour : Bool) : Host IO where
  collect
  read
  write
  confirm
  tell message := print message.channel (message.text inColour)
  now

/-- Carry out a command line, and give the exit code. -/
def run (words : List Text) : IO Nat := do
  let inColour ← coloured
  match Args.parse words with
  | .error e =>
    print .output (e.output inColour)
    print .errors e.complaint
    return e.exitCode
  | .ok args =>
    match ← execute (host inColour) args with
    | .ok () => return 0
    | .error failure =>
      print .errors failure.report
      return 1

end TrueCase.Machine

/-- The program. -/
def main (words : List String) : IO UInt32 :=
  return UInt32.ofNat (← TrueCase.Machine.run (words.map String.toList))

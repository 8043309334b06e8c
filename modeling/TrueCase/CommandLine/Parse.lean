import TrueCase.CommandLine.Args

/-!
# Reading the command line

The words of a command line are read from left to right. An option whose value is a word of its own
stays open: the next word is its value unless it looks like an option, and what is wrong with the
value shows only when the option is closed, by the next option or at the end of its side of the
command.

## Main definitions

* `Word.ofText`: what a word looks like.
* `Given`: the options on one side of the command.
* `Given.close`: takes the value of the open option in.
* `readWords`: reads the words on one side of the command.
* `Args.parse`: reads a command line.
-/

namespace TrueCase

/-- What a word looks like. -/
inductive Word where
  /-- Two hyphens alone, behind which no option stands. -/
  | escape
  | long (name : Text) (value : Option Text)
  | short (flags : Text)
  | plain
  deriving DecidableEq, Repr

/-- Split off what follows the first equals sign. -/
def splitValue (t : Text) : Text × Option Text :=
  match t.dropWhile (· ≠ '=') with
  | [] => (t, none)
  | _ :: value => (t.takeWhile (· ≠ '='), some value)

/-- What a word looks like. One hyphen alone is no option. -/
def Word.ofText : Text → Word
  | ['-', '-'] => escape
  | '-' :: '-' :: rest => long (splitValue rest).1 (splitValue rest).2
  | '-' :: c :: rest => short (c :: rest)
  | _ => plain

/-- The options on one side of the command. -/
structure Given where
  root : Option Text := none
  report : Option Text := none
  /-- The values of the option that can be repeated. -/
  exclude : List Text := []
  verbose : Bool := false
  interactive : Bool := false
  /-- The open option, with its value as soon as that has been read. -/
  pending : Option (ValueOption × Option Text) := none
  deriving DecidableEq, Repr

namespace Given

/-- Take the value of an option in. Only `exclude` can be repeated or empty. -/
def store (given : Given) (value : Text) : ValueOption → Except UsageError Given
  | .root =>
    if given.root.isSome then .error .argumentConflict
    else if value = [] then .error .invalidValue
    else .ok { given with root := some value }
  | .report =>
    if given.report.isSome then .error .argumentConflict
    else if value = [] then .error .invalidValue
    else .ok { given with report := some value }
  | .exclude => .ok { given with exclude := given.exclude ++ [value] }

/-- Close the open option. -/
def close (given : Given) : Except UsageError Given :=
  match given.pending with
  | none => .ok given
  | some (_, none) => .error .invalidValue
  | some (o, some value) => { given with pending := none }.store value o

/-- Whether the open option still waits for its value. -/
def expectsValue (given : Given) : Bool :=
  match given.pending with
  | some (_, none) => true
  | _ => false

/-- Open an option whose value is the next word. -/
def expect (given : Given) (o : ValueOption) : Except UsageError Given := do
  return { ← given.close with pending := some (o, none) }

/-- Take an option in that comes with its value. -/
def attach (given : Given) (o : ValueOption) (value : Text) : Except UsageError Given := do
  (← given.close).store value o

/-- Switch something on. -/
def switch (given : Given) (level : Level) (s : Switch) : Except UsageError Given := do
  let given ← given.close
  match s with
  | .verbose =>
    if given.verbose then .error .argumentConflict else .ok { given with verbose := true }
  | .interactive =>
    if given.interactive then .error .argumentConflict else .ok { given with interactive := true }
  | .help => .error (.displayHelp (.level level))
  | .version => .error .displayVersion

/-- Read an option in its long form. -/
def readLong (given : Given) (level : Level) (name : Text) (value : Option Text) :
    Except UsageError Given :=
  match level.ofLong? name, value with
  | none, _ => .error .unknownArgument
  | some (.value o), none => given.expect o
  | some (.value o), some value => given.attach o value
  | some (.switch s), none => given.switch level s
  | some (.switch _), some _ => .error .tooManyValues

/-- Read a row of options in their short form. The first that takes a value takes all that follows
it, less an equals sign, or else the next word. -/
def readShort (level : Level) : Given → Text → Except UsageError Given
  | given, [] => .ok given
  | given, flag :: rest =>
    match level.ofShort? flag with
    | none => .error .unknownArgument
    | some (.switch s) => do readShort level (← given.switch level s) rest
    | some (.value o) =>
      match rest with
      | [] => given.expect o
      | '=' :: value => given.attach o value
      | value => given.attach o value

end Given

/-- What the words behind `help` ask for. -/
def helpTopic : List Text → UsageError
  | [] => .displayHelp (.level .top)
  | word :: words =>
    if word = "help".toList then
      if words = [] then .displayHelp .help else .invalidSubcommand
    else
      match CommandName.ofText? word with
      | none => .invalidSubcommand
      | some name => if words = [] then .displayHelp (.level (.command name)) else .invalidSubcommand

/-- Whether a word names a command. Behind a command no word does. -/
def namesCommand (level : Level) (word : Text) : Bool :=
  level = .top && (word = "help".toList || (CommandName.ofText? word).isSome)

/-- What is wrong with a word that is neither an option nor a value. -/
def strayWord (level : Level) : UsageError :=
  if level = .top then .invalidSubcommand else .unknownArgument

/-- Read the words on one side of the command: the options up to the command or the end, with the
command and the words behind it. -/
def readWords (level : Level) :
    Given → List Text → Except UsageError (Given × Option (CommandName × List Text))
  | given, [] => .ok (given, none)
  | given, word :: words =>
    if !given.expectsValue && namesCommand level word then
      match CommandName.ofText? word with
      | some name => .ok (given, some (name, words))
      | none => .error (helpTopic words)
    else
      match Word.ofText word with
      | .escape =>
        match words with
        | [] => .ok (given, none)
        | stray :: _ =>
          .error (if namesCommand level stray then .unknownArgument else strayWord level)
      | .long name value => do readWords level (← given.readLong level name value) words
      | .short flags => do readWords level (← given.readShort level flags) words
      | .plain =>
        match given.pending with
        | some (o, none) => readWords level { given with pending := some (o, some word) } words
        | _ => .error (strayWord level)

namespace Args

def defaultRoot : Text := "src".toList

def defaultReport : Text := "import-fix-report.json".toList

/-- The arguments that two sides of a command make: what stands behind the command replaces what
stands before it. -/
def combine (command : Option Command) (before behind : Given) : Args where
  command
  root := (behind.root <|> before.root).getD defaultRoot
  report := (behind.report <|> before.report).getD defaultReport
  exclude := if behind.exclude = [] then before.exclude else behind.exclude
  verbose := before.verbose || behind.verbose

/-- Read a command line, given without the name of the program. -/
def parse (words : List Text) : Except UsageError Args := do
  match ← readWords .top {} words with
  | (before, none) => return combine none (← before.close) {}
  | (before, some (name, words)) =>
    let behind ← (← readWords (.command name) {} words).1.close
    return combine (some (name.command behind.interactive)) (← before.close) behind

end Args

end TrueCase

import TrueCase.Text.Basic

/-!
# The command line

The commands and options of the program. Options can stand before and after the command, and can be
spelled long or short.

## Main definitions

* `Command`: what the program is to do.
* `Args`: a command line that has been understood.
* `ValueOption`, `Switch`: the options with and without a value.
* `UsageError`: why a command line is not carried out.
-/

namespace TrueCase

/-- What the program is to do. -/
inductive Command where
  | fix (interactive : Bool)
  | check
  | scan
  deriving DecidableEq, Repr

/-- The commands by name. -/
inductive CommandName where
  | fix
  | check
  | scan
  deriving DecidableEq, Repr

def CommandName.text : CommandName → Text
  | fix => "fix".toList
  | check => "check".toList
  | scan => "scan".toList

def CommandName.all : List CommandName :=
  [fix, check, scan]

/-- The command of the given name. -/
def CommandName.ofText? (t : Text) : Option CommandName :=
  all.find? (·.text = t)

/-- The command, where `interactive` says whether it is to ask. -/
def CommandName.command (interactive : Bool) : CommandName → Command
  | fix => .fix interactive
  | check => .check
  | scan => .scan

/-- A command line that has been understood. -/
structure Args where
  /-- The command, if there is one. -/
  command : Option Command
  root : Text
  report : Text
  exclude : List Text
  verbose : Bool
  deriving DecidableEq, Repr

/-- The command that is carried out. Without one the tree is fixed. -/
def Args.effective (args : Args) : Command :=
  args.command.getD (.fix false)

/-- The options that take a value. -/
inductive ValueOption where
  | root
  | report
  | exclude
  deriving DecidableEq, Repr

/-- The options that take no value. -/
inductive Switch where
  | verbose
  | interactive
  | help
  | version
  deriving DecidableEq, Repr

/-- An option of either kind. -/
inductive AnyOption where
  | value (o : ValueOption)
  | switch (s : Switch)
  deriving DecidableEq, Repr

/-- The place of an option: before the command, or behind it. -/
inductive Level where
  | top
  | command (name : CommandName)
  deriving DecidableEq, Repr

/-- The options that can stand at a place, as the help lists them. -/
def Level.options : Level → List AnyOption
  | top => shared ++ [.switch .help, .switch .version]
  | command .fix => .switch .interactive :: shared ++ [.switch .help]
  | command _ => shared ++ [.switch .help]
where
  shared : List AnyOption :=
    [.value .root, .value .report, .value .exclude, .switch .verbose]

namespace AnyOption

/-- The long name, which is written behind two hyphens. -/
def long : AnyOption → Text
  | value .root => "root".toList
  | value .report => "report".toList
  | value .exclude => "exclude".toList
  | switch .verbose => "verbose".toList
  | switch .interactive => "interactive".toList
  | switch .help => "help".toList
  | switch .version => "version".toList

/-- The short name, which is written behind one hyphen. -/
def short? : AnyOption → Option Char
  | value .root => some 'r'
  | value .report => none
  | value .exclude => some 'e'
  | switch .verbose => some 'v'
  | switch .interactive => some 'i'
  | switch .help => some 'h'
  | switch .version => some 'V'

end AnyOption

/-- The option with the given long name. Long names are not abbreviated. -/
def Level.ofLong? (level : Level) (name : Text) : Option AnyOption :=
  level.options.find? (·.long = name)

/-- The option with the given short name. -/
def Level.ofShort? (level : Level) (name : Char) : Option AnyOption :=
  level.options.find? (·.short? = some name)

/-- What the help is about. -/
inductive HelpTopic where
  | level (level : Level)
  | help
  deriving DecidableEq, Repr

/-- Why a command line is not carried out. Asking for help or for the version is one reason. -/
inductive UsageError where
  | displayHelp (topic : HelpTopic)
  | displayVersion
  | unknownArgument
  | invalidSubcommand
  | invalidValue
  | argumentConflict
  | tooManyValues
  deriving DecidableEq, Repr

end TrueCase

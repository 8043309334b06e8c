import TrueCase.CommandLine.Args
import TrueCase.Console.Style

/-!
# Help

The texts that the program prints about itself. In colour, headings are bold and underlined, and
what can be typed as it stands is bold.
-/

namespace TrueCase

/-- A piece of a help text. -/
inductive HelpPiece where
  | plain (t : Text)
  /-- The title of a part of the help. -/
  | heading (t : Text)
  /-- What can be typed as it stands. -/
  | literal (t : Text)
  deriving DecidableEq, Repr

namespace HelpPiece

/-- The text of a piece, without its style. -/
def bare : HelpPiece → Text
  | plain t | heading t | literal t => t

/-- The codes of the style of a piece. -/
def codes : HelpPiece → List Nat
  | plain _ => []
  | heading _ => [1, 4]
  | literal _ => [1]

/-- The text of a piece. Each code of its style has an escape sequence of its own. -/
def text (coloured : Bool) (piece : HelpPiece) : Text :=
  if coloured && !piece.codes.isEmpty then
    (piece.codes.flatMap fun code => Style.sequence [code]) ++ piece.bare ++ Style.reset
  else piece.bare

end HelpPiece

/-- A help text as the list of its pieces. -/
abbrev HelpText := List HelpPiece

namespace HelpText

/-- The number of places that a help text takes on its line. -/
def width (help : HelpText) : Nat :=
  (help.flatMap (·.bare)).length

/-- The text of the pieces. -/
def text (coloured : Bool) (help : HelpText) : Text :=
  help.flatMap (·.text coloured)

end HelpText

/-- The name by which the program is called. -/
def programName : Text := "import-case-fix".toList

/-- What the program prints about its version. -/
def versionText : Text :=
  programName ++ " 0.1.0\n".toList

/-- What the program does. -/
def programAbout : Text :=
  "Detect and fix mis-cased relative import paths in JS/TS source trees".toList

/-- What a command does. -/
def CommandName.about : CommandName → Text
  | fix => "Rewrite mismatched imports in place and save the report".toList
  | check => "Report what would be fixed without modifying any file".toList
  | scan => "List files that would be indexed without processing them".toList

/-- What the command that prints help does. -/
def helpAbout : Text :=
  "Print this message or the help of the given subcommand(s)".toList

namespace AnyOption

/-- What an option does. -/
def about : AnyOption → Text
  | value .root => "Source root to index and fix [default: src]".toList
  | value .report => "Where to write the JSON report [default: import-fix-report.json]".toList
  | value .exclude =>
    "Glob patterns for directories/files to exclude (e.g., \"__tests__\", \"*.stories.tsx\"). ".toList ++
      "`node_modules`, `.git` and `dist` are always excluded".toList
  | switch .verbose => "Print every fix and issue as it is found".toList
  | switch .interactive => "Interactively confirm each file's changes before writing".toList
  | switch .help => "Print help".toList
  | switch .version => "Print version".toList

/-- The word that stands for the value of an option. -/
def placeholder : AnyOption → Text
  | value .root => " <ROOT>".toList
  | value .report => " <REPORT>".toList
  | value .exclude => " <EXCLUDE>".toList
  | switch _ => []

/-- The spellings of an option. Where there is no short one, its place stays empty. -/
def spelling (o : AnyOption) : HelpText :=
  (match o.short? with
    | some c => [.literal ['-', c], .plain [',', ' ']]
    | none => [.plain (List.replicate 4 ' ')]) ++
      [.literal ('-' :: '-' :: o.long), .plain o.placeholder]

end AnyOption

/-- A table with two columns, the second of which starts two places behind the longest text of the
first. -/
def helpTable (rows : List (HelpText × Text)) : HelpText :=
  let width := (rows.map (·.1.width)).foldl max 0
  rows.flatMap fun (left, right) =>
    .plain [' ', ' '] :: left ++
      [.plain (List.replicate (width - left.width + 2) ' ' ++ right ++ ['\n'])]

/-- The line that shows how a command line is made up. -/
def usageLine (called rest : Text) : HelpText :=
  [.heading "Usage:".toList, .plain [' '], .literal called, .plain (' ' :: rest ++ ['\n'])]

/-- A heading with a table below. -/
def helpSection (title : String) (rows : List (HelpText × Text)) : HelpText :=
  .plain ['\n'] :: .heading title.toList :: .plain ['\n'] :: helpTable rows

/-- The options that can stand at a place. -/
def Level.optionSection (level : Level) : HelpText :=
  helpSection "Options:" (level.options.map fun o => (o.spelling, o.about))

/-- The commands. -/
def commandSection : HelpText :=
  helpSection "Commands:" <|
    CommandName.all.map (fun c => ([.literal c.text], c.about)) ++
      [([.literal "help".toList], helpAbout)]

/-- The help on a topic. -/
def HelpTopic.pieces : HelpTopic → HelpText
  | level .top =>
    .plain (programAbout ++ ['\n', '\n']) :: usageLine programName "[OPTIONS] [COMMAND]".toList ++
      commandSection ++ Level.top.optionSection
  | level (.command name) =>
    .plain (name.about ++ ['\n', '\n']) ::
      usageLine (programName ++ ' ' :: name.text) "[OPTIONS]".toList ++
      (Level.command name).optionSection
  | help =>
    .plain (helpAbout ++ ['\n', '\n']) ::
      usageLine (programName ++ " help".toList) "[COMMAND]...".toList ++
      helpSection "Arguments:"
        [([.plain "[COMMAND]...".toList], "Print help for the subcommand(s)".toList)]

/-- The text of the help on a topic. -/
def HelpTopic.text (coloured : Bool) (topic : HelpTopic) : Text :=
  topic.pieces.text coloured

end TrueCase

import TrueCase.Console.Style
import TrueCase.Failure
import TrueCase.Report.Summary

/-!
# Messages

Everything that a run says, and the channel on which it says it. Results go to the standard output,
remarks on the progress and warnings to the standard error.
-/

namespace TrueCase

/-- The two channels of a console. -/
inductive Channel where
  | output
  | errors
  deriving DecidableEq, Repr

/-- Something that a run says. -/
inductive Message where
  | indexing (root : RawPath)
  | indexed (count : Nat)
  | scanning
  | warning (failure : Failure)
  | promptFailed (file reason : Text)
  | foundFix (fix : FixRecord)
  | foundIssue (issue : IssueRecord)
  | wouldFix (file : Text)
  | wouldUpdate (file : Text) (fixes : List FixRecord)
  | skipped
  | fixed (file : Text)
  | summary (report : Report)
  | saved (path : RawPath)
  | applyHint
  | done
  | listing (paths : List RawPath)
  deriving DecidableEq, Repr

namespace Message

/-- The channel that a message goes to. -/
def channel : Message → Channel
  | indexing _ | indexed _ | scanning | warning _ | promptFailed _ _ | foundFix _ | foundIssue _ =>
    .errors
  | _ => .output

/-- A word in bold and in the given colour. -/
def label (coloured : Bool) (colour : Colour) (word : String) : Text :=
  Style.paint { bold := true, colour := some colour } coloured word.toList

/-- A text in the given colour. -/
def tint (coloured : Bool) (colour : Colour) (t : Text) : Text :=
  Style.paint { colour := some colour } coloured t

/-- A text that stands back behind the others. -/
def dim (coloured : Bool) (t : Text) : Text :=
  Style.paint { dimmed := true } coloured t

/-- The text of a message. It ends with a line feed. -/
def text (coloured : Bool) : Message → Text
  | indexing root =>
    label coloured .blue "info:" ++ " Building file index for ".toList ++ root.display ++ ['\n']
  | indexed count =>
    label coloured .blue "info:" ++ " Found ".toList ++ Text.ofNat count ++ " files\n".toList
  | scanning => label coloured .blue "info:" ++ " Scanning and fixing imports\n".toList
  | warning failure => label coloured .yellow "warn:" ++ ' ' :: failure.line ++ ['\n']
  | promptFailed file reason =>
    label coloured .yellow "warn:" ++ " Prompt failed for ".toList ++ file ++
      ", skipping: ".toList ++ reason ++ ['\n']
  | foundFix fix =>
    "  ".toList ++ tint coloured .green "fix".toList ++ ' ' :: dim coloured fix.file ++
      ": ".toList ++ fix.old ++ " -> ".toList ++ fix.new ++ ['\n']
  | foundIssue issue =>
    "  ".toList ++ tint coloured .red "issue".toList ++ ' ' :: dim coloured issue.file ++
      ':' :: Text.ofNat issue.line ++ ": ".toList ++ issue.specifier ++ " (".toList ++
      issue.reason ++ ")\n".toList
  | wouldFix file => label coloured .yellow "Would fix:" ++ ' ' :: file ++ ['\n']
  | wouldUpdate file fixes =>
    '\n' :: label coloured .yellow "Would update:" ++ ' ' :: file ++ ['\n'] ++
      fixes.flatMap fun fix => "  ".toList ++ Report.changeLine coloured fix ++ ['\n']
  | skipped => "  ".toList ++ dim coloured "Skipped".toList ++ ['\n']
  | fixed file => label coloured .green "Fixed:" ++ ' ' :: file ++ ['\n']
  | summary report => '\n' :: report.summary coloured ++ ['\n']
  | saved path =>
    '\n' :: label coloured .green "ok:" ++ " Report saved to: ".toList ++ path.display ++ ['\n']
  | applyHint =>
    label coloured .cyan "hint:" ++ " Run without `check` to apply fixes\n".toList
  | done => '\n' :: Style.paint { bold := true } coloured "Done!".toList ++ ['\n']
  | listing paths =>
    "Would index ".toList ++ Text.ofNat paths.length ++ " files:\n".toList ++
      paths.flatMap fun path => "  ".toList ++ path.display ++ ['\n']

/-- What the messages put on a channel. -/
def written (coloured : Bool) (channel : Channel) (messages : List Message) : Text :=
  (messages.filter (·.channel = channel)).flatMap (text coloured)

end Message

end TrueCase

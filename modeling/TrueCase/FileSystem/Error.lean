import TrueCase.FileSystem.RawPath

/-!
# What the file system refuses

The reasons for which a path cannot be followed, read or written, and a directory not entered.
-/

namespace TrueCase

/-- A refusal of the file system. -/
inductive FileError where
  | notFound
  | notDirectory
  | isDirectory
  | nameTooLong
  | tooManyLinks
  /-- The path holds a character that no path can hold. -/
  | nulInPath
  /-- The content of the file is not text. -/
  | notText
  /-- Any other refusal, by the message that comes with it. -/
  | other (message : Text)
  deriving DecidableEq, Repr

/-- The refusal with the given code and message. -/
def FileError.ofCode (code : Nat) (message : Text) : FileError :=
  match code with
  | 2 => notFound
  | 20 => notDirectory
  | 21 => isDirectory
  | 36 => nameTooLong
  | 40 => tooManyLinks
  | _ => other (message ++ " (os error ".toList ++ Text.ofNat code ++ [')'])

/-- The message of a refusal. -/
def FileError.message : FileError → Text
  | notFound => "No such file or directory (os error 2)".toList
  | notDirectory => "Not a directory (os error 20)".toList
  | isDirectory => "Is a directory (os error 21)".toList
  | nameTooLong => "File name too long (os error 36)".toList
  | tooManyLinks => "Too many levels of symbolic links (os error 40)".toList
  | nulInPath => "file name contained an unexpected NUL byte".toList
  | notText => "stream did not contain valid UTF-8".toList
  | other message => message

/-- A refusal that ends a walk, with the path at which it came. -/
structure WalkError where
  path : RawPath
  cause : FileError
  deriving DecidableEq, Repr

/-- The message of a refusal that ends a walk. -/
def WalkError.message (error : WalkError) : Text :=
  "IO error for operation on ".toList ++ error.path.display ++ ": ".toList ++ error.cause.message

end TrueCase

import TrueCase.Console.Message
import TrueCase.FileSystem.Filter

/-!
# Hosts

A run deals with the world through a few operations only. They are given as a structure over a
monad, so that the same run can work on a tree in memory and on the files of the machine.
-/

namespace TrueCase

/-- The operations by which a run deals with the world. -/
structure Host (m : Type → Type) where
  /-- The paths of the source files below a root, in the order of the walk. -/
  collect : RawPath → Filter → m (Except WalkError (List RawPath))
  /-- The content of a file. -/
  read : RawPath → m (Except FileError Bytes)
  /-- Make a file with the given content, or replace the content that it has. -/
  write : RawPath → Text → m (Except FileError Unit)
  /-- Ask the user whether to go on. An answer that cannot be had comes with the reason. -/
  confirm : m (Except Text Bool)
  /-- Show a message. -/
  tell : Message → m Unit
  /-- The present time. -/
  now : m Text

namespace Host

variable {m : Type → Type} [Monad m]

/-- The source files below a root. -/
def sourceFiles (host : Host m) (root : RawPath) (filter : Filter) :
    m (Except Failure (List RawPath)) := do
  return (← host.collect root filter).mapError (.cannotWalk root)

/-- The text of a file. -/
def readText (host : Host m) (path : RawPath) : m (Except Failure Text) := do
  match ← host.read path with
  | .error e => return .error (.cannotRead path e)
  | .ok bytes =>
    match Utf8.decode? bytes with
    | none => return .error (.cannotRead path .notText)
    | some text => return .ok text

/-- Replace the content of a source file. -/
def overwrite (host : Host m) (path : RawPath) (content : Text) : m (Except Failure Unit) := do
  return (← host.write path content).mapError (.cannotWrite path)

/-- Show messages one after the other. -/
def tellAll (host : Host m) : List Message → m Unit
  | [] => pure ()
  | message :: messages => do
    host.tell message
    host.tellAll messages

end Host

end TrueCase

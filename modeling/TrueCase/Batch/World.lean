import TrueCase.Batch.Host
import TrueCase.Console.Prompt
import TrueCase.FileSystem.Walk

/-!
# A world in memory

A host whose files are a tree in memory, whose user has typed all answers beforehand, and whose
console keeps what it is told.
-/

namespace TrueCase

/-- A tree of files with a console and a clock. -/
structure World where
  /-- The root of the file system, which is also the working directory. -/
  files : Node
  /-- The keys that wait at the terminal, or nothing if there is no terminal. -/
  keys : Option Bytes
  /-- What has been said, the latest first. -/
  said : List Message
  /-- The time that the clock shows. -/
  clock : Text

namespace World

/-- A world without a terminal. -/
def ofFiles (files : Node) (clock : Text) : World where
  files
  keys := none
  said := []
  clock

/-- Take an answer from the terminal. -/
def confirm (world : World) : Except Text Bool × World :=
  match world.keys with
  | none => (.error Prompt.noTerminal, world)
  | some keys =>
    match Prompt.answer? keys with
    | some (answer, rest) => (.ok answer, { world with keys := some rest })
    | none => (.error Prompt.noMoreKeys, { world with keys := some [] })

/-- Write a file of the tree. -/
def write (path : RawPath) (content : Text) (world : World) : Except FileError Unit × World :=
  match world.files.write path (Utf8.encode content) with
  | .ok files => (.ok (), { world with files })
  | .error e => (.error e, world)

/-- The host that works on a world. -/
def host : Host (StateM World) where
  collect root filter := do return (← get).files.collect filter root
  read path := do return (← get).files.read path
  write path content := modifyGet (write path content)
  confirm := modifyGet confirm
  tell message := modify fun world => { world with said := message :: world.said }
  now := do return (← get).clock

/-- What stands on a channel of the console. -/
def console (world : World) (coloured : Bool) (channel : Channel) : Text :=
  Message.written coloured channel world.said.reverse

end World

end TrueCase

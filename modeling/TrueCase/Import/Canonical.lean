import TrueCase.Import.Resolution

/-!
# The canonical specifier

Of the specifiers that name a file, the canonical one spells its path as the file system does and
is as short as it can be: without the extension, and with the directory in place of its index file.
Where the short form would name another file, the full path takes its place.
-/

namespace TrueCase

/-- The shortest spelling of a resolution, for use in the file `current`. -/
def preferredSpecifier (current : Text) (resolution : Resolution) : Text :=
  let base := Path.parent current
  let actual := resolution.entry.actualPath
  match resolution.kind with
  | .direct => dropExtension (Path.explicit base actual)
  | .directoryIndex => Path.explicit base (Path.parent actual)

/-- Whether a specifier in the file `current` names the entry with the given key. -/
def leadsTo (index : FileIndex) (current specifier key : Text) : Bool :=
  match resolve index current specifier with
  | .found r => r.entry.key = key
  | _ => false

/-- The specifier by which the file `current` should import the resolved file. -/
def canonicalSpecifier (index : FileIndex) (current : Text) (resolution : Resolution) : Text :=
  let preferred := preferredSpecifier current resolution
  if leadsTo index current preferred resolution.entry.key then preferred
  else Path.explicit (Path.parent current) resolution.entry.actualPath

end TrueCase

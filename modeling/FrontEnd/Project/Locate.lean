import FrontEnd.Settings

/-!
# Finding a project

A place belongs to the project whose settings are in the nearest directory above it, the place
itself included.
-/

set_option autoImplicit false

namespace FrontEnd.Project

/-- The path of the settings in a directory; `reversed` are the names of the directory from the last
to the first. -/
def settingsBelow (reversed : List String) : Path :=
  ⟨.root, (settingsName :: reversed).reverse⟩

/-- The settings in the nearest directory with settings; `reversed` are the names of a directory
from the last to the first. -/
def nearestSettings (tree : FileTree) : (reversed : List String) → Except FileFault (Option Path)
  | [] =>
      match tree.seek (settingsBelow []) with
      | .error fault => .error fault
      | .ok (some _) => .ok (some (settingsBelow []))
      | .ok none => .ok none
  | name :: above =>
      match tree.seek (settingsBelow (name :: above)) with
      | .error fault => .error fault
      | .ok (some _) => .ok (some (settingsBelow (name :: above)))
      | .ok none => nearestSettings tree above

/-- The directory in which the search for settings begins, from the root. A path that leads nowhere
counts as one of a directory, unless it cannot be looked up: a name must not hold the character of
code zero, nor be too long. -/
def searchStart (tree : FileTree) (start : Path) : Except FileFault Path :=
  let resolved := start.resolve tree.workingDirectory
  if start.holdsNull then .error .nullCharacter
  else
    match tree.seek resolved with
    | .error fault => .error fault
    | .ok (some (.file _)) => .ok resolved.parent
    | .ok _ => .ok resolved

/-- The path of the settings that hold at a path, which need not exist. For a file the search begins
in its directory. -/
def locate (tree : FileTree) (start : Path) : Except FileFault (Option Path) :=
  match searchStart tree start with
  | .error fault => .error fault
  | .ok directory => nearestSettings tree directory.names.reverse

/-- What is said when no directory has settings. -/
def missingSettingsMessage : String :=
  "No " ++ settingsName ++ " found in any parent directory"

end FrontEnd.Project

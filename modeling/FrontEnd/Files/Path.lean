import FrontEnd.Text.Lines

/-!
# Paths

A path is a list of names, from the root or from wherever it is used. Empty names and single dots
are dropped when a path is read; double dots stay, because what they lead to is a question to the
files. Two slashes in front of the names are kept as well, three and more are the same as one.
-/

set_option autoImplicit false

namespace FrontEnd

/-- Where a path begins. -/
inductive Anchor where
  /-- Wherever the path is used. -/
  | here
  | root
  /-- The root as well, written with exactly two slashes, which are kept. -/
  | doubleRoot
  deriving DecidableEq, Repr

/-- The slashes that a path begins with. -/
def Anchor.slashes : Anchor → String
  | .here => ""
  | .root => "/"
  | .doubleRoot => "//"

/-- A path to a file or a directory. -/
structure Path where
  anchor : Anchor
  names : List String
  deriving DecidableEq, Repr

namespace Path

def root : Path := ⟨.root, []⟩

/-- Whether a path leads on from the root. -/
def absolute (path : Path) : Bool :=
  path.anchor != .here

/-- The names between the slashes of a text, empty ones included. -/
def rawNames (text : String) : List String :=
  (Text.splitAtEach '/' text.toList).map String.ofList

/-- Whether a text begins at the root. -/
def startsAtRoot (text : String) : Bool :=
  text.toList.head? == some '/'

/-- Where the path of a text begins. -/
def anchorOf (text : String) : Anchor :=
  match (text.toList.takeWhile (· == '/')).length with
  | 0 => .here
  | 2 => .doubleRoot
  | _ => .root

/-- Reads a path. -/
def ofText (text : String) : Path :=
  ⟨anchorOf text, (rawNames text).filter fun name => name != "" && name != "."⟩

/-- Reads a path with every name that stands between its slashes. -/
def written (text : String) : Path :=
  if startsAtRoot text then ⟨.root, (rawNames text).tail⟩ else ⟨.here, rawNames text⟩

/-- The text of a path. -/
def text (path : Path) : String :=
  if path.anchor = .here ∧ path.names = [] then "."
  else path.anchor.slashes ++ "/".intercalate path.names

/-- A path seen from another one. -/
def join (base path : Path) : Path :=
  if path.absolute then path else ⟨base.anchor, base.names ++ path.names⟩

@[simp] theorem join_root (base : Path) (names : List String) :
    base.join ⟨.root, names⟩ = ⟨.root, names⟩ :=
  rfl

/-- Names behind a path stand behind it wherever it is seen from. -/
theorem join_append (base path : Path) (more : List String) :
    (base.join ⟨path.anchor, path.names ++ more⟩).names = (base.join path).names ++ more := by
  have habsolute : (Path.mk path.anchor (path.names ++ more)).absolute = path.absolute := rfl
  unfold join
  rw [habsolute]
  split
  · rfl
  · exact (List.append_assoc _ _ _).symm

def child (base : Path) (name : String) : Path :=
  ⟨base.anchor, base.names ++ [name]⟩

/-- The path without its last name. -/
def parent (path : Path) : Path :=
  ⟨path.anchor, path.names.dropLast⟩

/-- Removes each double dot together with the name before it; `above` are the names so far,
innermost first. -/
def collapse (above : List String) : List String → List String
  | [] => above.reverse
  | name :: rest => if name = ".." then collapse above.tail rest else collapse (name :: above) rest

/-- A path from the root without double dots. Among files without links it leads where the path
does, if that leads anywhere. -/
def resolve (path workingDirectory : Path) : Path :=
  ⟨.root, collapse [] (workingDirectory.join path).names⟩

/-- No name of a file can hold the character of code zero. -/
def holdsNull (path : Path) : Bool :=
  path.names.any fun name => name.toList.contains (Char.ofNat 0)

end Path

end FrontEnd

import FrontEnd.Files.Path
import FrontEnd.SourceText
import FrontEnd.Text.Quoted

/-!
# File trees

A tree of files and directories below a root, as one list of what is at which place. There are no
links between places, and everything may be looked up. Paths are followed name by name: a double dot
leads back to the directory above, and only directories lead on. Names and paths have a greatest
length.
-/

set_option autoImplicit false

namespace FrontEnd

/-- The names from the root to a place, without double dots. -/
abbrev Place := List String

/-- What is at a place. -/
inductive Entry where
  | directory
  | file (content : ByteArray)

/-- What is at which place, seen from some directory. -/
abbrev Entries := List (Place × Entry)

/-- What lies behind a name, seen from there. -/
def Entries.behind (name : String) (entries : Entries) : Entries :=
  List.filterMap
    (fun (place, entry) =>
      match place with
      | first :: rest => if first = name then some (rest, entry) else none
      | [] => none)
    entries

theorem Entries.lookup_behind (name : String) (place : Place) (entries : Entries) :
    List.lookup place (entries.behind name) = List.lookup (name :: place) entries := by
  induction entries with
  | nil => rfl
  | cons entry entries ih =>
      obtain ⟨other, value⟩ := entry
      cases other with
      | nil => simpa [behind, List.lookup_cons] using ih
      | cons first rest =>
          by_cases same : first = name
          · subst same
            cases equal : place == rest with
            | true => simp [behind, List.lookup_cons, equal]
            | false => simpa [behind, List.lookup_cons, equal] using ih
          · have differ : (name == first) = false := by simpa using fun h => same h.symm
            simpa [behind, List.lookup_cons, same, differ] using ih

/-- What the place itself is that entries are seen from. -/
def Entries.here? (entries : Entries) : Option Entry :=
  List.lookup [] entries

/-- The entries below the root, each place once. -/
structure FileTree where
  entries : Entries
  /-- Where relative paths begin. -/
  workingDirectory : Path

/-- Why a path cannot be used. -/
inductive FileFault where
  | present (path : Path)
  | missing (path : Path)
  | notDirectory (path : Path)
  | isDirectory (path : Path)
  /-- A name on the way, or all of the path, is too long to be looked up. -/
  | tooLong (path : Path)
  | nullCharacter
  | notText
  deriving DecidableEq, Repr

/-- The wording of a fault; what is no text has none. -/
def FileFault.message : FileFault → String
  | .present path => "[Errno 17] File exists: " ++ Text.quoted path.text
  | .missing path => "[Errno 2] No such file or directory: " ++ Text.quoted path.text
  | .notDirectory path => "[Errno 20] Not a directory: " ++ Text.quoted path.text
  | .isDirectory path => "[Errno 21] Is a directory: " ++ Text.quoted path.text
  | .tooLong path => "[Errno 36] File name too long: " ++ Text.quoted path.text
  | .nullCharacter => "embedded null byte"
  | .notText => ""

/-- The most bytes of a name. -/
def nameLimit : Nat := 255

/-- A path has fewer bytes than this. -/
def pathLimit : Nat := 4096

def isLongName (name : String) : Bool :=
  decide (nameLimit < name.utf8ByteSize)

def Path.isLong (path : Path) : Bool :=
  decide (pathLimit ≤ path.text.utf8ByteSize)

namespace FileTree

/-! ## Looking -/

/-- What is at a place; the root is a directory. -/
def entryAt (tree : FileTree) (place : Place) : Option Entry :=
  if place = [] then some .directory else tree.entries.lookup place

/-- What is below a place, and the place itself, seen from there. -/
def seenFrom (tree : FileTree) (place : Place) : Entries :=
  place.foldl (fun entries name => entries.behind name) (([], .directory) :: tree.entries)

/-- Where the names of a path lead from a place; `entries` is what is seen from it. Only a directory
leads on. A blank name or a single dot asks for a directory and stays there. -/
def follow (tree : FileTree) (path : Path) (place : Place) (entries : Entries) :
    List String → Except FileFault Place
  | [] => .ok place
  | name :: rest =>
      match entries.here? with
      | none => .error (.missing path)
      | some (.file _) => .error (.notDirectory path)
      | some .directory =>
          if name = "" ∨ name = "." then follow tree path place entries rest
          else if name = ".." then
            follow tree path place.dropLast (tree.seenFrom place.dropLast) rest
          else if isLongName name then .error (.tooLong path)
          else
            let inside := entries.behind name
            match inside.here? with
            | none => .error (.missing path)
            | some _ => follow tree path (place ++ [name]) inside rest

/-- The place that a path leads to. -/
def locate (tree : FileTree) (path : Path) : Except FileFault Place :=
  if path.holdsNull then .error .nullCharacter
  else if path.isLong then .error (.tooLong path)
  else tree.follow path [] (tree.seenFrom []) (tree.workingDirectory.join path).names

/-- What a path leads to, if it leads anywhere. -/
def entry? (tree : FileTree) (path : Path) : Option Entry :=
  match tree.locate path with
  | .error _ => none
  | .ok place => tree.entryAt place

def present (tree : FileTree) (path : Path) : Bool :=
  (tree.entry? path).isSome

def isDirectory (tree : FileTree) (path : Path) : Bool :=
  match tree.entry? path with
  | some .directory => true
  | _ => false

/-- What a path leads to, if it leads anywhere. That a name is too long to be looked up is a fault;
any other reason why a path leads nowhere is not. -/
def seek (tree : FileTree) (path : Path) : Except FileFault (Option Entry) :=
  match tree.locate path with
  | .error (.tooLong path) => .error (.tooLong path)
  | .error _ => .ok none
  | .ok place => .ok (tree.entryAt place)

/-- The bytes of a file. -/
def bytes (tree : FileTree) (path : Path) : Except FileFault ByteArray :=
  match tree.locate path with
  | .error fault => .error fault
  | .ok place =>
      match tree.entryAt place with
      | some (.file content) => .ok content
      | some .directory => .error (.isDirectory path)
      | none => .error (.missing path)

/-- The text of a file. -/
def text (tree : FileTree) (path : Path) : Except FileFault SourceText :=
  match tree.bytes path with
  | .error fault => .error fault
  | .ok content =>
      match SourceText.ofBytes? content with
      | none => .error .notText
      | some text => .ok text

/-- The text of a file for reports, if it is a file and a text. -/
def text? (tree : FileTree) (file : String) : Option SourceText :=
  (tree.text (.ofText file)).toOption

/-- The names of what is in a directory, with what it is. -/
def children (tree : FileTree) (place : Place) : List (String × Entry) :=
  tree.entries.filterMap fun (other, entry) =>
    match other.getLast? with
    | some name => if other.dropLast = place then some (name, entry) else none
    | none => none

/-! ## Changing -/

/-- What changes a tree, and stops with a fault or goes on. What was changed before a fault
stays. -/
abbrev Change (α : Type) := EStateM FileFault FileTree α

/-- Puts an entry at a place. -/
def put (place : Place) (entry : Entry) (tree : FileTree) : FileTree :=
  { tree with entries := tree.entries.filter (fun other => other.1 != place) ++ [(place, entry)] }

/-- The place of a path whose directory exists, whether or not something is there. -/
def spot (tree : FileTree) (path : Path) : Except FileFault Place :=
  if path.holdsNull then .error .nullCharacter
  else if path.isLong then .error (.tooLong path)
  else
    match tree.locate path.parent, path.names.getLast? with
    | .error (.missing _), _ => .error (.missing path)
    | .error (.notDirectory _), _ => .error (.notDirectory path)
    | .error (.tooLong _), _ => .error (.tooLong path)
    | .error fault, _ => .error fault
    | .ok place, none => .ok place
    | .ok place, some name =>
        match tree.entryAt place with
        | some .directory =>
            if name = ".." then .ok place.dropLast
            else if isLongName name then .error (.tooLong path)
            else .ok (place ++ [name])
        | _ => .error (.notDirectory path)

/-- Makes a directory, whose parent must be one. -/
def makeDirectory (path : Path) : Change Unit := fun tree =>
  match tree.spot path with
  | .error fault => .error fault tree
  | .ok place =>
      match tree.entryAt place with
      | some _ => .error (.present path) tree
      | none => .ok () (tree.put place .directory)

/-- Makes a directory and those above it that do not exist. `reversed` are the names of its path
from the last to the first. If `tolerant`, the directory itself may exist already. -/
def makeDirectories (anchor : Anchor) (tolerant : Bool) : List String → Change Unit
  | [] => fun tree => if tolerant then .ok () tree else .error (.present ⟨anchor, []⟩) tree
  | name :: above => fun tree =>
      let path : Path := ⟨anchor, (name :: above).reverse⟩
      let settle (fault : FileFault) (tree : FileTree) : EStateM.Result FileFault FileTree Unit :=
        if tolerant && tree.isDirectory path then .ok () tree else .error fault tree
      match makeDirectory path tree with
      | .ok _ tree => .ok () tree
      | .error (.missing _) tree =>
          match makeDirectories anchor true above tree with
          | .error fault tree => .error fault tree
          | .ok _ tree =>
              match makeDirectory path tree with
              | .ok _ tree => .ok () tree
              | .error fault tree => settle fault tree
      | .error fault tree => settle fault tree

/-- Writes a file; its directory must exist. -/
def writeBytes (path : Path) (content : ByteArray) : Change Unit := fun tree =>
  match tree.spot path with
  | .error fault => .error fault tree
  | .ok place =>
      match tree.entryAt place with
      | some .directory => .error (.isDirectory path) tree
      | _ => .ok () (tree.put place (.file content))

/-- Writes a text as a file. -/
def writeText (path : Path) (content : String) : Change Unit :=
  writeBytes path content.toUTF8

/-- The beginnings of a place, shortest first, the place itself not included. -/
def ancestors (place : Place) : List Place :=
  (List.range place.length).map place.take

/-- Puts an entry at a place, and directories above it where there is nothing. -/
def install (place : Place) (entry : Entry) (tree : FileTree) : FileTree :=
  let withDirectories := (ancestors place).foldl
    (fun tree above => if (tree.entryAt above).isSome then tree else tree.put above .directory) tree
  withDirectories.put place entry

/-- A tree that holds nothing but its working directory. -/
def ofWorkingDirectory (place : Place) : FileTree :=
  install place .directory ⟨[], ⟨.root, place⟩⟩

end FileTree

end FrontEnd

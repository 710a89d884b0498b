import FrontEnd.Settings

/-!
# New projects

A new project is a directory with settings, one source file, a file for version control and a
description. The name of the project is put into them as it is.
-/

set_option autoImplicit false

namespace FrontEnd.Project

/-- The settings of a new project. -/
def settingsText (name : String) : String :=
  "[package]\n" ++
  "name = \"" ++ name ++ "\"\n" ++
  "version = \"0.1.0\"\n" ++
  "authors = []\n" ++
  "\n" ++
  "[source]\n" ++
  "dir = \"src\"\n" ++
  "extension = \".emb\"\n" ++
  "\n" ++
  "[diagnostics]\n" ++
  "color = true\n"

/-- The source file of a new project. -/
def sourceText : String :=
  "greeting = \"Hello from Ember!\"\n" ++
  "\n" ++
  "main = print greeting\n"

/-- What version control leaves out. -/
def ignoredText : String :=
  "build/\n" ++
  "__pycache__/\n"

/-- The description of a new project. -/
def descriptionText (name : String) : String :=
  "# " ++ name ++ "\n" ++
  "\n" ++
  "An Ember project.\n" ++
  "\n" ++
  "## Check\n" ++
  "\n" ++
  "\x60\x60\x60bash\n" ++
  "ember check\n" ++
  "\x60\x60\x60\n"

/-- Why a project cannot be made. -/
inductive ScaffoldFault where
  /-- There is something of that name. -/
  | taken (name : String)
  | file (fault : FileFault)
  deriving DecidableEq, Repr

def ScaffoldFault.message : ScaffoldFault → String
  | .taken name => "Directory '" ++ name ++ "' already exists"
  | .file fault => fault.message

/-- Makes the directories and files of a project. -/
def build (directory : Path) (name : String) : FileTree.Change Unit := do
  let source := directory.child "src"
  FileTree.makeDirectories source.anchor false source.names.reverse
  FileTree.writeText (directory.child settingsName) (settingsText name)
  FileTree.writeText (source.child "main.emb") sourceText
  FileTree.writeText (directory.child ".gitignore") ignoredText
  FileTree.writeText (directory.child "README.md") (descriptionText name)

/-- Makes a project in a directory and answers its path. What was made before a fault stays. -/
def scaffold (base : Path) (name : String) (tree : FileTree) :
    Except ScaffoldFault Path × FileTree :=
  let directory := base.join (.ofText name)
  match tree.seek directory with
  | .error fault => (.error (.file fault), tree)
  | .ok (some _) => (.error (.taken name), tree)
  | .ok none =>
      match build directory name tree with
      | .ok _ tree => (.ok directory, tree)
      | .error fault tree => (.error (.file fault), tree)

/-- Makes projects one after the other. -/
def scaffoldAll (base : Path) : List String → FileTree →
    List (Except ScaffoldFault Path) × FileTree
  | [], tree => ([], tree)
  | name :: names, tree =>
      let (result, tree) := scaffold base name tree
      let (results, tree) := scaffoldAll base names tree
      (result :: results, tree)

end FrontEnd.Project

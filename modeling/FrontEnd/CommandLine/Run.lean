import FrontEnd.CommandLine.Arguments
import FrontEnd.Project.Check
import FrontEnd.Project.Scaffold
import FrontEnd.Tree.Outline

/-!
# Runs

A run carries out one request on a tree of files: it shows the tokens or the trees of a file, checks
a project, or makes a new one.
-/

set_option autoImplicit false

namespace FrontEnd.CommandLine

open Output

/-- What came of a run. -/
structure Result where
  lines : List Line
  ending : Ending
  tree : FileTree

/-- The version that is shown. -/
def versionText : String := "ember, version 0.1.0"

/-- What an argument that must lead somewhere leads to. Unlike other paths it is followed as it is
written, so a slash at its end asks for a directory. -/
def argumentEntry (tree : FileTree) (argument : String) : Except FileFault Entry :=
  if argument = "" then .error (.missing (.ofText argument))
  else
    match tree.locate (.written argument) with
    | .error fault => .error fault
    | .ok place =>
        match tree.entryAt place with
        | some entry => .ok entry
        | none => .error (.missing (.ofText argument))

/-- The path of an argument that must be a file. -/
def fileArgument (tree : FileTree) (argument : String) : Except Ending Path :=
  match argumentEntry tree argument with
  | .ok (.file _) => .ok (.ofText argument)
  | .ok .directory => .error .usage
  | .error .nullCharacter => .error (.crash (.file .nullCharacter))
  | .error _ => .error .usage

/-- The path of an argument that must exist. -/
def pathArgument (tree : FileTree) (argument : String) : Except Ending Path :=
  match argumentEntry tree argument with
  | .ok _ => .ok (.ofText argument)
  | .error .nullCharacter => .error (.crash (.file .nullCharacter))
  | .error _ => .error .usage

/-- The line that reports a diagnostic. -/
def reportLine (options : Options) (tree : FileTree) (diagnostic : Diagnostic) : Line :=
  .message ((Reporter.ofColor options.color).render tree.text? diagnostic).1

/-- Shows the tokens of a file, up to the first fault. -/
def lexFile (options : Options) (tree : FileTree) (path : Path) : List Line × Ending :=
  match tree.text path with
  | .error fault => ([], .crash (.file fault))
  | .ok text =>
      let (tokens, fault, lexer) := tokenize path.text text.content
      let shown := tokens.map fun token =>
        Line.out (token.location.text ++ ": " ++ token.lexeme.text)
      let lines := shown ++ Project.logLines options.verbose lexer.events
      match fault with
      | none => (lines, .exit 0)
      | some (.tooManyDigits count) => (lines, .crash (.tooManyDigits count))
      | some (.diagnostic diagnostic) =>
          (lines ++ [reportLine options tree diagnostic], .exit 1)

/-- Shows the trees of a file. -/
def viewFile (options : Options) (tree : FileTree) (path : Path) : List Line × Ending :=
  match tree.text path with
  | .error fault => ([], .crash (.file fault))
  | .ok text =>
      let reading := read path.text text.content
      let log := Project.logLines options.verbose reading.events
      match reading.outcome with
      | .ok decls =>
          (log ++ decls.flatMap fun decl => (decl.outline.lines 0).map .out, .exit 0)
      | .error (.tooManyDigits count) => (log, .crash (.tooManyDigits count))
      | .error (.diagnostic diagnostic) => (log ++ [reportLine options tree diagnostic], .exit 1)

/-- Makes a project in the working directory. -/
def newProject (name : String) (tree : FileTree) : Result :=
  match Project.scaffold tree.workingDirectory name tree with
  | (.ok path, tree) =>
      ⟨[.out ("created project '" ++ name ++ "' at " ++ path.text)], .exit 0, tree⟩
  | (.error (.file fault), tree) =>
      match fault with
      | .present _ => ⟨[.message ("error: " ++ fault.message)], .exit 1, tree⟩
      | _ => ⟨[], .crash (.file fault), tree⟩
  | (.error fault, tree) => ⟨[.message ("error: " ++ fault.message)], .exit 1, tree⟩

/-- Carries out a request that leaves the files alone, with an argument that must be usable. -/
def onArgument (argument : Except Ending Path) (tree : FileTree)
    (command : Path → List Line × Ending) : Result :=
  match argument with
  | .error ending => ⟨[], ending, tree⟩
  | .ok path =>
      let (lines, ending) := command path
      ⟨lines, ending, tree⟩

/-- Carries out a request. -/
def carryOut (options : Options) (tree : FileTree) : Request → Result
  | .version => ⟨[.out versionText], .exit 0, tree⟩
  | .lex file => onArgument (fileArgument tree file) tree (lexFile options tree)
  | .view file => onArgument (fileArgument tree file) tree (viewFile options tree)
  | .check path =>
      onArgument (pathArgument tree path) tree
        (Project.check options.verbose options.color tree)
  | .new name => newProject name tree

/-- Runs the program with a list of arguments. -/
def run (arguments : List String) (tree : FileTree) : Result :=
  match parseArguments arguments with
  | none => ⟨[], .usage, tree⟩
  | some (options, request) => carryOut options tree request

/-- Runs the program several times on the same files. -/
def runAll : List (List String) → FileTree → List Result
  | [], _ => []
  | arguments :: rest, tree =>
      let result := run arguments tree
      result :: runAll rest result.tree

end FrontEnd.CommandLine

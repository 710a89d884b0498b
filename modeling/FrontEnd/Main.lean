import FrontEnd.CommandLine.Run

/-!
# The program

Reads from the disk what a request can look at, runs the request on that, writes its lines, and puts
what it made back onto the disk.
-/

set_option autoImplicit false

namespace FrontEnd.Disk

/-! ## Reading the disk -/

/-- The text of the path to a place. -/
def pathText (place : Place) : String :=
  (Path.mk .root place).text

/-- A name for the disk. -/
def onDisk (place : Place) : IO.FS.DirEntry :=
  ⟨pathText place, ""⟩

/-- Adds what the disk has at a place. -/
def observe (tree : FileTree) (place : Place) : IO FileTree := do
  if (tree.entryAt place).isSome then
    pure tree
  else if ← (onDisk place).root.isDir then
    pure (tree.install place .directory)
  else if ← (onDisk place).root.pathExists then
    pure (tree.install place (.file (← IO.FS.readBinFile (onDisk place).root)))
  else
    pure tree

/-- Adds all that the disk has at a place and below it. -/
partial def observeBelow (tree : FileTree) (place : Place) : IO FileTree := do
  let tree ← observe tree place
  if ← (onDisk place).root.isDir then
    let entries ← (onDisk place).root.readDir
    entries.foldlM (fun tree entry => observeBelow tree (place ++ [entry.fileName])) tree
  else
    pure tree

/-- Adds what the disk has on the way along a path, and the settings beside it. -/
def observeWay (tree : FileTree) (path : Path) : IO FileTree := do
  let names := (tree.workingDirectory.join path).names
  let places := (List.range (names.length + 1)).map fun n => Path.collapse [] (names.take n)
  places.foldlM
    (fun tree place => do
      let tree ← observe tree place
      observe tree (place ++ [settingsName]))
    tree

/-- Adds the project that a path belongs to, and the directory of its sources. -/
def observeProject (tree : FileTree) (path : Path) : IO FileTree := do
  match Project.locate tree path with
  | .ok (some settingsPath) =>
      let project := settingsPath.parent
      let tree ← observeBelow tree project.names
      match Settings.load tree settingsPath with
      | .ok settings =>
          match settings.directory with
          | .text name =>
              let directory := project.join (.ofText name)
              let tree ← observeWay tree directory
              observeBelow tree (directory.resolve tree.workingDirectory).names
          | _ => pure tree
      | .error _ => pure tree
  | _ => pure tree

/-- Adds what a request can look at. -/
def observeRequest (tree : FileTree) : CommandLine.Request → IO FileTree
  | .version => pure tree
  | .lex file => observeWay tree (.ofText file)
  | .view file => observeWay tree (.ofText file)
  | .check path => do observeProject (← observeWay tree (.ofText path)) (.ofText path)
  | .new name => do
      let path := Path.ofText name
      observeWay (← observeWay tree path) (path.child "src")

/-! ## Writing -/

/-- Puts an entry onto the disk, unless it was there before. -/
def putEntry (before : FileTree) (entry : Place × Entry) : IO Unit := do
  match entry.2, before.entryAt entry.1 with
  | .directory, none => IO.FS.createDirAll (pathText entry.1)
  | .file content, none => IO.FS.writeBinFile (pathText entry.1) content
  | .file content, some (.file old) =>
      if content == old then pure () else IO.FS.writeBinFile (pathText entry.1) content
  | _, _ => pure ()

/-- What is written to the stream of messages about how a run ended. -/
def endingText : Output.Ending → String
  | .exit _ => ""
  | .usage => "usage: ember [-v] [--color|--no-color] [--version] (lex|view|check|new) ...\n"
  | .crash crash => "error: " ++ crash.message ++ "\n"

end FrontEnd.Disk

open FrontEnd in
/-- Runs the program on the disk. -/
def main (arguments : List String) : IO UInt32 := do
  let here := Path.ofText (← IO.currentDir).toString
  let empty := FileTree.ofWorkingDirectory here.names
  let tree ←
    match CommandLine.parseArguments arguments with
    | none => pure empty
    | some (_, request) => Disk.observeRequest empty request
  let result := CommandLine.run arguments tree
  let output ← IO.getStdout
  let messages ← IO.getStderr
  output.putStr (Output.standardOutput (← output.isTty) result.lines)
  messages.putStr
    (Output.standardError (← messages.isTty) result.lines ++ Disk.endingText result.ending)
  result.tree.entries.forM (Disk.putEntry tree)
  pure result.ending.code.toUInt32

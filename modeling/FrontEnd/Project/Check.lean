import FrontEnd.Files.Glob
import FrontEnd.Output
import FrontEnd.Project.Locate
import FrontEnd.Report
import FrontEnd.Source

/-!
# Checking a project

A check reads every source file of a project in the order of their paths and reports each that is
rejected. One rejected file makes the check fail and does not keep the others from being read.
-/

set_option autoImplicit false

namespace FrontEnd.Project

open Output

/-- The lines of a log, if it is kept. -/
def logLines (verbose : Bool) (events : List Event) : List Line :=
  if verbose then events.map fun event => .log event.text else []

/-- The line of the log on a file that was read. -/
def countLine (verbose : Bool) (path : Path) (decls : List Decl) : List Line :=
  if verbose then
    [.log ("INFO ember.cli: " ++ path.text ++ ": " ++ toString decls.length ++ " declaration(s)")]
  else []

/-- Reads files one after the other: what is written, and whether all were accepted. -/
def checkFiles (verbose : Bool) (tree : FileTree) :
    Reporter → List Path → List Line × Except Crash Bool
  | _, [] => ([], .ok true)
  | reporter, path :: paths =>
      match tree.text path with
      | .error fault => ([], .error (.file fault))
      | .ok text =>
          let reading := read path.text text.content
          let log := logLines verbose reading.events
          match reading.outcome with
          | .ok decls =>
              let (lines, result) := checkFiles verbose tree reporter paths
              (log ++ countLine verbose path decls ++ lines, result)
          | .error (.tooManyDigits count) => (log, .error (.tooManyDigits count))
          | .error (.diagnostic diagnostic) =>
              let (report, reporter) := reporter.render tree.text? diagnostic
              let (lines, result) := checkFiles verbose tree reporter paths
              (log ++ .message report :: lines, result.map fun _ => false)

/-- The directory of the sources: the one that the settings name, or the project itself where there
is no such directory. -/
def sourceDirectory (tree : FileTree) (project : Path) (settings : Settings) :
    Except Crash Path :=
  match settings.directory with
  | .text name =>
      let directory := project.join (.ofText name)
      match tree.seek directory with
      | .error fault => .error (.file fault)
      | .ok (some .directory) => .ok directory
      | .ok _ => .ok project
  | value => .error (.noPath value.typeName)

/-- Checks the sources of a project. -/
def checkSources (verbose color : Bool) (tree : FileTree) (project : Path) (settings : Settings) :
    List Line × Except Crash Bool :=
  match sourceDirectory tree project settings with
  | .error crash => ([], .error crash)
  | .ok directory =>
      let extension := settings.extension.shown
      if !settings.extension.isWritable then ([], .error .unwritable)
      else
        match Glob.findAll tree directory ("*" ++ extension) with
        | .error .invalidPattern => ([], .error .invalidPattern)
        | .error (.file fault) => ([], .error (.file fault))
        | .ok [] => ([.message ("warning: no " ++ extension ++ " files found")], .ok true)
        | .ok paths =>
            checkFiles verbose tree (.ofColor (color && settings.color.isTruthy)) paths

/-- Checks a project with its settings. -/
def checkProject (verbose color : Bool) (tree : FileTree) (project : Path) (settings : Settings) :
    List Line × Ending :=
  let name := settings.name.shown
  let (lines, result) := checkSources verbose color tree project settings
  let lines := .out ("checking " ++ name ++ "...") :: lines
  match result with
  | .error crash => (lines, .crash crash)
  | .ok false => (lines, .exit 1)
  | .ok true => (lines ++ [.out ("checked " ++ name ++ ": no errors")], .exit 0)

/-- Checks the project that a path belongs to. -/
def check (verbose color : Bool) (tree : FileTree) (start : Path) : List Line × Ending :=
  match locate tree start with
  | .error fault => ([], .crash (.file fault))
  | .ok none => ([.message ("error: no " ++ settingsName ++ " found")], .exit 1)
  | .ok (some settingsPath) =>
      match Settings.load tree settingsPath with
      | .error fault => ([], .crash (.settings fault))
      | .ok settings =>
          if settings.name.isWritable then
            checkProject verbose color tree settingsPath.parent settings
          else ([], .crash .unwritable)

end FrontEnd.Project

import FrontEnd.Diagnostic
import FrontEnd.SourceText

/-!
# Reports

A report shows a diagnostic with the source line that it concerns and a caret under the place. Each
file is read once: what a reporter found on first use, unreadable files included, it keeps.
-/

set_option autoImplicit false

namespace FrontEnd

/-- Shows diagnostics, in color or without. -/
structure Reporter where
  color : Bool
  /-- What was found under each file name, newest first. -/
  known : List (String × Option SourceText)

namespace Reporter

/-! ## Styles -/

def bold : String := "\x1b[1m"

def blue : String := "\x1b[1;34m"

def plain : String := "\x1b[0m"

/-- The style of a severity. -/
def severityStyle : Severity → String
  | .error => "\x1b[1;31m"
  | .warning => "\x1b[1;33m"
  | .info => "\x1b[1;36m"

/-- A text in a style, if there is color. -/
def styled (color : Bool) (style text : String) : String :=
  if color then style ++ text ++ plain else text

/-! ## Lines of a report -/

/-- The first line of a report. -/
def headline (color : Bool) (diagnostic : Diagnostic) : String :=
  styled color bold (diagnostic.location.text ++ ":") ++ " " ++
    styled color (severityStyle diagnostic.severity)
      (diagnostic.severity.text ++ "[" ++ diagnostic.code ++ "]") ++
    styled color bold (": " ++ diagnostic.message)

/-- A line number, at least four characters wide. -/
def gutter (line : Int) : String :=
  let digits := (toString line).toList
  String.ofList (List.replicate (4 - digits.length) ' ' ++ digits)

/-- The lines that show where in the source line a place is. -/
def snippet (color : Bool) (diagnostic : Diagnostic) (line : String) : List String :=
  let padding := String.ofList (List.replicate diagnostic.location.col.toNat ' ')
  ["  " ++ styled color blue "   |",
   "  " ++ styled color blue (gutter diagnostic.location.line ++ " |") ++ " " ++ line,
   "  " ++ styled color blue "   |" ++ " " ++ padding ++
     styled color (severityStyle diagnostic.severity) "^"]

/-- A report, given the text of the file. -/
def report (color : Bool) (text : Option SourceText) (diagnostic : Diagnostic) : String :=
  let lines :=
    match text.bind (·.line? diagnostic.location.line) with
    | none => []
    | some line => snippet color diagnostic line
  "\n".intercalate (headline color diagnostic :: lines)

/-! ## Files -/

def ofColor (color : Bool) : Reporter := ⟨color, []⟩

/-- The text of a file, which is loaded on first use. -/
def textOf (load : String → Option SourceText) (reporter : Reporter) (file : String) :
    Option SourceText × Reporter :=
  match reporter.known.lookup file with
  | some text => (text, reporter)
  | none =>
      let text := load file
      (text, { reporter with known := (file, text) :: reporter.known })

/-- Shows a diagnostic. -/
def render (load : String → Option SourceText) (reporter : Reporter) (diagnostic : Diagnostic) :
    String × Reporter :=
  let (text, reporter) := reporter.textOf load diagnostic.location.file
  (report reporter.color text diagnostic, reporter)

end Reporter

end FrontEnd

import FrontEnd.Diagnostic

/-!
# Ranges and notices in an editor

An editor counts lines from zero, and marks a stretch of characters by its two ends. What it can
count to is limited, so not every place can be told to it, and no diagnostic that points there.
-/

set_option autoImplicit false

namespace FrontEnd.Editor

/-- A place between two characters of a document. -/
structure Position where
  line : Int
  character : Int
  deriving DecidableEq, Repr

/-- The greatest number of a line or a character. -/
def greatestIndex : Int := 2147483647

/-- The part of a place that lies outside what an editor can count to, with its value. -/
inductive PositionFault where
  | line (value : Int)
  | character (value : Int)
  deriving DecidableEq, Repr

def PositionFault.message : PositionFault → String
  | .line value => "Position.line " ++ outside value
  | .character value => "Position.character " ++ outside value
where
  /-- The wording for a value outside the limits. -/
  outside (value : Int) : String :=
    "should be in range [0:" ++ toString greatestIndex ++ "], but was " ++ toString value ++ "."

/-- The first part of a place that lies outside the limits: its line goes before its character. -/
def Position.fault? (position : Position) : Option PositionFault :=
  if position.line < 0 ∨ greatestIndex < position.line then some (.line position.line)
  else if position.character < 0 ∨ greatestIndex < position.character then
    some (.character position.character)
  else none

/-- The stretch from one place up to another. -/
structure Range where
  start : Position
  stop : Position
  deriving DecidableEq, Repr

/-- The first part of its two ends that lies outside the limits. -/
def Range.fault? (range : Range) : Option PositionFault :=
  range.start.fault?.or range.stop.fault?

/-- The range of a number of characters at a location. -/
def rangeAt (location : Location) (length : Int) : Range :=
  ⟨⟨location.line - 1, location.col⟩, ⟨location.line - 1, location.col + length⟩⟩

/-- The range of a number of characters at a location, if it can be told to an editor. -/
def checkedRangeAt (location : Location) (length : Int) : Except PositionFault Range :=
  match (rangeAt location length).fault? with
  | some fault => .error fault
  | none => .ok (rangeAt location length)

/-! ## Notices -/

/-- A diagnostic as an editor shows it. -/
structure Notice where
  range : Range
  /-- A number, the lower the graver. -/
  severity : Nat
  /-- Who gives the notice. -/
  source : String
  code : String
  message : String
  deriving DecidableEq, Repr

def severityNumber : Severity → Nat
  | .error => 1
  | .warning => 2
  | .info => 3

/-- The notice of a diagnostic at the one character it points to. -/
def noticeOf (diagnostic : Diagnostic) : Except PositionFault Notice :=
  match checkedRangeAt diagnostic.location 1 with
  | .error fault => .error fault
  | .ok range =>
      .ok ⟨range, severityNumber diagnostic.severity, "ember", diagnostic.code,
        diagnostic.message⟩

end FrontEnd.Editor

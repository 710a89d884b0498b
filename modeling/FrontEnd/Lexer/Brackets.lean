import FrontEnd.Diagnostic

/-!
# Open brackets

Every bracket that is opened leaves a frame in an arena that only grows. A frame knows the frame
that encloses it, and a handle names the innermost open one, so putting an old handle back reopens
exactly the brackets that were open when it was taken.
-/

set_option autoImplicit false

namespace FrontEnd

/-- An opened bracket; `parent` is the index of the frame around it. -/
structure Frame where
  location : Location
  bracket : Bracket
  parent : Option Nat
  deriving DecidableEq, Repr

/-- All brackets ever opened, and the innermost one that is open. -/
structure Brackets where
  frames : Array Frame
  innermost : Option Nat
  deriving DecidableEq, Repr

namespace Brackets

def none : Brackets := ⟨#[], .none⟩

/-- Opens a bracket inside the innermost one. -/
def opened (brackets : Brackets) (location : Location) (bracket : Bracket) : Brackets :=
  ⟨brackets.frames.push ⟨location, bracket, brackets.innermost⟩, some brackets.frames.size⟩

/-- The frame of the innermost open bracket. -/
def top? (brackets : Brackets) : Option Frame :=
  brackets.innermost.bind (brackets.frames[·]?)

/-- Closes the innermost bracket, which must be of the given kind. -/
def closed (brackets : Brackets) (bracket : Bracket) : Except Cause Brackets :=
  match brackets.top? with
  | .none => .error (.unopened bracket)
  | some frame =>
      if frame.bracket = bracket then .ok { brackets with innermost := frame.parent }
      else .error (.mismatched bracket frame.bracket frame.location)

/-- The frames from a handle outwards, at most `depth` of them. -/
def outwards (frames : Array Frame) : Nat → Option Nat → List Frame
  | 0, _ => []
  | depth + 1, handle =>
      match handle.bind (frames[·]?) with
      | .none => []
      | some frame => frame :: outwards frames depth frame.parent

/-- The open brackets, innermost first. -/
def openFrames (brackets : Brackets) : List Frame :=
  outwards brackets.frames brackets.frames.size brackets.innermost

theorem top?_opened (brackets : Brackets) (location : Location) (bracket : Bracket) :
    (brackets.opened location bracket).top? = some ⟨location, bracket, brackets.innermost⟩ := by
  simp [top?, opened]

end Brackets

end FrontEnd

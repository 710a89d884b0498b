/-!
# Locations

A location names a character of a file. Lines count from one and columns from zero, both in
characters. A location that a client made up may lie outside every text, so both are integers.
-/

set_option autoImplicit false

namespace FrontEnd

/-- A place in a file. -/
structure Location where
  file : String
  line : Int
  col : Int
  deriving DecidableEq, Repr, Inhabited

/-- The text of a location, as reports begin with it. -/
def Location.text (location : Location) : String :=
  location.file ++ ":" ++ toString location.line ++ ":" ++ toString location.col

end FrontEnd

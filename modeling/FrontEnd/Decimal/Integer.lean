/-!
# Limits of integers

Integers of very many digits are converted neither from a text nor to one.
-/

set_option autoImplicit false

namespace FrontEnd

/-- The most digits that are ever converted to an integer or from one. -/
def digitLimit : Nat := 4300

/-- The report on a number of more digits than are ever converted. -/
def digitLimitMessage (digits : Nat) : String :=
  "Exceeds the limit (" ++ toString digitLimit ++
    " digits) for integer string conversion: value has " ++ toString digits ++
    " digits; use sys.set_int_max_str_digits() to increase the limit"

/-- The report on an integer that would be written with more digits than are ever converted. -/
def writingLimitMessage : String :=
  "Exceeds the limit (" ++ toString digitLimit ++
    " digits) for integer string conversion; use sys.set_int_max_str_digits() to increase the limit"

/-- Whether an integer has no more digits than can be written. -/
def isWritableInteger (value : Int) : Bool :=
  decide (value.natAbs < Nat.pow 10 digitLimit)

end FrontEnd

/-!
# Binary64 numbers

A finite number is kept as its exact value `significand * 2 ^ exponent`, so that reading and writing
it is arithmetic on natural numbers. Reading rounds to the nearest number, a half to the even
significand; what exceeds every finite number becomes infinite.
-/

set_option autoImplicit false

namespace FrontEnd

/-- A binary64 number. The significand of a finite number is below `2 ^ 53`, and not below `2 ^ 52`
unless the exponent is the least one, `-1074`. -/
inductive Binary64 where
  | finite (negative : Bool) (significand : Nat) (exponent : Int)
  | infinite (negative : Bool)
  | nan
  deriving DecidableEq, Repr, Inhabited

namespace Binary64

/-- Equality as numbers: the two zeros are equal, and what is not a number equals nothing. -/
def sameNumber : Binary64 → Binary64 → Bool
  | .nan, _ => false
  | _, .nan => false
  | .finite _ 0 _, .finite _ 0 _ => true
  | x, y => x == y

/-- The quotient rounded to the nearest natural number, a half to the even one. -/
def roundedQuotient (num den : Nat) : Nat :=
  let quotient := num / den
  let twice := 2 * (num % den)
  if twice < den then quotient
  else if den < twice then quotient + 1
  else if quotient % 2 = 0 then quotient
  else quotient + 1

/-- The quotient of `num` and `den * 2 ^ shift` as a pair of natural numbers. -/
def scaledRatio (num den : Nat) (shift : Int) : Nat × Nat :=
  match shift with
  | .ofNat up => (num, den * Nat.pow 2 up)
  | .negSucc down => (num * Nat.pow 2 (down + 1), den)

/-- The exponent that gives a positive quotient 53 significant bits, or the least exponent. -/
def exponentFor (num den : Nat) : Int :=
  let guess : Int := (num.log2 : Int) - (den.log2 : Int) - 53
  let (scaled, unit) := scaledRatio num den guess
  let exact := if scaled / unit < Nat.pow 2 53 then guess else guess + 1
  max exact (-1074)

/-- The number nearest to `num / den`. -/
def ofRatio (negative : Bool) (num den : Nat) : Binary64 :=
  if num = 0 then .finite negative 0 (-1074)
  else
    let exponent := exponentFor num den
    let (scaled, unit) := scaledRatio num den exponent
    let significand := roundedQuotient scaled unit
    let (significand, exponent) :=
      if significand = Nat.pow 2 53 then (Nat.pow 2 52, exponent + 1) else (significand, exponent)
    if exponent > 971 then .infinite negative else .finite negative significand exponent

/-- The number nearest to `digits * 10 ^ exponent`. Exponents so far out that the answer no longer
depends on them are not raised to a power. -/
def ofDecimal (negative : Bool) (digits : Nat) (exponent : Int) : Binary64 :=
  if digits = 0 then .finite negative 0 (-1074)
  else if exponent > 310 then .infinite negative
  else if exponent + (digits.log2 : Int) / 3 + 1 < -330 then .finite negative 0 (-1074)
  else
    match exponent with
    | .ofNat up => ofRatio negative (digits * Nat.pow 10 up) 1
    | .negSucc down => ofRatio negative digits (Nat.pow 10 (down + 1))

end Binary64

end FrontEnd

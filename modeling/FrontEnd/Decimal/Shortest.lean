import FrontEnd.Decimal.Binary64

/-!
# The shortest decimal of a number

A number is written with the fewest digits that read back to it, and of those decimals with the
nearest one. The numbers that read back form an interval around the value; on the grid of all
decimals with a given count of digits, only the two neighbours of the value need to be tried.
-/

set_option autoImplicit false

namespace FrontEnd

/-- The decimal `digits * 10 ^ exponent`. -/
structure ShortDecimal where
  digits : Nat
  exponent : Int
  deriving DecidableEq, Repr

namespace Binary64

/-- Whether `a * 2 ^ p ≤ b * 10 ^ g`; `strict` asks for less than. -/
def binaryLe (strict : Bool) (a : Nat) (p : Int) (b : Nat) (g : Int) : Bool :=
  let left := a * Nat.pow 2 p.toNat * Nat.pow 10 (-g).toNat
  let right := b * Nat.pow 10 g.toNat * Nat.pow 2 (-p).toNat
  if strict then left < right else left ≤ right

/-- Whether `b * 10 ^ g ≤ a * 2 ^ p`; `strict` asks for less than. -/
def decimalLe (strict : Bool) (b : Nat) (g : Int) (a : Nat) (p : Int) : Bool :=
  let left := b * Nat.pow 10 g.toNat * Nat.pow 2 (-p).toNat
  let right := a * Nat.pow 2 p.toNat * Nat.pow 10 (-g).toNat
  if strict then left < right else left ≤ right

/-- Whether the decimal `n * 10 ^ g` reads back to the positive number `m * 2 ^ q`. It does when it
lies between the midpoints to the two neighbours; a midpoint itself goes to the even significand.
Below a power of two the neighbours are half as far apart. -/
def readsBack (m : Nat) (q : Int) (n : Nat) (g : Int) : Bool :=
  let strict := m % 2 == 1
  let below :=
    if m = Nat.pow 2 52 ∧ q > -1074 then binaryLe strict (4 * m - 1) (q - 2) n g
    else binaryLe strict (2 * m - 1) (q - 1) n g
  below && decimalLe strict n g (2 * m + 1) (q - 1)

/-- The exponent of the leading decimal digit of `m * 2 ^ q`. -/
def leadingExponent (m : Nat) (q : Int) : Int :=
  let guess := ((m.log2 : Int) + q) * 30103 / 100000
  if decimalLe false 1 (guess + 1) m q then guess + 1
  else if decimalLe false 1 guess m q then guess
  else guess - 1

/-- The greatest `n` with `n * 10 ^ g ≤ m * 2 ^ q`. -/
def gridFloor (m : Nat) (q : Int) (g : Int) : Nat :=
  (m * Nat.pow 2 q.toNat * Nat.pow 10 (-g).toNat) /
    (Nat.pow 10 g.toNat * Nat.pow 2 (-q).toNat)

/-- Of two neighbours `n` and `n + 1` on the grid `10 ^ g`, the one nearer to `m * 2 ^ q`; halfway
between them, the even one. -/
def nearerNeighbour (m : Nat) (q : Int) (n : Nat) (g : Int) : Nat :=
  if decimalLe true (2 * n + 1) g (2 * m) q then n + 1
  else if binaryLe true (2 * m) q (2 * n + 1) g then n
  else if n % 2 = 0 then n else n + 1

/-- The decimal on the grid `10 ^ g` that reads back to `m * 2 ^ q`, if there is one. -/
def onGrid (m : Nat) (q : Int) (g : Int) : Option ShortDecimal :=
  let n := gridFloor m q g
  match readsBack m q n g, readsBack m q (n + 1) g with
  | true, true => some ⟨nearerNeighbour m q n g, g⟩
  | true, false => some ⟨n, g⟩
  | false, true => some ⟨n + 1, g⟩
  | false, false => none

/-- Tries the grids from `10 ^ g` downwards; the value itself lies on the last one, so `tries` only
bounds the search. -/
def searchGrids (m : Nat) (q : Int) : Nat → Int → ShortDecimal
  | 0, g => ⟨gridFloor m q g, g⟩
  | tries + 1, g =>
      match onGrid m q g with
      | some decimal => decimal
      | none => searchGrids m q tries (g - 1)

/-- The shortest decimal that reads back to the positive number `m * 2 ^ q`. -/
def shortest (m : Nat) (q : Int) : ShortDecimal :=
  searchGrids m q 17 (leadingExponent m q)

end Binary64

/-- Decimal digits of a natural number without its trailing zeros, and how many were dropped. -/
def trimZeros : Nat → Nat → Nat × Nat
  | 0, n => (n, 0)
  | fuel + 1, n =>
      if n ≠ 0 ∧ n % 10 = 0 then
        let (trimmed, dropped) := trimZeros fuel (n / 10)
        (trimmed, dropped + 1)
      else (n, 0)

/-- Where positional notation ends and how an exponent is written. -/
structure DecimalLayout where
  /-- The least exponent of a leading digit that is written positionally. -/
  leastPositional : Int
  /-- The least exponent of a leading digit above that which is no longer written positionally. -/
  positionalEnd : Int
  /-- The least count of digits in an exponent. -/
  exponentWidth : Nat

/-- Numbers from `0.0001` to below ten to the sixteenth are written positionally and always with a
fraction; the exponent of another number has a sign and at least two digits. -/
def numberLayout : DecimalLayout := ⟨-4, 16, 2⟩

namespace DecimalLayout

/-- The text of an exponent, with its sign. -/
def exponentText (layout : DecimalLayout) (exponent : Int) : String :=
  let digits := (Nat.toDigits 10 exponent.natAbs)
  let padding := List.replicate (layout.exponentWidth - digits.length) '0'
  (if exponent < 0 then "e-" else "e+") ++ String.ofList (padding ++ digits)

/-- The text of a decimal. -/
def text (layout : DecimalLayout) (decimal : ShortDecimal) : String :=
  let (trimmed, dropped) := trimZeros decimal.digits.log2 decimal.digits
  let digits := Nat.toDigits 10 trimmed
  let point : Int := decimal.exponent + dropped + digits.length
  let leading := point - 1
  if layout.leastPositional ≤ leading ∧ leading < layout.positionalEnd then
    if point ≤ 0 then
      "0." ++ String.ofList (List.replicate (-point).toNat '0' ++ digits)
    else if digits.length ≤ point.toNat then
      String.ofList (digits ++ List.replicate (point.toNat - digits.length) '0') ++ ".0"
    else
      String.ofList (digits.take point.toNat) ++ "." ++ String.ofList (digits.drop point.toNat)
  else
    match digits with
    | [] => "0.0"
    | [single] => String.ofList [single] ++ layout.exponentText leading
    | first :: more => String.ofList (first :: '.' :: more) ++ layout.exponentText leading

end DecimalLayout

namespace Binary64

/-- The text of a number: the shortest decimal that reads back to it. -/
def text : Binary64 → String
  | .nan => "nan"
  | .infinite negative => if negative then "-inf" else "inf"
  | .finite negative significand exponent =>
      let magnitude :=
        if significand = 0 then "0.0" else numberLayout.text (shortest significand exponent)
      if negative then "-" ++ magnitude else magnitude

end Binary64

end FrontEnd

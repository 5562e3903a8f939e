/-!
The shortest decimal that reads back. A binary number `mantissa · 2 ^ exponent` stands for every
real that rounds to it: those up to halfway to its neighbours, the two halfway points included
exactly when the mantissa is even. `shortest` takes the coarsest decimal grid that has a point
among them; of two such points it takes the nearer.

All comparisons are exact, in multiples of a quarter of the binary unit.
-/

namespace ChartParse.Decimal

/-- A positive binary number. Below a power of two the numbers lie twice as close, which makes its
interval narrow on that side. -/
structure Binary where
  mantissa : Nat
  exponent : Int
  narrowBelow : Bool
  deriving DecidableEq, Repr

/-- `mantissa · 2 ^ exponent` in quarters of the unit `2 ^ exponent`. -/
def Binary.quarters (x : Binary) : Nat :=
  4 * x.mantissa

def Binary.lowQuarters (x : Binary) : Nat :=
  x.quarters - if x.narrowBelow then 1 else 2

def Binary.highQuarters (x : Binary) : Nat :=
  x.quarters + 2

/-- A quarter of the binary unit, measured in `10 ^ place`, as a fraction. -/
def Binary.quarterOver (x : Binary) (place : Int) : Nat × Nat :=
  let twos := x.exponent - 2
  (Nat.pow 2 twos.toNat * Nat.pow 10 (-place).toNat,
    Nat.pow 2 (-twos).toNat * Nat.pow 10 place.toNat)

/-- Whether `point · 10 ^ place` rounds to the number. -/
def Binary.holds (x : Binary) (place : Int) (point : Nat) : Bool :=
  let (quarter, scale) := x.quarterOver place
  let low := x.lowQuarters * quarter
  let high := x.highQuarters * quarter
  if x.mantissa % 2 = 0 then low ≤ point * scale && point * scale ≤ high
  else low < point * scale && point * scale < high

/-- The point of the grid `10 ^ place` that stands for the number, if one of the two points beside
it does. -/
def Binary.gridPoint? (x : Binary) (place : Int) : Option Nat :=
  let (quarter, scale) := x.quarterOver place
  let below := x.quarters * quarter / scale
  let twiceOver := 2 * (x.quarters * quarter - below * scale)
  match x.holds place below, x.holds place (below + 1) with
  | true, true =>
    -- The nearer one, and of two that are equally near the even one.
    if twiceOver < scale || (twiceOver = scale && below % 2 = 0) then some below
    else some (below + 1)
  | true, false => some below
  | false, true => some (below + 1)
  | false, false => none

def digitCount (number : Nat) : Nat :=
  (Nat.toDigits 10 number).length

def Binary.firstPlace (x : Binary) : Int :=
  -- Every positive double exceeds `10 ^ -400`.
  let (quarter, scale) := x.quarterOver (-400)
  (digitCount (x.quarters * quarter / scale) : Int) - 401

/-- The shortest decimal `(digits, place)` with `digits · 10 ^ place` in the interval. -/
def Binary.shortest (x : Binary) : Nat × Int :=
  let first := x.firstPlace
  -- Seventeen digits always suffice.
  let found := (List.range 17).findSome? fun (k : Nat) =>
    (x.gridPoint? (first - k)).map fun point => (point, first - k)
  found.getD (0, 0)

end ChartParse.Decimal

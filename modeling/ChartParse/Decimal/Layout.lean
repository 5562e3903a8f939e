/-!
How the digits of a decimal are laid out: positionally when the exponent of the first digit is
moderate, otherwise in scientific form. A positional number always has a fraction.
-/

namespace ChartParse.Decimal

/-- The exponents that are written positionally, and the least digits of an exponent that is
written out. -/
structure Layout where
  lowest : Int
  highest : Int
  exponentDigits : Nat
  deriving DecidableEq, Repr

def significant (digits : List Char) : List Char :=
  -- Trailing zeros say nothing.
  (digits.reverse.dropWhile (· == '0')).reverse

/-- Digits with the point behind the first `whole` of them, and zeros where digits are missing. -/
def positional (digits : List Char) (whole : Int) : List Char :=
  let zeros := List.replicate (-whole).toNat '0' ++ digits
  let front := zeros.take whole.toNat
  let fraction := zeros.drop whole.toNat
  (if front.isEmpty then ['0'] else front ++ List.replicate (whole.toNat - front.length) '0')
    ++ '.' :: (if fraction.isEmpty then ['0'] else fraction)

/-- One digit, the others behind a point, and the exponent with its sign. -/
def Layout.scientific (layout : Layout) (digits : List Char) (exponent : Int) : List Char :=
  let written := Nat.toDigits 10 exponent.natAbs
  let fraction := digits.drop 1
  digits.take 1 ++ (if fraction.isEmpty then [] else '.' :: fraction)
    ++ 'e' :: (if exponent < 0 then '-' else '+')
    :: List.replicate (layout.exponentDigits - written.length) '0' ++ written

/-- The text of `number · 10 ^ place`, for a positive number. -/
def Layout.write (layout : Layout) (number : Nat) (place : Int) : List Char :=
  let written := Nat.toDigits 10 number
  let exponent := place + written.length - 1
  let digits := significant written
  if layout.lowest ≤ exponent && exponent ≤ layout.highest then positional digits (exponent + 1)
  else layout.scientific digits exponent

end ChartParse.Decimal

import ChartParse.Decimal.Numeral
import ChartParse.Decimal.Shortest
import ChartParse.Decimal.Layout

/-!
Double-precision numbers as texts: `ofNumeral` rounds a written number to the nearest double,
and `text` writes the shortest decimal that reads back.
-/

namespace ChartParse.Decimal

inductive Double where
  | nan
  | infinite (negative : Bool)
  | zero (negative : Bool)
  | positive (negative : Bool) (magnitude : Binary)

/-- The parts of a double: a sign bit, eleven bits of exponent and fifty-two of fraction. -/
def Double.ofBits (bits : UInt64) : Double :=
  let negative := bits >>> 63 != 0
  let exponent := (bits >>> 52 &&& 0x7FF).toNat
  let fraction := (bits &&& 0xFFFFFFFFFFFFF).toNat
  if exponent = 0x7FF then
    if fraction = 0 then .infinite negative else .nan
  else if exponent = 0 then
    if fraction = 0 then .zero negative else .positive negative ⟨fraction, -1074, false⟩
  else .positive negative ⟨0x10000000000000 + fraction, exponent - 1075, fraction = 0 && 1 < exponent⟩

-- Positionally from `0.0001` to below `10 ^ 16`, and at least two digits in an exponent.
def scoreLayout : Layout := ⟨-4, 15, 2⟩

def signed (negative : Bool) (text : List Char) : String :=
  String.ofList (if negative then '-' :: text else text)

def text (x : Float) : String :=
  match Double.ofBits x.toBits with
  | .nan => "nan"
  | .infinite negative => if negative then "-inf" else "inf"
  | .zero negative => if negative then "-0.0" else "0.0"
  | .positive negative magnitude =>
    let (digits, place) := magnitude.shortest
    signed negative (scoreLayout.write digits place)

/-- The double nearest to `digits · 10 ^ exponent`. -/
def nearest (digits : Nat) (exponent : Int) : Float :=
  -- Beyond four hundred places on either side the exact value no longer matters.
  let place := exponent + digitCount digits
  if digits = 0 || place < -400 then 0
  else if 400 < place then 1 / 0
  else Float.ofScientific digits (exponent < 0) exponent.natAbs

def ofNumeral : Numeral → Float
  | .finite negative digits exponent =>
    let x := nearest digits exponent
    if negative then -x else x
  | .infinite negative => if negative then -1 / 0 else 1 / 0
  | .nan => 0 / 0

def ofText? (text : List Char) : Option Float :=
  (Numeral.ofText? text).map ofNumeral

end ChartParse.Decimal

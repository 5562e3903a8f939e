import ChartParse.Decimal.Binary64

/-!
Scales of scores. The parser itself only adds and compares scores; what surrounds it reads and
writes them. A scale says how.
-/

namespace ChartParse

/-- How the scores of one type are read and written, which of them are probabilities (above zero
and at most one), and the logarithm that makes a weight of a probability. -/
structure Scale (σ : Type) where
  read? : List Char → Option σ
  write : σ → String
  isProbability : σ → Bool
  log : σ → σ

/-- Doubles, written with the fewest digits that read back. A NaN is no probability. -/
def Scale.binary64 : Scale Float where
  read? := Decimal.ofText?
  write := Decimal.text
  isProbability p := 0 < p && p ≤ 1
  log := Float.log2

end ChartParse

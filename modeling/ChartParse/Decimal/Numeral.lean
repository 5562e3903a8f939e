import ChartParse.Text.Blank
import ChartParse.Text.Digit

/-!
Numbers as texts write them. A numeral may use the digits of any script, and single underscores
may stand between its digits. Blanks around it do not count; the four separator controls
U+001C to U+001F are no blanks here.

`Numeral.ofText?` reads a number with an optional fraction and exponent, an infinity or a NaN;
`Whole.ofText` reads a whole number and says why a text is none.
-/

namespace ChartParse

/-- A written number: `digits · 10 ^ exponent` with a sign, an infinity, or no number. -/
inductive Numeral where
  | finite (negative : Bool) (digits : Nat) (exponent : Int)
  | infinite (negative : Bool)
  | nan
  deriving DecidableEq, Repr

namespace Numeral

def isMargin (c : Char) : Bool :=
  Text.isBlank c && !(0x1C ≤ c.toNat && c.toNat ≤ 0x1F)

/-- The digits that a text starts with, and the text after them. -/
def takeDigitsAfter (digitBefore : Bool) : List Char → List Nat × List Char
  | [] => ([], [])
  | c :: rest =>
    match Text.digitValue? c with
    | some digit =>
      let (digits, after) := takeDigitsAfter true rest
      (digit :: digits, after)
    | none =>
      -- An underscore is passed over where a digit stands on both sides.
      if c = '_' && digitBefore && rest.head?.any Text.isDigit then takeDigitsAfter false rest
      else ([], c :: rest)

def takeDigits (text : List Char) : List Nat × List Char :=
  takeDigitsAfter false text

/-- Whether a text starts with a minus, and the text after its sign. -/
def takeSign : List Char → Bool × List Char
  | '-' :: rest => (true, rest)
  | '+' :: rest => (false, rest)
  | text => (false, text)

/-- The exponent in what follows the digits of a number; nothing stands for zero. -/
def readExponent : List Char → Option Int
  | [] => some 0
  | mark :: rest =>
    if mark = 'e' || mark = 'E' then
      let (negative, rest) := takeSign rest
      match takeDigits rest with
      | ([], _) | (_, _ :: _) => none
      | (digits, []) => some (if negative then -(Text.ofDigits digits : Int) else Text.ofDigits digits)
    else none

/-- A number without a sign: digits, perhaps a point among or beside them, perhaps an exponent. -/
def readUnsigned (negative : Bool) (text : List Char) : Option Numeral := do
  let (whole, rest) := takeDigits text
  let (fraction, rest) := match rest with
    | '.' :: rest => takeDigits rest
    | _ => ([], rest)
  if whole.isEmpty && fraction.isEmpty then none
  let exponent ← readExponent rest
  return finite negative (Text.ofDigits (whole ++ fraction)) (exponent - fraction.length)

def ofText? (text : List Char) : Option Numeral :=
  let (negative, text) := takeSign (Text.trimBy isMargin text)
  let name := String.ofList (text.map Char.toLower)
  if name = "inf" || name = "infinity" then some (infinite negative)
  else if name = "nan" then some nan
  else readUnsigned negative text

end Numeral

/-! ### Whole numbers -/

namespace Whole

inductive Error where
  | malformed
  | tooLong (digits : Nat)
  deriving DecidableEq, Repr

/-- The most digits a whole number may be written with, leading zeros included. -/
def digitLimit : Nat := 4300

def ofText (text : List Char) : Except Error Int :=
  let (negative, body) := Numeral.takeSign (Text.trimBy Numeral.isMargin text)
  let (digits, rest) := Numeral.takeDigits body
  -- The digits are counted before what follows them is looked at, but a misplaced underscore
  -- spoils the count.
  if digits.isEmpty || rest.head? = some '_' then .error .malformed
  else if digitLimit < digits.length then .error (.tooLong digits.length)
  else if !rest.isEmpty then .error .malformed
  else .ok (if negative then -(Text.ofDigits digits : Int) else Text.ofDigits digits)

end Whole

end ChartParse

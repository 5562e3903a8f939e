import ChartParse.Decimal.Numeral
import ChartParse.Text.Quoted

/-!
Beam widths as the command line gives them: whole numbers that are not negative.
-/

namespace ChartParse.BeamWidth

inductive Error where
  | notWhole (text : List Char)
  | tooLong (digits : Nat)
  | negative (width : Int)
  deriving DecidableEq, Repr

/-- A text between quotes, of which only so much is shown. -/
def shown (text : List Char) : String :=
  String.ofList ((Text.quoted text).toList.take 200)

def Error.message : Error → String
  | .notWhole text => "invalid literal for int() with base 10: " ++ shown text
  | .tooLong digits =>
    "Exceeds the limit (" ++ toString Whole.digitLimit ++
      " digits) for integer string conversion: value has " ++ toString digits ++
      " digits; use sys.set_int_max_str_digits() to increase the limit"
  | .negative width => "beam width must be a non-negative integer, got " ++ toString width

def ofText (text : List Char) : Except Error Nat :=
  match Whole.ofText text with
  | .error .malformed => .error (.notWhole text)
  | .error (.tooLong digits) => .error (.tooLong digits)
  | .ok (.ofNat width) => .ok width
  | .ok width => .error (.negative width)

end ChartParse.BeamWidth

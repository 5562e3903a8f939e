/-!
Blanks: the characters that separate words and that count as nothing at either end of a line.

`trim` takes the blanks off both ends of a text: what is left does not end with one
(`isBlank_getLast?_trim`), and a text without blank ends is left alone (`trim_eq_self`).
-/

namespace ChartParse.Text

/-- The blanks as closed ranges of code points: the ASCII controls and separators, the next-line
control, and the space, line and paragraph separators of Unicode. -/
def blankRanges : List (Nat × Nat) :=
  [(0x09, 0x0D), (0x1C, 0x20), (0x85, 0x85), (0xA0, 0xA0), (0x1680, 0x1680), (0x2000, 0x200A),
    (0x2028, 0x2029), (0x202F, 0x202F), (0x205F, 0x205F), (0x3000, 0x3000)]

def inRanges (ranges : List (Nat × Nat)) (c : Char) : Bool :=
  ranges.any fun (low, high) => low ≤ c.toNat && c.toNat ≤ high

def isBlank (c : Char) : Bool :=
  inRanges blankRanges c

/-- A text less the characters of a class at its two ends. -/
def trimBy (p : Char → Bool) (text : List Char) : List Char :=
  ((text.dropWhile p).reverse.dropWhile p).reverse

def trim (text : List Char) : List Char :=
  trimBy isBlank text

/-! ### Laws of trimming -/

theorem head?_dropWhile_not (p : Char → Bool) (text : List Char) {c : Char}
    (first : (text.dropWhile p).head? = some c) : p c = false := by
  induction text with
  | nil => simp at first
  | cons d rest ih =>
    by_cases dropped : p d
    · exact ih (by simpa [dropped] using first)
    · have same : d = c := by simpa [dropped] using first
      simpa [same] using dropped

theorem getLast?_trimBy_not (p : Char → Bool) (text : List Char) {c : Char}
    (last : (trimBy p text).getLast? = some c) : p c = false := by
  rw [trimBy, List.getLast?_reverse] at last
  exact head?_dropWhile_not p _ last

theorem dropWhile_eq_self (p : Char → Bool) {text : List Char}
    (kept : ∀ c, text.head? = some c → p c = false) : text.dropWhile p = text := by
  cases text with
  | nil => rfl
  | cons c rest => simp [kept c rfl]

theorem trimBy_eq_self (p : Char → Bool) {text : List Char}
    (first : ∀ c, text.head? = some c → p c = false)
    (last : ∀ c, text.getLast? = some c → p c = false) : trimBy p text = text := by
  rw [trimBy, dropWhile_eq_self p first, dropWhile_eq_self p, List.reverse_reverse]
  intro c h
  exact last c (by simpa using h)

theorem trim_eq_self {text : List Char} (first : ∀ c, text.head? = some c → isBlank c = false)
    (last : ∀ c, text.getLast? = some c → isBlank c = false) : trim text = text :=
  trimBy_eq_self isBlank first last

theorem isBlank_getLast?_trim {text : List Char} {c : Char}
    (last : (trim text).getLast? = some c) : isBlank c = false :=
  getLast?_trimBy_not isBlank text last

end ChartParse.Text

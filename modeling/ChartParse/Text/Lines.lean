import ChartParse.Text.Utf8

/-!
Lines of a text. A line feed, a carriage return, and a carriage return with a line feed each end a
line; nothing else does. A last line needs no end.

`lines` gives the lines of a whole text. Of a text that may go on, only the lines in
`finishedLines` are settled: a carriage return at its end might yet be joined by a line feed, so
its line is still open.
-/

namespace ChartParse.Text

/-- A text read up to some character: the finished lines and the characters of the open one, both
latest first, and whether a carriage return has just closed that line. -/
structure LineScan where
  finished : List (List Char) := []
  line : List Char := []
  returned : Bool := false
  deriving DecidableEq, Repr

def LineScan.finish (scan : LineScan) : LineScan :=
  ⟨scan.line.reverse :: scan.finished, [], false⟩

def LineScan.step (scan : LineScan) (c : Char) : LineScan :=
  if c = '\n' then scan.finish
  else
    -- The carriage return before was a line end of its own.
    let scan := if scan.returned then scan.finish else scan
    if c = '\r' then { scan with returned := true } else { scan with line := c :: scan.line }

def scanLines (text : List Char) : LineScan :=
  text.foldl LineScan.step {}

def finishedLines (text : List Char) : List (List Char) :=
  (scanLines text).finished.reverse

def lines (text : List Char) : List (List Char) :=
  let scan := scanLines text
  if scan.returned || !scan.line.isEmpty then scan.finish.finished.reverse
  else scan.finished.reverse

structure Reading where
  lines : List (List Char)
  failure : Option Utf8.Malformed
  deriving DecidableEq, Repr

def readLines (bytes : List UInt8) : Reading :=
  match Utf8.decode bytes with
  | (text, none) => ⟨lines text, none⟩
  -- The lines that were finished before the bad read stand.
  | (text, some malformed) => ⟨finishedLines text, some malformed⟩

end ChartParse.Text

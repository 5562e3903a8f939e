import ChartParse.Text.Quoted

/-!
Reading UTF-8. The decoder takes one byte at a time and holds the beginning of an unfinished
character. A byte that cannot go on with what is held is an error at the longest beginning of a
well-formed character, so an error is known at the first byte that rules the text out.

Bytes arrive in reads, and a read is decoded whole before any of its text is used: the text of the
reads before a bad one is all that there is. Positions count from the first byte that the decoder
holds when a read starts.
-/

namespace ChartParse.Text.Utf8

inductive Fault where
  | invalidStart
  | invalidContinuation
  | unexpectedEnd
  deriving DecidableEq, Repr

def Fault.reason : Fault → String
  | .invalidStart => "invalid start byte"
  | .invalidContinuation => "invalid continuation byte"
  | .unexpectedEnd => "unexpected end of data"

/-- Bytes that begin no character. -/
structure Malformed where
  position : Nat
  bytes : List UInt8
  fault : Fault
  deriving DecidableEq, Repr

def byteText (byte : UInt8) : String :=
  String.ofList ('0' :: 'x' :: hexDigits 2 byte.toNat)

def Malformed.message (malformed : Malformed) : String :=
  let place := match malformed.bytes with
    | [byte] => "byte " ++ byteText byte ++ " in position " ++ toString malformed.position
    | bytes =>
      "bytes in position " ++ toString malformed.position ++ "-" ++
        toString (malformed.position + bytes.length - 1)
  "'utf-8' codec can't decode " ++ place ++ ": " ++ malformed.fault.reason

/-- The decoder between two bytes: the characters so far (latest first), the held bytes of an
unfinished character, and the position of the first byte not yet decoded. -/
structure Decoder where
  text : List Char := []
  held : List UInt8 := []
  position : Nat := 0
  deriving DecidableEq, Repr

/-- How many bytes a character has that begins with this one; zero if none does. -/
def sequenceLength (lead : UInt8) : Nat :=
  if lead ≤ 0x7F then 1
  -- Continuation bytes, and leads of characters that one byte would have spelt.
  else if lead < 0xC2 then 0
  else if lead ≤ 0xDF then 2
  else if lead ≤ 0xEF then 3
  else if lead ≤ 0xF4 then 4
  else 0

def isSecond (lead byte : UInt8) : Bool :=
  -- From below these keep out longer spellings than needed, from above surrogates and code points
  -- past the last.
  let low : UInt8 := if lead = 0xE0 then 0xA0 else if lead = 0xF0 then 0x90 else 0x80
  let high : UInt8 := if lead = 0xED then 0x9F else if lead = 0xF4 then 0x8F else 0xBF
  low ≤ byte && byte ≤ high

def isContinuation (byte : UInt8) : Bool :=
  0x80 ≤ byte && byte ≤ 0xBF

/-- The first two bytes of a surrogate. They are held until the next byte or the end condemns
them, though no character begins with them. -/
def isSurrogate : List UInt8 → Bool
  | [lead, second] => lead = 0xED && 0xA0 ≤ second && second ≤ 0xBF
  | _ => false

def continues (held : List UInt8) (byte : UInt8) : Bool :=
  match held with
  | [] => sequenceLength byte != 0
  | [lead] => isSecond lead byte || isSurrogate [lead, byte]
  | _ => isContinuation byte && !isSurrogate held

def codePoint : List UInt8 → Nat
  | [a] => a.toNat
  | [a, b] => (a.toNat - 0xC0) * 0x40 + (b.toNat - 0x80)
  | [a, b, c] => ((a.toNat - 0xE0) * 0x40 + (b.toNat - 0x80)) * 0x40 + (c.toNat - 0x80)
  | [a, b, c, d] =>
    (((a.toNat - 0xF0) * 0x40 + (b.toNat - 0x80)) * 0x40 + (c.toNat - 0x80)) * 0x40
      + (d.toNat - 0x80)
  | _ => 0

def Decoder.malformed (decoder : Decoder) (fault : Fault) : Malformed :=
  -- Of a surrogate only the lead byte is bad.
  if isSurrogate decoder.held then
    ⟨decoder.position, decoder.held.take 1, .invalidContinuation⟩
  else ⟨decoder.position, decoder.held, fault⟩

def Decoder.step (decoder : Decoder) (byte : UInt8) : Except Malformed Decoder :=
  let bytes := decoder.held ++ [byte]
  if !continues decoder.held byte then
    .error (if decoder.held.isEmpty then ⟨decoder.position, [byte], .invalidStart⟩
      else decoder.malformed .invalidContinuation)
  else if bytes.length = sequenceLength (bytes.headD 0) then
    .ok ⟨Char.ofNat (codePoint bytes) :: decoder.text, [], decoder.position + bytes.length⟩
  else .ok { decoder with held := bytes }

def Decoder.atEnd (decoder : Decoder) : Option Malformed :=
  if decoder.held.isEmpty then none else some (decoder.malformed .unexpectedEnd)

/-- The text of the reads before the first bad one, and what is wrong with that one. -/
def Decoder.run (decoder : Decoder) : List (List UInt8) → List Char × Option Malformed
  | [] => (decoder.text.reverse, decoder.atEnd)
  | read :: later =>
    match read.foldlM Decoder.step decoder with
    | .ok decoded => Decoder.run { decoded with position := 0 } later
    | .error malformed => (decoder.text.reverse, some malformed)

def readSize : Nat := 8192

/-- The bytes of a file in reads of one size, the last of which may be shorter. -/
def reads (size : Nat) (bytes : List UInt8) : List (List UInt8) :=
  (List.range ((bytes.length + size - 1) / size)).map fun k => (bytes.drop (k * size)).take size

/-- The text of a file up to the first bad read, and what is wrong with that one. -/
def decode (bytes : List UInt8) : List Char × Option Malformed :=
  Decoder.run {} (reads readSize bytes)

end ChartParse.Text.Utf8

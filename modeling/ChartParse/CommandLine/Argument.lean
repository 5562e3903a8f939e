import ChartParse.CommandLine.Options

/-!
The arguments of a command line, one by one: which are options and which are values.

An option may be shortened to a beginning that no other option shares. Behind an equals sign it
may have a text attached to it, if it is spelled in full or has two dashes; an option of one dash
and one letter has the rest of the argument attached without such a sign. After a first `--` every
argument is a value, and so is one that reads as a negative number or has a space in it, unless it
spells an option.
-/

namespace ChartParse

/-- An option as an argument spells it: its spelling in full, and the text attached to it. -/
structure Spelled where
  flag : Flag
  spelling : List Char
  attached : Option (List Char)
  deriving DecidableEq, Repr

inductive Argument where
  | value (text : List Char)
  -- The `--` after which nothing is an option.
  | divider
  | option (spelled : Spelled)
  -- It looks like an option, but there is none of this spelling.
  | unknown (text : List Char)
  deriving DecidableEq, Repr

namespace Argument

def text : Argument → List Char
  | value text => text
  | divider => ['-', '-']
  | option spelled => spelled.spelling
  | unknown text => text

def isOption : Argument → Bool
  | option _ | unknown _ => true
  | _ => false

def isValue : Argument → Bool
  | value _ => true
  | _ => false

def splitEquals (text : List Char) : List Char × Option (List Char) :=
  let (stem, rest) := text.span (· != '=')
  (stem, rest.tail?)

def assigned? (text : List Char) : Option Spelled := do
  let (spelling, behind) := splitEquals text
  let attached ← behind
  let flag ← Flag.spelled? spelling
  return ⟨flag, spelling, some attached⟩

/-- The options that an argument may be short for. -/
def candidates (text : List Char) : List Spelled :=
  match text with
  | '-' :: '-' :: _ =>
    let (stem, attached) := splitEquals text
    Flag.table.filterMap fun (spelling, flag) =>
      if stem.isPrefixOf spelling then some ⟨flag, spelling, attached⟩ else none
  | _ =>
    Flag.table.filterMap fun (spelling, flag) =>
      if spelling = text.take 2 then some ⟨flag, spelling, some (text.drop 2)⟩
      else if text.isPrefixOf spelling then some ⟨flag, spelling, none⟩
      else none

/-- A minus and digits, with perhaps a point before or among them but not behind; a line feed may
follow. -/
def isNegativeNumber : List Char → Bool
  | '-' :: rest =>
    let number := if rest.getLast? = some '\n' then rest.dropLast else rest
    match number.dropWhile Text.isDigit with
    | [] => !number.isEmpty
    | '.' :: fraction => !fraction.isEmpty && fraction.all Text.isDigit
    | _ => false
  | _ => false

def classify (text : List Char) : Except UsageError Argument :=
  if text.head? ≠ some '-' || text = ['-'] then .ok (.value text)
  else match Flag.spelled? text, assigned? text, candidates text with
    | some flag, _, _ => .ok (.option ⟨flag, text, none⟩)
    | none, some spelled, _ => .ok (.option spelled)
    | none, none, [spelled] => .ok (.option spelled)
    | none, none, [] =>
      .ok (if isNegativeNumber text || text.contains ' ' then .value text else .unknown text)
    | none, none, several => .error (.ambiguous text (several.map Spelled.spelling))

def classifyAll : List (List Char) → Except UsageError (List Argument)
  | [] => .ok []
  -- Only the first divider divides.
  | ['-', '-'] :: rest => .ok (.divider :: rest.map .value)
  | text :: rest => do
    let argument ← classify text
    return argument :: (← classifyAll rest)

end Argument

end ChartParse

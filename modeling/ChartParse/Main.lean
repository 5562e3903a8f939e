import ChartParse.Session

/-!
The command line program. It reads every file that its arguments name, runs the session on their
contents, and writes what the session leaves behind.
-/

namespace ChartParse

/-- The fault that a failed attempt to read reports. Systems give the number of a fault with
either sign. -/
def OpenFault.ofError : IO.Error → OpenFault
  | .noFileOrDirectory _ _ _ => .notFound
  | .permissionDenied _ _ _ => .denied
  | .inappropriateType _ number _ =>
    if number = 21 || number = 0 - 21 then .isDirectory else .notDirectory
  | _ => .unreadable

def readBytes (path : Path) : IO (Except OpenFault (List UInt8)) := do
  if path.text.contains '\x00' then return .error .nullCharacter
  try
    return .ok (← IO.FS.readBinFile path.text).toList
  catch error =>
    return .error (.ofError error)

def readNamed (arguments : List String) : IO (List (Path × Except OpenFault (List UInt8))) :=
  match CommandLine.parse arguments with
  | .error _ => return []
  | .ok options => (options.grammar :: options.sentences).mapM fun path => do
    return (path, ← readBytes path)

end ChartParse

open ChartParse

def main (arguments : List String) : IO UInt32 := do
  let contents ← readNamed arguments
  let files : FileReader := fun path => (contents.lookup path).getD (.error .notFound)
  match Session.run Scale.binary64 "cky" files arguments with
  | .error breakdown =>
    IO.eprintln breakdown.message
    return 1
  | .ok transcript =>
    transcript.log.forM fun line => IO.eprintln line
    transcript.output.forM fun line => IO.println line
    return transcript.exit.toUInt32

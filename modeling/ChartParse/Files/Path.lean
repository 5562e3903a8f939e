import ChartParse.Text.Fields

/-!
Paths in normal form. Empty components and components `.` say nothing and are left out; `..` is
kept, because what it names depends on the files. A path that starts with a slash is absolute; two
slashes, but not three or more, are a start of their own.
-/

namespace ChartParse

structure Path where
  root : String
  components : List String
  deriving DecidableEq, Repr

namespace Path

def rootOf : List Char → String
  | ['/', '/'] => "//"
  | '/' :: '/' :: c :: _ => if c = '/' then "/" else "//"
  | '/' :: _ => "/"
  | _ => ""

def ofText (text : String) : Path where
  root := rootOf text.toList
  components :=
    ((Text.fields (· == '/') text.toList).map String.ofList).filter fun part =>
      part != "" && part != "."

def text (path : Path) : String :=
  if path.root = "" && path.components.isEmpty then "."
  else path.root ++ "/".intercalate path.components

end Path

end ChartParse

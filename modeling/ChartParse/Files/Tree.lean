import ChartParse.Files.Path
import ChartParse.Text.Quoted

/-!
Files and why they cannot be opened. A file tree gives the contents of files below one directory;
a directory exists if it is listed or something lies in it. Paths are followed from that directory,
component by component, and nothing but directories is known above it.
-/

namespace ChartParse

inductive OpenFault where
  | notFound
  | notDirectory
  | isDirectory
  | nameTooLong
  | denied
  | unreadable
  -- No system can be asked for a path with a null character in it.
  | nullCharacter
  deriving DecidableEq, Repr

def OpenFault.report : OpenFault → String
  | notFound => "[Errno 2] No such file or directory"
  | unreadable => "[Errno 5] Input/output error"
  | denied => "[Errno 13] Permission denied"
  | notDirectory => "[Errno 20] Not a directory"
  | isDirectory => "[Errno 21] Is a directory"
  | nameTooLong => "[Errno 36] File name too long"
  | nullCharacter => "embedded null byte"

structure OpenError where
  path : Path
  fault : OpenFault
  deriving DecidableEq, Repr

def OpenError.isRefusal (error : OpenError) : Bool :=
  error.fault = .nullCharacter

def OpenError.message (error : OpenError) : String :=
  if error.isRefusal then error.fault.report
  else error.fault.report ++ ": " ++ Text.quoted error.path.text.toList

/-- Where the contents of files come from. -/
abbrev FileReader := Path → Except OpenFault (List UInt8)

inductive FileEntry where
  | file (bytes : List UInt8)
  | directory
  deriving DecidableEq, Repr

structure FileTree where
  entries : List (List String × FileEntry)
  deriving DecidableEq, Repr

namespace FileTree

def entry? (tree : FileTree) (place : List String) : Option FileEntry :=
  match tree.entries.lookup place with
  | some entry => some entry
  | none =>
    -- A directory need not be listed if something lies below it.
    if place.isEmpty || tree.entries.any (fun listed => place.isPrefixOf listed.1) then
      some .directory
    else none

def componentLimit : Nat := 255

-- The byte that ends a path is counted.
def pathLimit : Nat := 4096

/-- Follows components from a place, which is absent when it lies above the tree. -/
def follow (tree : FileTree) (place : Option (List String)) :
    List String → Except OpenFault (List UInt8)
  | [] =>
    match place.map tree.entry? with
    | none | some (some .directory) => .error .isDirectory
    | some none => .error .notFound
    | some (some (.file bytes)) => .ok bytes
  | component :: rest =>
    match place.map tree.entry? with
    | some none => .error .notFound
    | some (some (.file _)) => .error .notDirectory
    | none | some (some .directory) =>
      if componentLimit < component.utf8ByteSize then .error .nameTooLong
      else match place with
        -- Above the tree there are only directories further up.
        | none => if component = ".." then tree.follow none rest else .error .notFound
        | some here =>
          if component ≠ ".." then tree.follow (some (here ++ [component])) rest
          else if here.isEmpty then tree.follow none rest
          else tree.follow (some here.dropLast) rest

def read (tree : FileTree) : FileReader := fun path =>
  if path.text.contains '\x00' then .error .nullCharacter
  else if pathLimit ≤ path.text.utf8ByteSize then .error .nameTooLong
  else
    -- Absolute paths lead out of the tree.
    tree.follow (if path.root = "" then some [] else none) path.components

end FileTree

end ChartParse

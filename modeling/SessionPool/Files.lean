import SessionPool.Text.Bytes

/-!
# Reading files

What a process sees of its files is the bytes that each path leads to. In the simplest case there
is one working directory, with files in it and with directories that are empty. A path is a text in
which slashes separate names; it is walked name by name, and the first name that cannot be passed
decides. What lies above the working directory is taken to be empty. Paths whose bytes are no text
in Unicode are left out.
-/

namespace SessionPool.Files

open Text

/-- Why a file cannot be read. -/
inductive Fault where
  | notFound
  | notDirectory
  | isDirectory
  | nameTooLong
  | nulInPath
  | notUtf8
  /-- What the operating system says of any other obstacle, and its number for it. -/
  | other (details : String) (code : UInt32)
  deriving DecidableEq, Repr

def Fault.message : Fault → String
  | .notFound => "No such file or directory (os error 2)"
  | .notDirectory => "Not a directory (os error 20)"
  | .isDirectory => "Is a directory (os error 21)"
  | .nameTooLong => "File name too long (os error 36)"
  | .nulInPath => "file name contained an unexpected NUL byte"
  | .notUtf8 => "stream did not contain valid UTF-8"
  | .other details code => s!"{details} (os error {code})"

/-- The bytes that a path leads to, or why it leads to none. Only paths in Unicode are asked for. -/
abbrev Tree := String → Except Fault (List UInt8)

/-- The text that a path leads to. -/
def Tree.readText (files : Tree) (path : String) : Except Fault String := do
  match decode? (← files path) with
  | some text => return text
  | none => throw .notUtf8

/-! ### One working directory -/

/-- What a name in the working directory stands for. -/
inductive Entry where
  | file (content : List UInt8)
  | directory
  deriving DecidableEq, Repr

/-- The working directory. -/
abbrev Directory := List (String × Entry)

/-- Where a walk stands: above the working directory, in it, at one of its directories or at one of
its files. -/
inductive Place where
  | above
  | working
  | inner
  | file (content : List UInt8)
  deriving DecidableEq, Repr

/-- The longest name, in bytes. -/
def maxName : Nat := 255

/-- The longest path, in bytes. -/
def maxPath : Nat := 4095

/-- One step of a walk. -/
def Place.enter (directory : Directory) (place : Place) (name : String) : Except Fault Place :=
  match place with
  | .file _ => .error .notDirectory
  | place =>
    if name = "" ∨ name = "." then .ok place
    else if name = ".." then
      match place with
      | .inner => .ok .working
      | _ => .ok .above
    else if maxName < name.utf8ByteSize then .error .nameTooLong
    else if place = .working then
      match directory.lookup name with
      | some (.file content) => .ok (.file content)
      | some .directory => .ok .inner
      | none => .error .notFound
    else .error .notFound

/-- The place that a path leads to. -/
def walk (directory : Directory) (path : String) : Except Fault Place :=
  if path = "" then .error .notFound
  else if maxPath < path.utf8ByteSize then .error .nameTooLong
  else
    (path.splitOn "/").foldlM (Place.enter directory)
      (if path.startsWith "/" then .above else .working)

/-- The files of a working directory. -/
def Directory.tree (directory : Directory) : Tree := fun path =>
  if path.contains '\x00' then .error .nulInPath
  else do
    match ← walk directory path with
    | .file content => return content
    | _ => throw .isDirectory

end SessionPool.Files

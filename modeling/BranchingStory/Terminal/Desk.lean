/-!
# Files known beforehand

A `Desk` is a file system with nothing on it but some files of text, in directories that exist
because there are files in them. A name leads from directory to directory, starting at the root or
at the directory where the player is; the last part of it may be something that does not exist yet.
-/

namespace BranchingStory.Terminal

/-- Why a file cannot be read or written. -/
inductive FileError where
  | noSuchFile
  | permissionDenied
  | notADirectory
  | isADirectory
  | nameTooLong
  | nulInName
deriving DecidableEq, Repr

namespace FileError

/-- All errors. -/
def all : List FileError :=
  [noSuchFile, permissionDenied, notADirectory, isADirectory, nameTooLong, nulInName]

/-- The number that the system has for an error. Some names do not even reach the system. -/
def number? : FileError → Option Nat
  | noSuchFile => some 2
  | permissionDenied => some 13
  | notADirectory => some 20
  | isADirectory => some 21
  | nameTooLong => some 36
  | nulInName => none

/-- What is wrong. -/
def cause : FileError → String
  | noSuchFile => "No such file or directory"
  | permissionDenied => "Permission denied"
  | notADirectory => "Not a directory"
  | isADirectory => "Is a directory"
  | nameTooLong => "File name too long"
  | nulInName => "file name contained an unexpected NUL byte"

/-- An error in words. -/
def message (e : FileError) : String :=
  match e.number? with
  | some n => s!"{e.cause} (os error {n})"
  | none => e.cause

end FileError

/-- The longest name of a file, in bytes, with all directories in it. -/
def longestName : Nat := 4095

/-- The longest part of a name, in bytes. -/
def longestPart : Nat := 255

/-- A file or directory as the names that lead to it from the root. -/
abbrev Path := List String

/-- Files, and the directory where the player is. -/
structure Desk where
  files : List (Path × String) := []
  home : Path := ["tmp", "desk"]
deriving DecidableEq, Repr, Inhabited

/-- Whether there is a NUL in a name, which no name of a file has. -/
def hasNul (name : String) : Bool := name.toList.contains '\x00'

/-- Whether a name can only be one of a directory, since a slash ends it. -/
def endsInSlash (name : String) : Bool := name.toList.getLast? = some '/'

namespace Desk

/-- The parts of a name. Empty parts lead nowhere. -/
def parts (name : String) : Path :=
  ((name.toList.splitOn '/').map String.ofList).filter (· ≠ "")

/-- A desk with files whose names start from where the player is. -/
def ofFiles (files : List (String × String)) : Desk :=
  let desk : Desk := {}
  { desk with files := files.map fun (name, text) => (desk.home ++ parts name, text) }

/-- The text of the file at a path. -/
def text? (d : Desk) (path : Path) : Option String := d.files.lookup path

/-- Whether there is a directory at a path. -/
def isDirectory (d : Desk) (path : Path) : Bool :=
  path.isPrefixOf d.home || d.files.any fun f => path.isPrefixOf f.1 && f.1 ≠ path

/-- The path of a part of a name in a directory. -/
def below (directory : Path) (part : String) : Except FileError Path :=
  if longestPart < part.utf8ByteSize then .error .nameTooLong else .ok (directory ++ [part])

/-- The directory to which a part of a name leads from another directory. -/
def enter (d : Desk) (directory : Path) (part : String) : Except FileError Path :=
  if part = "." then .ok directory
  else if part = ".." then .ok directory.dropLast
  else do
    let path ← below directory part
    if d.isDirectory path then return path
    else if (d.text? path).isSome then throw .notADirectory
    else throw .noSuchFile

/-- The directory in which a name is looked up, and the last part of the name, unless the name
stands for a directory in any case. -/
def locate (d : Desk) (name : String) : Except FileError (Path × Option String) :=
  if hasNul name then .error .nulInName
  else if longestName < name.utf8ByteSize then .error .nameTooLong
  else if name = "" then .error .noSuchFile
  else do
    let start := if name.toList.head? = some '/' then [] else d.home
    let directory ← (parts name).dropLast.foldlM d.enter start
    let last := (parts name).getLast?.filter fun part => part ≠ "." ∧ part ≠ ".."
    return (directory, last)

/-- The text of a file. -/
def read (d : Desk) (name : String) : Except FileError String := do
  match ← d.locate name with
  | (_, none) => throw .isADirectory
  | (directory, some last) =>
    let path ← below directory last
    match d.text? path with
    | some text => if endsInSlash name then throw .notADirectory else return text
    | none => throw (if d.isDirectory path then .isADirectory else .noSuchFile)

/-- The files after one was written. -/
def write (d : Desk) (name text : String) : Except FileError Desk := do
  match ← d.locate name with
  | (_, none) => throw .isADirectory
  | (directory, some last) =>
    if endsInSlash name then throw .isADirectory
    else
      let path ← below directory last
      if d.isDirectory path then throw .isADirectory
      else return { d with files := (path, text) :: d.files.filter (·.1 ≠ path) }

end Desk

end BranchingStory.Terminal

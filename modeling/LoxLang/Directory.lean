import LoxLang.Bindings

/-!
# A directory

What a path leads to, seen from a directory that holds files and no further
directories.  A path is followed name by name.  Of what lies outside of the
directory nothing is known but the way up.
-/

namespace LoxLang

inductive FileContents where
  | bytes (bytes : ByteArray)
  | notOpened (reason : String)
  | notRead (reason : String)

/-- Why a path does not lead to the contents of a file. -/
inductive PathError where
  | missing
  | notDirectory
  | isDirectory
  | nameTooLong
deriving DecidableEq, Repr

/-- The error in the words of the system, with its number. -/
def PathError.message : PathError → String
  | .missing => "No such file or directory (os error 2)"
  | .notDirectory => "Not a directory (os error 20)"
  | .isDirectory => "Is a directory (os error 21)"
  | .nameTooLong => "File name too long (os error 36)"

def pathNames : List Char → List (List Char)
  | [] => [[]]
  | c :: rest =>
      match pathNames rest with
      | [] => []
      | name :: names =>
          if c = '/' then [] :: name :: names else (c :: name) :: names

/-- A directory: its files by name. -/
structure Directory where
  files : Bindings ByteArray

namespace Directory

/-- The most bytes that a name in a directory can have. -/
def maxName : Nat := 255

/-- The most bytes that a path can have. -/
def maxPath : Nat := 4095

inductive Location where
  | here
  | outside
  | file (bytes : ByteArray)

/-- Follows the names of a path.  An empty name and one dot stay, two dots go
up, and behind a file there is no way on. -/
def follow (directory : Directory) :
    Location → List String → Except PathError Location
  | location, [] => .ok location
  | .file _, _ :: _ => .error .notDirectory
  | location, name :: names =>
      if name = "" ∨ name = "." then directory.follow location names
      else if name = ".." then directory.follow .outside names
      else if maxName < name.utf8ByteSize then .error .nameTooLong
      else match location, directory.files.find? name with
        | .here, some bytes => directory.follow (.file bytes) names
        | _, _ => .error .missing

/-- The location that a path leads to; a path that starts with a slash starts
outside. -/
def locate (directory : Directory) (path : String) :
    Except PathError Location :=
  if path = "" then .error .missing
  else if maxPath < path.utf8ByteSize then .error .nameTooLong
  else
    directory.follow (if path.startsWith "/" then .outside else .here)
      ((pathNames path.toList).map String.ofList)

/-- The contents of the file under a path.  A directory can be opened but not
read. -/
def read (directory : Directory) (path : String) : FileContents :=
  match directory.locate path with
  | .error e => .notOpened e.message
  | .ok (.file bytes) => .bytes bytes
  | .ok _ => .notRead PathError.isDirectory.message

end Directory
end LoxLang

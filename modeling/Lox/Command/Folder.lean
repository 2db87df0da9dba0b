/-
  File:      Lox/Command/Folder.lean
  Subject:   Files by their path.

  A folder holds files, and directories that lead to them.  A path is followed part by part from
  the folder on; only a directory can be left by a further part.

  * `ReadError` -- why a file cannot be read;
  * `Folder.follow` -- where a path leads;
  * `Folder.read` -- the bytes of the file there.
-/
namespace Lox

/-! ## 1. Errors -/

/-- Why a file cannot be read. -/
inductive ReadError where
  | noSuchFile
  | isDirectory
  | notDirectory
  | nameTooLong
  /-- A reason given in words. -/
  | stated (reason : String)
  deriving DecidableEq, Repr

/-- The wording of a read error. -/
def ReadError.message : ReadError → String
  | .noSuchFile => "No such file or directory"
  | .isDirectory => "Is a directory"
  | .notDirectory => "Not a directory"
  | .nameTooLong => "File name too long"
  | .stated reason => reason

/-! ## 2. Folders -/

/-- Files, each with the parts of its path. -/
structure Folder where
  files : List (List String × ByteArray)

/-- Where a path leads. -/
inductive Place where
  /-- A directory above the folder, of which nothing more is known. -/
  | above
  /-- The folder itself, or a directory in it. -/
  | directory (path : List String)
  | file (bytes : ByteArray)

namespace Folder

/-- The longest name that a file can have, in bytes. -/
def maxName : Nat := 255

/-- The longest path, in bytes. -/
def maxPath : Nat := 4095

/-- The files under their paths; a slash stands between the parts of a path. -/
def ofList (files : List (String × ByteArray)) : Folder :=
  ⟨files.map fun (path, bytes) => (path.splitOn "/", bytes)⟩

/-- What stands at a path that is given by its parts. -/
def find (f : Folder) (path : List String) : Except ReadError Place :=
  match f.files.lookup path with
  | some bytes => .ok (.file bytes)
  | none =>
    if f.files.any fun (p, _) => path.isPrefixOf p then .ok (.directory path)
    else .error .noSuchFile

/-- One part of a path further. -/
def enter (f : Folder) (place : Place) (part : String) : Except ReadError Place :=
  match place with
  | .file _ => .error .notDirectory
  | .above =>
    if part = "" ∨ part = "." ∨ part = ".." then .ok .above
    else if maxName < part.utf8ByteSize then .error .nameTooLong
    else .error .noSuchFile
  | .directory path =>
    if part = "" ∨ part = "." then .ok (.directory path)
    else if part = ".." then .ok (if path = [] then .above else .directory path.dropLast)
    else if maxName < part.utf8ByteSize then .error .nameTooLong
    else f.find (path ++ [part])

/-- Where a path leads. One that begins with a slash leaves the folder. -/
def follow (f : Folder) (path : String) : Except ReadError Place :=
  if path = "" then .error .noSuchFile
  else if maxPath < path.utf8ByteSize then .error .nameTooLong
  else
    match path.splitOn "/" with
    | "" :: parts => parts.foldlM f.enter .above
    | parts => parts.foldlM f.enter (.directory [])

/-- The bytes of the file that a path leads to. -/
def read (f : Folder) (path : String) : Except ReadError ByteArray := do
  match ← f.follow path with
  | .file bytes => return bytes
  | _ => .error .isDirectory

end Folder

end Lox

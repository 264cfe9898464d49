import MicroDebug.Host.Path

/-! The folder that files are read from and written to. The files of all paths with the same steps are one
    file. -/

namespace MicroDebug

/-- Files by name, and the reasons why the host will not make a file. -/
structure Folder where
  files : List (String × ByteArray) := []
  /-- The reason against a path, given which names are those of files. -/
  refusal : (String → Bool) → String → Option String := fun _ _ => none

namespace Folder

def find? (f : Folder) (path : String) : Option ByteArray :=
  if Path.isVoid path then some ByteArray.empty else f.files.lookup (Path.key path)

/-- Whether a file is kept under a name. -/
def holds (f : Folder) (name : String) : Bool := (f.files.lookup name).isSome

/-- The contents of a file. -/
def read (f : Folder) (path : String) : Except PathError ByteArray :=
  if Path.lengthLimit ≤ path.utf8ByteSize then .error .tooLong
  else if Path.isFolder path then .error .isFolder
  else
    match f.find? path with
    | some contents => if Path.asksForFolder path then .error .notFolder else .ok contents
    | none => .error .missing

/-- Gives a file new contents. -/
def put (f : Folder) (path : String) (contents : ByteArray) : Folder :=
  if Path.isVoid path then f
  else { f with files := (Path.key path, contents) :: f.files.filter (·.1 != Path.key path) }

/-- Makes an empty file, in place of one of the same name. -/
def create (f : Folder) (path : String) : Except String Folder :=
  match f.refusal f.holds path with
  | some reason => .error reason
  | none => .ok (f.put path ByteArray.empty)

/-- The reason why a folder without folders in it makes no file. -/
def flatRefusal (isFile : String → Bool) (path : String) : Option String :=
  (Path.obstacle? isFile path).map PathError.message

/-- Contents with some bytes from a position on replaced. -/
def overlay (contents : ByteArray) (position : Nat) (bytes : ByteArray) : ByteArray :=
  let gap := ByteArray.mk (Array.replicate (position - contents.size) 0)
  contents.extract 0 position ++ gap ++ bytes ++ contents.extract (position + bytes.size) contents.size

/-- Writes bytes into a file from a position on. -/
def write (f : Folder) (path : String) (position : Nat) (bytes : ByteArray) : Folder :=
  f.put path (overlay ((f.find? path).getD ByteArray.empty) position bytes)

end Folder
end MicroDebug

import MicroDebug.Text.Blank

/-! Paths as sequences of steps between slashes, and what keeps a path from standing for a file in a folder that
    has no folders in it. -/

namespace MicroDebug

/-- Why a path does not lead to a file. -/
inductive PathError where
  /-- A character of the path can stand in no path. -/
  | holdsZero
  | missing
  /-- The path leads to a folder. -/
  | isFolder
  /-- A file stands where the path goes on. -/
  | notFolder
  | tooLong
deriving DecidableEq, Repr

def PathError.message : PathError → String
  | holdsZero => "file name contained an unexpected NUL byte"
  | missing => "No such file or directory (os error 2)"
  | isFolder => "Is a directory (os error 21)"
  | notFolder => "Not a directory (os error 20)"
  | tooLong => "File name too long (os error 36)"

namespace Path

/-- How many bytes a step holds at most. -/
def stepLimit : Nat := 255

/-- How many bytes a path must stay below. -/
def lengthLimit : Nat := 4096

/-- The stretches between the slashes of a path. -/
def stretches (path : String) : List String :=
  (Text.stretches (· == '/') path.toList).map String.ofList

/-- The steps that a path takes, one after another. -/
def steps (path : String) : List String := (stretches path).filter (· != "")

/-- Whether a path starts at the root of all folders. -/
def isAbsolute (path : String) : Bool := path.toList.head? == some '/'

/-- Whether a path ends in a slash. -/
def endsInSlash (path : String) : Bool := path.toList.getLast? == some '/'

/-- The name that the files of all paths with the same steps are kept under. -/
def key (path : String) : String :=
  (if isAbsolute path then "/" else "") ++ "/".intercalate ((steps path).filter (· != "."))

/-- Whether a path stands for a folder, whatever files there are: it stays where it starts, or goes up. -/
def isFolder (path : String) : Bool :=
  !path.isEmpty && (steps path).all fun step => step == "." || step == ".."

/-- Whether a path can only stand for a folder. -/
def asksForFolder (path : String) : Bool := endsInSlash path || (steps path).getLast? == some "."

/-- Whether a path stands for the file that holds nothing, whatever is written to it. -/
def isVoid (path : String) : Bool := key path == "/dev/null" && !asksForFolder path

/-- What stands against a walk along some steps to a file that may be new. The walk is in the folder whose
    files are known only while `here` holds; other folders are taken for empty. -/
def blocked (isFile : String → Bool) (slash : Bool) : Bool → List String → Option PathError
  | _, [] => some .isFolder
  | here, step :: rest =>
    if step = "." then blocked isFile slash here rest
    else if step = ".." then blocked isFile slash false rest
    else if rest = [] ∧ slash then some .isFolder
    else if stepLimit < step.utf8ByteSize then some .tooLong
    else if rest = [] then none
    else if here && isFile step then some .notFolder
    else some .missing

/-- What keeps a path from standing for a file that may be new. -/
def obstacle? (isFile : String → Bool) (path : String) : Option PathError :=
  if path.toList.contains '\x00' then some .holdsZero
  else if path.isEmpty then some .missing
  else if lengthLimit ≤ path.utf8ByteSize then some .tooLong
  else if isVoid path then none
  else blocked isFile (endsInSlash path) (!isAbsolute path) (steps path)

end Path
end MicroDebug

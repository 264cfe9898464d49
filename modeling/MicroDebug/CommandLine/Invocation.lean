import MicroDebug.CommandLine.Arguments

/-! What the program can be asked to do on its command line: to debug an image, or to list the instructions in
    it. -/

namespace MicroDebug.CommandLine

/-- How an image is to be debugged. -/
structure DebugRequest where
  image : String
  /-- The file that commands are read from instead of the console. -/
  script : Option String := none
  /-- The file that a trace is written to from the start. -/
  trace : Option String := none
  hexInput : Bool := false
  /-- Whether text is shown without colours. -/
  plain : Bool := false
  /-- Whether loops that only count down run one instruction at a time. -/
  noCollapse : Bool := false
deriving DecidableEq, Repr

inductive Invocation where
  | debug (r : DebugRequest)
  | list (image : String) (start : UInt16) (stop : Option UInt16)
  | tell (text : String)
deriving DecidableEq, Repr

/-- The text that tells how the program is used. -/
def helpText : String :=
  "Simulates and debugs memory images of a 16-bit processor.\n\n" ++
  "Usage:\n" ++
  "  microdebug db BINARY [SCRIPT] [--trace FILE] [--hex-input] [--no-color] [--no-peephole]\n" ++
  "  microdebug dis BINARY [--start HEX] [--end HEX]\n"

def versionText : String := "microdebug 0.1.0\n"

namespace Invocation

def debugShape : Shape :=
  { options := [("--trace", some .path), ("--hex-input", none), ("--no-color", none), ("--no-peephole", none)]
    operands := 2 }

def listShape : Shape := { options := [("--start", some .address), ("--end", some .address)], operands := 1 }

/-- The error for an invocation without an image. -/
def noImage : String := "the following required arguments were not provided: <BINARY>"

def debugOf (xs : Arguments) : Except String Invocation :=
  match xs.operands with
  | [] => .error noImage
  | image :: script =>
    .ok (.debug
      { image := image, script := script.head?, trace := xs.path? "--trace"
        hexInput := xs.has "--hex-input"
        plain := xs.has "--no-color"
        noCollapse := xs.has "--no-peephole" })

def listOf (xs : Arguments) : Except String Invocation :=
  match xs.operands with
  | [] => .error noImage
  | image :: _ => .ok (.list image ((xs.address? "--start").getD 0) (xs.address? "--end"))

/-- Sorts the arguments of a command and makes an invocation of them, unless help is asked for. -/
def ofCommand (shape : Shape) (make : Arguments → Except String Invocation) (arguments : List String) :
    Except String Invocation := do
  let xs ← Arguments.sort shape {} arguments
  if xs.help then return .tell helpText else make xs

/-- The error for a word that is no command. -/
def unknown (word : String) : String := "unrecognized subcommand '" ++ word ++ "'"

/-- Help on the program, or on one of its commands. -/
def helpOn : List String → Except String Invocation
  | [] | ["db"] | ["dis"] | ["help"] => .ok (.tell helpText)
  | word :: _ => .error (unknown word)

/-- What the arguments of the program ask for. -/
def parse : List String → Except String Invocation
  | [] => .error helpText
  | first :: rest =>
    if first = "db" then ofCommand debugShape debugOf rest
    else if first = "dis" then ofCommand listShape listOf rest
    else if first = "help" then helpOn rest
    else if first = "--help" ∨ first.startsWith "-h" then .ok (.tell helpText)
    else if first = "--version" ∨ first.startsWith "-V" then .ok (.tell versionText)
    else .error (unknown first)

/-- The files that an invocation reads. -/
def sources : Invocation → List String
  | .debug r => r.image :: r.script.toList
  | .list image _ _ => [image]
  | .tell _ => []

end Invocation
end MicroDebug.CommandLine

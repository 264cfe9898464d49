import MicroDebug.CommandLine.Invocation
import MicroDebug.Debugger.Session

/-! The work that an invocation starts, and the code that the program ends with. -/

namespace MicroDebug.CommandLine

/-- What has been done at the start of an invocation. -/
inductive Started where
  /-- A session has been made ready. -/
  | session (s : Session)
  /-- All that was asked for is a text. -/
  | told (text : String)
  /-- A file could not be used. Files that had been made by then are kept. -/
  | failed (reason : String) (folder : Folder)

/-- The memory that an image file holds. -/
def load (f : Folder) (path : String) : Except String Memory :=
  match f.read path with
  | .error e => .error e.message
  | .ok contents => (Memory.ofImage contents.data.toList).mapError (·.message)

/-- The commands of a script, or of the console without one. A folder can be taken for a script, but there is
    nothing to read in it. -/
def openScript (f : Folder) : Option String → Except String CommandSource
  | none => .ok .console
  | some path =>
    match f.read path with
    | .ok _ | .error .isFolder => .ok (.file { path := path })
    | .error e => .error e.message

/-- The listing of an image. -/
def list (f : Folder) (image : String) (start : UInt16) (stop : Option UInt16) : Started :=
  match load f image with
  | .error reason => .failed reason f
  | .ok m =>
    let rows := Listing.rows m start ((stop.map UInt16.toNat).getD Memory.size)
    .told (String.join (rows.map (· ++ "\n")))

/-- The settings of a debugger that shows colours only at a terminal. -/
def DebugRequest.options (r : DebugRequest) (terminal : Bool) : Options where
  colours := terminal && !r.plain
  collapse := !r.noCollapse
  inputMode := if r.hexInput then .hex else .text

/-- The file for a trace that is written from the start, and the folder with it. -/
def openTrace (f : Folder) : Option String → Except String (Option Recorder × Folder)
  | none => .ok (none, f)
  | some path => (f.create path).map fun f => (some { writer := { path := path } }, f)

/-- The session that debugs an image. The image is loaded first, the file for a trace is made next, and the
    script is opened last. -/
def debug (f : Folder) (c : Console) (terminal : Bool) (r : DebugRequest) : Started :=
  match load f r.image with
  | .error reason => .failed reason f
  | .ok m =>
    match openTrace f r.trace with
    | .error reason => .failed reason f
    | .ok (recorder, f) =>
      match openScript f r.script with
      | .error reason => .failed reason f
      | .ok commands =>
        let d := Debugger.new m (r.options terminal)
        .session { debugger := { d with recorder := recorder }, console := c, folder := f, commands := commands }

/-- Starts what an invocation asks for. -/
def start (f : Folder) (c : Console) (terminal : Bool) : Invocation → Started
  | .tell text => .told text
  | .list image start stop => list f image start stop
  | .debug r => debug f c terminal r

/-- Puts what a trace that was broken off holds back into its file. -/
def close (s : Session) : Folder :=
  match s.debugger.recorder with
  | none => s.folder
  | some r => (r.writer.flush s.folder).2

/-! ### Codes -/

/-- The code for a session that has ended: zero, one if it failed, or a code of its own if it had to be given
    up. -/
def exitCode : Outcome → UInt8
  | .halted | .unlocked | .endOfInput => 0
  | .broken .stuck | .broken .unreadable => 101
  | .fault _ | .broken _ => 1

/-- The code for arguments that cannot be understood. -/
def badArguments : UInt8 := 2

/-- The code for an image, a script or a trace that cannot be used. -/
def badFile : UInt8 := 1

end MicroDebug.CommandLine

import MicroDebug.CommandLine.Start

/-! The program itself. It reads the files that an invocation names, hands lines of standard input to the
    session when they are asked for, and keeps the files on disk in step with those of the session. Lines come
    whole from a terminal, which edits them by itself. -/

namespace MicroDebug.CommandLine

/-- One line of standard input, or the end of it. -/
partial def readAnswer (input : IO.FS.Stream) (line : ByteArray := ByteArray.empty) : IO Answer := do
  let bytes ← input.read 1
  if bytes.isEmpty || bytes.data.contains 0x0a then
    return ((Lines.answers (line ++ bytes)).head?).getD .ended
  else readAnswer input (line ++ bytes)

/-- Adds the files that can be read to a folder. -/
def readFiles (names : List String) : IO Folder :=
  names.foldlM (fun (f : Folder) (name : String) => do
    match ← (IO.FS.readBinFile name).toBaseIO with
    | .ok contents => return f.put name contents
    | .error _ => return f) {}

/-- Refuses to make a file. -/
def refuse (f : Folder) (name reason : String) : Folder :=
  { f with refusal := fun isFile other => if Path.key other = name then some reason else f.refusal isFile other }

/-- The reason in an error of the host. -/
def reasonOf : IO.Error → String
  | .noFileOrDirectory _ code reason | .inappropriateType _ code reason | .permissionDenied _ code reason =>
    s!"{reason} (os error {code})"
  | e => toString e

/-- Writes the files that are new or changed, and tells the first that cannot be written. -/
def writeFiles (old new : Folder) : IO (Option (String × String)) := do
  for (name, contents) in new.files do
    if old.find? name != some contents then
      match ← (IO.FS.writeBinFile name contents).toBaseIO with
      | .ok () => pure ()
      | .error e => return some (name, reasonOf e)
  return none

/-- Sends things that have been shown to standard output. -/
def send (output : IO.FS.Stream) (shown : Array Shown) : IO Unit := do
  unless shown.isEmpty do
    output.write (Console.bytes shown.toList)
    output.flush

/-- Runs a session to its end. A tick that wants an answer or a file that cannot be had is taken again, with
    the answer or without the file. -/
partial def run (input output : IO.FS.Stream) (sent : Nat) (s : Session) : IO (Session × Outcome) := do
  match s.outcome? with
  | some outcome => return (s, outcome)
  | none =>
    let next := s.tick
    let shown := next.console.shown
    match next.console.exhausted with
    | some asked =>
      send output (shown.extract sent asked)
      let answer ← readAnswer input
      run input output asked { s with console := s.console.enqueue { answer := answer } }
    | none =>
      let refused ← if s.phase == .prompting then writeFiles s.folder next.folder else pure none
      match refused with
      | some (name, reason) => run input output sent { s with folder := refuse s.folder name reason }
      | none =>
        send output (shown.extract sent shown.size)
        run input output 0 { next with console := { next.console with shown := #[] } }

/-- Tells an error and gives its code. -/
def fail (code : UInt8) (reason : String) : IO UInt32 := do
  IO.eprintln ("Error: " ++ reason)
  return code.toUInt32

/-- Carries out an invocation and gives the code that the program ends with. -/
def carryOut (invocation : Invocation) : IO UInt32 := do
  let input ← IO.getStdin
  let output ← IO.getStdout
  let folder ← readFiles invocation.sources
  match start folder {} (← output.isTty) invocation with
  | .told text =>
    output.putStr text
    return 0
  | .failed reason left =>
    discard (writeFiles folder left)
    fail badFile reason
  | .session s =>
    match ← writeFiles folder s.folder with
    | some (_, reason) => fail badFile reason
    | none =>
      let (s, outcome) ← run input output 0 s
      match ← writeFiles folder (close s), outcome with
      | some (_, reason), _ => fail badFile reason
      | none, .broken (.commands reason) | none, .broken (.trace reason) => fail (exitCode outcome) reason
      | none, outcome => return (exitCode outcome).toUInt32

end MicroDebug.CommandLine

open MicroDebug.CommandLine in
/-- The debugger and lister of memory images. -/
def main (arguments : List String) : IO UInt32 :=
  match Invocation.parse arguments with
  | .error reason => fail badArguments reason
  | .ok invocation => carryOut invocation

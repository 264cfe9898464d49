import MicroDebug.Debugger.View
import MicroDebug.Host.FileReader
import MicroDebug.Trace.Recorder

/-! A debugging session as a machine of its own. It decides whether to prompt, carries out one command at each
    prompt, executes one instruction, and starts again, until the program ends or the commands do. -/

namespace MicroDebug

/-- Settings of a debugger. -/
structure Options where
  colours : Bool := true
  collapse : Bool := true
  inputMode : InputMode := .text
  /-- The registers whose memory is shown at every prompt. -/
  tracked : List Register := [Register.sp]

/-- A set of registers in order, with one more. -/
def trackRegister (r : Register) : List Register → List Register
  | [] => [r]
  | q :: rest => if r < q then r :: q :: rest else if r = q then q :: rest else q :: trackRegister r rest

/-- A program under a debugger, with all that is kept from one command to the next. -/
structure Debugger where
  /-- The memory that the program starts with. -/
  image : Memory
  processor : Processor
  colours : Bool
  collapse : Bool
  breakpoints : Breakpoints := {}
  tracked : List Register
  /-- The number of instructions before the next prompt: one asks for it now and zero for none. -/
  countdown : Nat := 1
  /-- How many calls must return before the function to be finished can, if one is to be finished. -/
  finishing : Option Nat := none
  /-- The last command line that was not blank. -/
  lastLine : Option String := none
  /-- Whether a request for input was cancelled and is about to be made again. -/
  retrying : Bool := false
  recorder : Option Recorder := none

namespace Debugger

/-- A debugger for a program that is about to start. -/
def new (image : Memory) (o : Options) : Debugger where
  image := image
  processor := { Processor.start image with collapse := o.collapse, inputMode := o.inputMode }
  colours := o.colours
  collapse := o.collapse
  tracked := o.tracked.foldl (fun rs r => trackRegister r rs) []

/-- Starts the program again. The input mode, breakpoints, tracked registers and trace are kept. -/
def reset (d : Debugger) : Debugger :=
  { d with
    processor := { Processor.start d.image with collapse := d.collapse, inputMode := d.processor.inputMode }
    countdown := 1, finishing := none, retrying := false }

def setProcessor (d : Debugger) (p : Processor) : Debugger := { d with processor := p }

/-- Follows calls and returns while a function is to be finished. Its return asks for a prompt. -/
def follow (d : Debugger) (flow : Flow) : Debugger :=
  match d.finishing, flow with
  | some depth, .call => { d with finishing := some (depth + 1) }
  | some 0, .ret => { d with finishing := none, countdown := 1 }
  | some (depth + 1), .ret => { d with finishing := some depth }
  | _, _ => d

end Debugger

/-- Why a session broke off that was not for the program to end. -/
inductive SessionError where
  /-- The commands could not be read. -/
  | commands (reason : String)
  /-- The end of a trace could not be written. -/
  | trace (reason : String)
  /-- An expression had no value, or a breakpoint without hits left was hit. -/
  | stuck
  /-- What was sent in answer to a request makes no sense. -/
  | unreadable
deriving DecidableEq, Repr

/-- How a session ended. -/
inductive Outcome where
  | halted
  | unlocked
  | endOfInput
  | fault (f : Fault)
  | broken (e : SessionError)
deriving DecidableEq, Repr

/-- What the machine does next. -/
inductive Phase where
  | deciding
  | prompting
  | stepping
  | ended (outcome : Outcome)
deriving DecidableEq, Repr

/-- Where the commands of a session come from. -/
inductive CommandSource where
  /-- The answers at the console. -/
  | console
  /-- Lines that are there from the start. -/
  | lines (answers : List Answer)
  /-- A file that is read as the lines are wanted. -/
  | file (reader : FileReader)

/-- A debugger at work: what it shows and is answered, the files it uses, and where its commands come from. -/
structure Session where
  debugger : Debugger
  console : Console
  folder : Folder := {}
  commands : CommandSource := .console
  phase : Phase := .deciding

namespace Session

def report (s : Session) (text : String) : Session := { s with console := s.console.report text }

def goTo (s : Session) (phase : Phase) : Session := { s with phase := phase }

def update (s : Session) (f : Debugger → Debugger) : Session := { s with debugger := f s.debugger }

/-- Breaks the session off. -/
def fail (s : Session) (e : SessionError) : Session := s.goTo (.ended (.broken e))

/-- Shows how many instructions have been executed. -/
def reportCount (s : Session) : Session :=
  s.report s!"<Executed {s.debugger.processor.executed} instructions.>\n"

/-! ### Tracing -/

/-- Ends the trace, if there is one, and closes its file. -/
def stopTracing (s : Session) : Except String Unit × Session :=
  match s.debugger.recorder with
  | none => (.ok (), s)
  | some r =>
    let (result, _, folder) := r.finish s.folder
    (result, { s.update ({ · with recorder := none }) with folder := folder })

/-- Ends the session, and the trace with it. -/
def conclude (s : Session) (outcome : Outcome) : Session :=
  match s.stopTracing with
  | (.ok (), s) => s.goTo (.ended outcome)
  | (.error reason, s) => s.fail (.trace reason)

/-- Ends the session as its commands or its input have ended. -/
def quit (s : Session) : Session := (s.report "EOF received. Bye!\n").conclude .endOfInput

/-- Starts a trace into a new file, and ends any other. -/
def startTracing (s : Session) (path : String) : Session :=
  match s.folder.create path with
  | .error reason => s.report ("Could not open " ++ path ++ ": " ++ reason ++ "\n")
  | .ok folder =>
    match { s with folder := folder }.stopTracing with
    | (.error reason, s) => s.fail (.trace reason)
    | (.ok (), s) => s.update ({ · with recorder := some { writer := { path := path } } })

/-- Writes all of memory to a new file. -/
def dump (s : Session) (path : String) : Session :=
  match s.folder.create path with
  | .error reason => s.report ("Could not write " ++ path ++ ": " ++ reason ++ "\n")
  | .ok folder =>
    let bytes := ByteArray.mk s.debugger.processor.memory.dump.toArray
    { s with folder := folder.write path 0 bytes }

/-! ### Commands -/

/-- Shows the value of an expression. -/
def print (s : Session) (e : Postfix) : Session :=
  match e.evaluate? s.debugger.processor with
  | some v => s.report (v.text ++ "\n")
  | none => s.fail .stuck

def assign (s : Session) (x : Assignment) : Session :=
  match x.perform? s.debugger.processor with
  | some p => s.update (·.setProcessor p)
  | none => s.fail .stuck

def setTemporary (s : Session) (a : UInt16) (count : Nat) : Session :=
  match s.debugger.breakpoints.setTemporary? a count with
  | some bs => s.update ({ · with breakpoints := bs })
  | none => s.fail .stuck

def setInputMode (s : Session) (mode : InputMode) : Session :=
  let name :=
    match mode with
    | .hex => "hexadecimal"
    | .text => "text"
  (s.update fun d => d.setProcessor { d.processor with inputMode := mode }).report
    ("Program input will now be treated as " ++ name ++ ".\n")

def removeBreakpoint (s : Session) (a : UInt16) : Session :=
  match s.debugger.breakpoints.find? a with
  | some _ => s.update fun d => { d with breakpoints := d.breakpoints.erase a }
  | none => s.report ("No breakpoint at " ++ Hex.short a.toNat ++ ".\n")

/-- Carries out a command that was given at a prompt. Most commands leave the session at the prompt. -/
def execute (s : Session) (c : Command) : Session :=
  let d := s.debugger
  let p := d.processor
  match c with
  | .backtrace => s.report (View.backtrace p)
  | .setBreakpoint a condition =>
    s.update fun d => { d with breakpoints := d.breakpoints.setPermanent a condition }
  | .listBreakpoints => s.report (View.breakpoints d.breakpoints)
  | .resume => s.goTo .stepping
  | .disassemble a => s.report (View.code p.memory a)
  | .dump path => s.dump path
  | .finish => (s.update ({ · with finishing := some 0 })).goTo .stepping
  | .help => s.report View.help
  | .executed => s.report s!"{p.executed}\n"
  | .memory a => s.report (View.memory p.memory a d.colours ++ "\n")
  | .print e => s.print e
  | .reset => (s.update Debugger.reset).goTo .deciding
  | .assign x => s.assign x
  | .inputMode mode => s.setInputMode mode
  | .step count => (s.update ({ · with countdown := count })).goTo .stepping
  | .setTemporary a count => s.setTemporary a count
  | .trace (some path) => s.startTracing path
  | .trace none =>
    match s.stopTracing with
    | (.ok (), s) => s
    | (.error reason, s) => s.fail (.trace reason)
  | .track r => s.update fun d => { d with tracked := trackRegister r d.tracked }
  | .removeBreakpoint none => s.update ({ · with breakpoints := {} })
  | .removeBreakpoint (some a) => s.removeBreakpoint a
  | .untrack r => s.update fun d => { d with tracked := d.tracked.filter (· != r) }

/-- Takes a command line, remembers it, and carries it out. -/
def runLine (s : Session) (line : String) : Session :=
  let s := s.update ({ · with lastLine := some line })
  match Command.parse line with
  | .error e => s.report (e.message ++ "\n")
  | .ok c => s.execute c

/-- The next line of commands. -/
def readLine (s : Session) : Answer × Session :=
  match s.commands with
  | .console =>
    let (answer, console) := s.console.take
    (answer, { s with console := console })
  | .lines [] => (.ended, s)
  | .lines (answer :: rest) => (answer, { s with commands := .lines rest })
  | .file reader =>
    let (answer, reader) := reader.next s.folder
    (answer, { s with commands := .file reader })

/-! ### Phases -/

/-- Shows the state of the program and carries out one command. A blank line stands for the last line. -/
def prompt (s : Session) : Session :=
  let d := s.debugger
  match (s.report (View.state d.processor d.tracked d.colours ++ "> ")).readLine with
  | (.failed reason, s) => s.fail (.commands reason)
  | (.unreadable, s) => s.fail .unreadable
  | (.ended, s) | (.cancelled, s) => s.quit
  | (.line line, s) =>
    if (Text.trim line).isEmpty then
      match s.debugger.lastLine with
      | some last => s.runLine last
      | none => s
    else s.runLine line

/-- Whether a breakpoint is hit. None is while a cancelled request is made again. -/
def checkBreakpoints (d : Debugger) : Option (Bool × Debugger) :=
  if d.retrying then some (false, { d with retrying := false })
  else
    (d.breakpoints.check? d.processor.pc d.processor).map fun (hit, bs) => (hit, { d with breakpoints := bs })

/-- Ends the session if the program has ended, prompts if there is a reason to, and steps otherwise. -/
def decide (s : Session) : Session :=
  let d := s.debugger
  if d.processor.unlocked then s.reportCount.conclude .unlocked
  else if d.processor.isHalted then
    ((s.report "<CPUOFF bit set. Exiting.>\n").reportCount).conclude .halted
  else
    match checkBreakpoints { d with countdown := d.countdown - 1 } with
    | none => s.fail .stuck
    | some (hit, d') =>
      { s with debugger := d', phase := if hit || d.countdown == 1 then .prompting else .stepping }

/-- What follows from a step. -/
def afterStep (s : Session) : Except Stop StepInfo → Session
  | .ok info =>
    (s.update fun d =>
      (if info.readInput then { d with countdown := 1 } else d).follow info.flow).goTo .deciding
  | .error .halted | .error .unlocked => s.goTo .deciding
  | .error .endOfInput => s.quit
  | .error .cancelled => (s.update ({ · with countdown := 1, retrying := true })).goTo .deciding
  | .error .unreadable => s.fail .unreadable
  | .error (.fault f) =>
    ((s.report ("<Fault: " ++ f.message ++ ">\n")).reportCount).conclude (.fault f)

/-- Executes one instruction, under the trace if there is one. -/
def step (s : Session) : Session :=
  let d := s.debugger
  let r := d.processor.stepWatched Recorder.watch (d.recorder, s.folder) s.console
  { s with
    debugger := { d with processor := r.processor, recorder := r.watcher.1 }
    console := r.console
    folder := r.watcher.2 }.afterStep r.result

/-- Does what comes next. A session that has ended stays as it is. -/
def tick (s : Session) : Session :=
  match s.phase with
  | .deciding => s.decide
  | .prompting => s.prompt
  | .stepping => s.step
  | .ended _ => s

/-- The outcome of a session that has ended. -/
def outcome? (s : Session) : Option Outcome :=
  match s.phase with
  | .ended outcome => some outcome
  | _ => none

/-- The same debugger with new commands. -/
def restart (s : Session) (commands : CommandSource) : Session :=
  { s with commands := commands, phase := .deciding }

end Session
end MicroDebug

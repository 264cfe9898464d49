import MicroDebug.Debugger.Breakpoints
import MicroDebug.Expression.Assignment
import MicroDebug.Text.Blank
import MicroDebug.Text.Quoted

/-! The commands of the debugger and the lines that write them. The first word of a line names the command, and
    the rest holds its arguments. A line that is refused changes nothing. -/

namespace MicroDebug

inductive Command where
  | backtrace
  | setBreakpoint (address : UInt16) (condition : Option Guard)
  | listBreakpoints
  | resume
  | disassemble (address : UInt16)
  | dump (path : String)
  | finish
  | help
  | executed
  | memory (address : UInt16)
  | print (e : Postfix)
  | reset
  | assign (x : Assignment)
  | inputMode (mode : InputMode)
  | step (count : Nat)
  | setTemporary (address : UInt16) (count : Nat)
  /-- Traces to a file, or ends the trace. -/
  | trace (path : Option String)
  | track (r : Register)
  /-- Removes the breakpoint at an address, or all of them. -/
  | removeBreakpoint (address : Option UInt16)
  | untrack (r : Register)
deriving DecidableEq, Repr

/-- Why a line is no command. -/
inductive CommandError where
  | unrecognized
  /-- Arguments are missing, or there are too many; the line shows how to write the command. -/
  | usage (line : String)
  | invalidAddress (argument : String)
  | invalidCount (argument : String)
  | invalidRegister (argument : String)
  /-- An argument is not an expression that can be used. -/
  | expression (source : String) (errors : List Diagnostic)
deriving DecidableEq, Repr

def CommandError.message : CommandError → String
  | unrecognized => "Unrecognized command"
  | usage line => "usage: " ++ line
  | invalidAddress x => "invalid address: " ++ Text.quote x
  | invalidCount x => "invalid count: " ++ Text.quote x
  | invalidRegister x => "invalid register: " ++ Text.quote x
  | expression source errors => "\n".intercalate (errors.map fun d => d.render source)

namespace Command

/-- How each command is written, and what it does. -/
def summary : List (String × String) := [
  ("break ADDR [if EXPR]", "stop at ADDR (when EXPR is true)"),
  ("tbreak ADDR [COUNT]", "stop at ADDR, COUNT times only"),
  ("unbreak ADDR|all", "remove breakpoints"),
  ("breakpoints", "list breakpoints"),
  ("s [N]", "execute N instructions (default 1)"),
  ("c", "continue until a breakpoint"),
  ("f", "continue until the current function returns"),
  ("bt", "print the call stack"),
  ("print EXPR", "evaluate an expression"),
  ("set LVALUE = EXPR", "assign to a register, flag, or memory"),
  ("track REG", "show memory around REG at every prompt"),
  ("untrack REG", "stop showing memory around REG"),
  ("mem ADDR", "show memory around ADDR"),
  ("disas ADDR", "disassemble starting at ADDR"),
  ("hex", "treat program input as hex-encoded bytes"),
  ("text", "treat program input as text"),
  ("dump FILE", "write all of memory to FILE"),
  ("trace FILE|off", "start or stop tracing to FILE"),
  ("insncount", "print the number of executed instructions"),
  ("reset", "reload the image and restart"),
  ("help", "show this list")]

/-- How a command is written. -/
def usageLine (name : String) : String :=
  ((summary.map Prod.fst).find? fun line => (Text.splitWord line).1 == name).getD "help"

/-! ### Arguments -/

/-- An address in base 16, which may start with `0x`. -/
def address (name argument : String) : Except CommandError UInt16 :=
  let argument := Text.trim argument
  let digits :=
    match argument.toList with
    | '0' :: x :: rest => if x = 'x' ∨ x = 'X' then String.ofList rest else argument
    | _ => argument
  if argument.isEmpty then .error (.usage (usageLine name))
  else
    match Numeral.hexWord? digits with
    | some a => .ok a
    | none => .error (.invalidAddress argument)

def path (name argument : String) : Except CommandError String :=
  if argument.isEmpty then .error (.usage (usageLine name)) else .ok argument

/-- A register by its name or its number. -/
def register (name argument : String) : Except CommandError Register :=
  if argument.isEmpty then .error (.usage (usageLine name))
  else
    match Register.ofName? argument with
    | some r => .ok r
    | none =>
      match Numeral.parse? 10 16 argument with
      | some n => .ok (UInt8.ofNat n)
      | none => .error (.invalidRegister argument)

/-- The number that numbers of steps are below. -/
def stepBound : Nat := 0x10000000000000000

/-- The number that numbers of hits are below. -/
def hitBound : Nat := 0x100000000

/-- The number of steps that a line without a number asks for is one. -/
def stepCount (argument : String) : Except CommandError Nat :=
  if argument.isEmpty then .ok 1
  else
    match Numeral.parse? 10 stepBound argument with
    | some n => .ok n
    | none => .error (.invalidCount argument)

/-- A number of hits, which is not zero. -/
def hitCount (argument : String) : Except CommandError Nat :=
  match Numeral.parse? 10 hitBound argument with
  | some (n + 1) => .ok (n + 1)
  | _ => .error (.invalidCount argument)

def expression (name argument : String) : Except CommandError Postfix :=
  if argument.isEmpty then .error (.usage (usageLine name))
  else
    match Postfix.ofSource argument with
    | .ok e => .ok e
    | .error errors => .error (.expression argument errors)

def assignment (name argument : String) : Except CommandError Assignment :=
  if argument.isEmpty then .error (.usage (usageLine name))
  else
    match Assignment.ofSource argument with
    | .ok x => .ok x
    | .error errors => .error (.expression argument errors)

/-- The error for a condition that is not a truth value. -/
def badCondition (source : String) (found : ValueType) : Diagnostic :=
  { span := { start := 0, stop := source.utf8ByteSize }
    message := "condition must be of type bool, not " ++ found.name }

def condition (source : String) : Except CommandError Guard :=
  match Postfix.ofSource source with
  | .error errors => .error (.expression source errors)
  | .ok e =>
    if e.type = .bool then .ok { source := source, test := e }
    else .error (.expression source [badCondition source e.type])

/-! ### Lines -/

/-- A breakpoint, with a condition after the first word `if`. -/
def parseBreakpoint (argument : String) : Except CommandError Command :=
  match Text.splitAt? " if ".toList argument.toList with
  | none => (address "break" argument).map fun a => .setBreakpoint a none
  | some (target, source) =>
    (address "break" (String.ofList target)).bind fun a =>
      (condition (Text.trim (String.ofList source))).map fun c => .setBreakpoint a (some c)

/-- A temporary breakpoint. What is wrong with the number of hits is told before what follows it. -/
def parseTemporary (argument : String) : Except CommandError Command :=
  match Text.words argument with
  | [] => (address "tbreak" "").map fun a => .setTemporary a 1
  | [a] => (address "tbreak" a).map fun a => .setTemporary a 1
  | a :: n :: rest =>
    (address "tbreak" a).bind fun a => (hitCount n).bind fun n =>
      if rest.isEmpty then .ok (.setTemporary a n) else .error (.usage (usageLine "tbreak"))

/-- The command that a line writes. -/
def parse (line : String) : Except CommandError Command :=
  let (name, rest) := Text.splitWord (Text.trim line)
  let argument := Text.trim rest
  match name with
  | "break" => parseBreakpoint argument
  | "breakpoints" => .ok .listBreakpoints
  | "bt" => .ok .backtrace
  | "c" => .ok .resume
  | "disas" => (address name argument).map .disassemble
  | "dump" => (path name argument).map .dump
  | "f" => .ok .finish
  | "help" => .ok .help
  | "hex" => .ok (.inputMode .hex)
  | "insncount" => .ok .executed
  | "mem" => (address name argument).map .memory
  | "print" => (expression name argument).map .print
  | "reset" => .ok .reset
  | "s" => (stepCount argument).map .step
  | "set" => (assignment name argument).map .assign
  | "tbreak" => parseTemporary argument
  | "text" => .ok (.inputMode .text)
  | "trace" => if argument = "off" then .ok (.trace none) else (path name argument).map fun x => .trace (some x)
  | "track" => (register name argument).map .track
  | "unbreak" =>
    if argument = "all" then .ok (.removeBreakpoint none)
    else (address name argument).map fun a => .removeBreakpoint (some a)
  | "untrack" => (register name argument).map .untrack
  | _ => .error .unrecognized

end Command
end MicroDebug

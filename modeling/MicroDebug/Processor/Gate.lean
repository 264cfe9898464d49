import MicroDebug.Host.Console
import MicroDebug.Processor.Basic

/-! The gate: an address at which the host serves a request of the program before the instruction there is
    executed. The host then leaves a return at the gate. Arguments lie on the stack above the return address
    and what the caller pushed. -/

namespace MicroDebug.Gate

/-- The address at which the host serves requests. -/
def address : UInt16 := 0x0010

/-- The return instruction that is left at the gate. -/
def returnWord : UInt16 := 0x4130

/-- The services of the host. -/
inductive Request where
  /-- Shows a byte. -/
  | writeByte
  /-- Reads a line into memory. -/
  | readLine
  /-- Refuses, by zero in the last register. -/
  | refuse
  /-- Refuses, by zero in a word of memory. -/
  | refuseInMemory
  /-- Unlocks the door. -/
  | unlock
deriving DecidableEq, Repr

def Request.ofNumber? (n : UInt8) : Option Request :=
  if n = 0x00 then some .writeByte
  else if n = 0x02 then some .readLine
  else if n = 0x20 ∨ n = 0x7e then some .refuse
  else if n = 0x7d then some .refuseInMemory
  else if n = 0x7f then some .unlock
  else none

/-- The text that asks for a line. -/
def requestText (mode : InputMode) (limit : UInt16) : String :=
  s!"(max: {limit}; mode: {mode.label})> "

/-- Asks for a line until there is one that can be read, and gives its bytes. It is asked at most once for each
    of the answers that are to come, and once more when there are none left. -/
def askFrom (mode : InputMode) (limit : UInt16) (c : Console) :
    List Reply → Except Stop (List UInt8) × Console
  | [] => (.error .endOfInput, ((c.append (.request (requestText mode limit))).take).2)
  | _ :: rest =>
    match (c.append (.request (requestText mode limit))).take with
    | (.ended, c) => (.error .endOfInput, c)
    | (.cancelled, c) => (.error .cancelled, c)
    | (.unreadable, c) => (.error .unreadable, c)
    | (.failed reason, c) => (.error (.fault (.host reason)), c)
    | (.line line, c) =>
      match InputText.bytes mode limit line with
      | .ok bytes => (.ok bytes, c)
      | .error e =>
        match c.notify e.message with
        | (.error reason, c) => (.error (.fault (.host reason)), c)
        | (.ok (), c) => askFrom mode limit c rest

/-- Asks for a line until there is one that can be read. -/
def ask (mode : InputMode) (limit : UInt16) (c : Console) : Except Stop (List UInt8) × Console :=
  askFrom mode limit c c.replies

/-- What serving the gate did. -/
structure Served where
  processor : Processor
  /-- Whether a line of input was read. -/
  readInput : Bool := false

/-- Serves a request. -/
def fulfil (p : Processor) (c : Console) : Request → Except Stopped Served × Console
  | .writeByte =>
    match c.writeOutput (p.memory.readByte (p.registers.sp + 8)) with
    | (.ok (), c) => (.ok { processor := p }, c)
    | (.error reason, c) => (.error { reason := .fault (.host reason), processor := p }, c)
  | .readLine =>
    let target := p.memory.readWord (p.registers.sp + 8)
    let limit := p.memory.readWord (p.registers.sp + 10)
    match ask p.inputMode limit c with
    | (.ok bytes, c) =>
      (.ok { processor := p.setMemory (p.memory.writeBytes target bytes), readInput := true }, c)
    | (.error stop, c) => (.error { reason := stop, processor := p }, c)
  | .refuse => (.ok { processor := p.setRegister 15 0 }, c)
  | .refuseInMemory =>
    let target := p.memory.readWord (p.registers.sp + 10)
    (.ok { processor := p.setMemory (p.memory.writeWord target 0) }, c)
  | .unlock =>
    match c.notify "<Door unlocked!>" with
    | (.ok (), c) => (.ok { processor := { p with unlocked := true } }, c)
    | (.error reason, c) => (.error { reason := .fault (.host reason), processor := p }, c)

/-- Leaves a return at the gate. -/
def leave (s : Served) : Served :=
  { s with processor := s.processor.setMemory (s.processor.memory.writeWord address returnWord) }

/-- Serves what the status register asks for, if it lets the gate serve at all. -/
def serve (p : Processor) (c : Console) : Except Stopped Served × Console :=
  if p.registers.sr &&& Status.gateMask = 0 then (.ok (leave { processor := p }), c)
  else
    let n := Status.request p.registers.sr
    match Request.ofNumber? n with
    | none => (.error { reason := .fault (.unknownRequest n), processor := p }, c)
    | some r =>
      let (result, c) := fulfil p c r
      (result.map leave, c)

end MicroDebug.Gate

import MicroDebug.Host.InputText
import MicroDebug.Instruction.Decode
import MicroDebug.Machine.Basic
import MicroDebug.Processor.CallStack

/-! The state of a running program: registers and memory, and what is kept about the run. A program stops for
    reasons of its own, for want of input, or by a fault. -/

namespace MicroDebug

/-- A program in the course of its run. -/
structure Processor extends Machine where
  calls : CallStack
  /-- Where the straight line of code that is running was entered. -/
  blockStart : UInt16
  /-- How many instructions have been executed. -/
  executed : Nat := 0
  inputMode : InputMode := .text
  /-- Whether the program has unlocked the door, which ends it. -/
  unlocked : Bool := false
  /-- Whether loops that only count down run as one step. -/
  collapse : Bool := true

/-- Why a program cannot go on. -/
inductive Fault where
  | decode (error : DecodeError)
  /-- A service was asked for that there is not. -/
  | unknownRequest (number : UInt8)
  /-- The host failed to show or to read something. -/
  | host (reason : String)
  /-- The operands of an instruction do not suit its operation. -/
  | unsuitable
deriving DecidableEq, Repr

def Fault.message : Fault → String
  | .decode e => e.message
  | .unknownRequest n => "unknown interrupt: 0x" ++ Hex.byte n
  | .host reason => "I/O error: " ++ reason
  | .unsuitable => "operands do not suit the operation"

/-- Why no instruction was executed. -/
inductive Stop where
  /-- The halt bit of the status register is set. -/
  | halted
  | unlocked
  | endOfInput
  /-- The answer to a request for input was cancelled. -/
  | cancelled
  /-- What was sent in answer to a request for input makes no sense. -/
  | unreadable
  | fault (f : Fault)
deriving DecidableEq, Repr

namespace Processor

/-- A program that is about to start: all registers are zero but the program counter. -/
def start (m : Memory) : Processor :=
  { registers := Registers.zero.setPc m.entry, memory := m, calls := { entry := m.entry }, blockStart := m.entry }

/-- What kind of processor this is. -/
def description : String := "MSP430"

def pc (p : Processor) : UInt16 := p.registers.pc

/-- Whether the halt bit is set. -/
def isHalted (p : Processor) : Bool := p.registers.sr &&& Status.haltMask != 0

def setRegister (p : Processor) (r : Register) (w : UInt16) : Processor :=
  { p with registers := p.registers.set r w }

def setMemory (p : Processor) (m : Memory) : Processor := { p with memory := m }

end Processor

/-- A program that cannot go on, with all that had been changed by then. -/
structure Stopped where
  reason : Stop
  processor : Processor
end MicroDebug

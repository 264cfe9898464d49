import MicroDebug.Machine.Execute
import MicroDebug.Processor.Countdown
import MicroDebug.Processor.Gate

/-! One step of a program: the gate is served, the next instruction is fetched, a watcher is told what is
    about to happen, and it happens. What a step kept about the run follows from how it left the
    instruction. -/

namespace MicroDebug

/-- How a step left its instruction. -/
inductive Flow where
  | sequential
  | branch
  | call
  | ret
deriving DecidableEq, Repr

/-- What is known of a step that was executed. -/
structure StepInfo where
  /-- The address of the instruction. -/
  pc : UInt16
  flow : Flow
  /-- Whether the program read a line of input before it. -/
  readInput : Bool
deriving DecidableEq, Repr

/-- What a watcher is told about a step. -/
inductive Event where
  /-- An instruction at an address is about to take effect. -/
  | execute (pc : UInt16) (instruction : Instruction)
  /-- A loop that the jump at an address closes is about to count down to zero. -/
  | countdown (pc : UInt16) (remaining : UInt16)
deriving DecidableEq, Repr

/-- The address of the instruction that an event is about. -/
def Event.pc : Event → UInt16
  | .execute pc _ => pc
  | .countdown pc _ => pc

/-- A watcher with a state of its own. It is told the processor and the event, and may fail. -/
def Watcher (σ : Type) : Type := σ → Processor → Event → Except String Unit × σ

/-- The watcher that pays no attention. -/
def Watcher.none : Watcher Unit := fun _ _ _ => (.ok (), ())

namespace Processor

/-- An instruction that is about to take effect. -/
structure Fetched where
  /-- The state, with the instruction counted and the program counter past its word. -/
  processor : Processor
  pc : UInt16
  instruction : Instruction
  readInput : Bool

/-- Serves the gate if the program is there, and fetches the next instruction. -/
def fetch (p : Processor) (c : Console) : Except Stopped Fetched × Console :=
  if p.unlocked then (.error { reason := .unlocked, processor := p }, c)
  else if p.isHalted then (.error { reason := .halted, processor := p }, c)
  else
    match if p.pc = Gate.address then Gate.serve p c else (.ok { processor := p }, c) with
    | (.error s, c) => (.error s, c)
    | (.ok served, c) =>
      match Instruction.decode served.processor.memory p.pc with
      | .error e => (.error { reason := .fault (.decode e), processor := served.processor }, c)
      | .ok i =>
        let q := served.processor
        (.ok { processor := { q with registers := q.registers.setPc (p.pc + 2), executed := q.executed + 1 }
               pc := p.pc, instruction := i, readInput := served.readInput }, c)

namespace Fetched

/-- The loop that the instruction closes, if loops are run as one step. -/
def countdown? (f : Fetched) : Option Countdown :=
  if f.processor.collapse then Countdown.find? f.processor.toMachine f.pc f.instruction else none

/-- What a watcher is told. -/
def event (f : Fetched) : Event :=
  match f.countdown? with
  | some d => .countdown f.pc d.remaining
  | none => .execute f.pc f.instruction

/-- The address after the instruction. -/
def next (f : Fetched) : UInt16 := f.pc + f.instruction.size

/-- The registers and memory after the instruction. -/
def effect (f : Fetched) : Option Machine :=
  match f.countdown? with
  | some d => some (d.run f.processor.toMachine f.next)
  | none => f.processor.toMachine.execute f.instruction f.next

/-- How the instruction is left if the program counter is `target` after it. It was not redirected if the
    program counter is still past the instruction word. -/
def flow (f : Fetched) (target : UInt16) : Flow :=
  if target = f.pc + 2 then .sequential
  else if f.instruction.isCall then .call
  else if f.instruction.isReturn then .ret
  else .branch

/-- The calls that have not returned after an instruction that left for `target`. -/
def calls (f : Fetched) (target : UInt16) : CallStack :=
  match f.flow target with
  | .call => f.processor.calls.push { site := f.pc, function := target }
  | .ret => f.processor.calls.pop
  | .sequential | .branch => f.processor.calls

/-- The state after the instruction, whose effect on registers and memory is `m`. -/
def settle (f : Fetched) (m : Machine) : Processor :=
  let target := m.registers.pc
  { f.processor with
    toMachine := if f.flow target = .sequential then m.setPc f.next else m
    blockStart := if f.flow target = .sequential then f.processor.blockStart else target
    calls := f.calls target }

end Fetched

/-- What a step came to. -/
structure Stepped (σ : Type) where
  result : Except Stop StepInfo
  processor : Processor
  console : Console
  watcher : σ

/-- Executes one instruction under a watcher. If the watcher fails, the instruction has been fetched but has
    taken no effect. -/
def stepWatched {σ : Type} (watch : Watcher σ) (s : σ) (p : Processor) (c : Console) : Stepped σ :=
  match p.fetch c with
  | (.error stopped, c) =>
    { result := .error stopped.reason, processor := stopped.processor, console := c, watcher := s }
  | (.ok f, c) =>
    match watch s f.processor f.event with
    | (.error reason, s) =>
      { result := .error (.fault (.host reason)), processor := f.processor, console := c, watcher := s }
    | (.ok (), s) =>
      match f.effect with
      | none =>
        { result := .error (.fault .unsuitable), processor := f.processor, console := c, watcher := s }
      | some m =>
        { result := .ok { pc := f.pc, flow := f.flow m.registers.pc, readInput := f.readInput }
          processor := f.settle m, console := c, watcher := s }

/-- Executes one instruction. -/
def step (p : Processor) (c : Console) : Stepped Unit := stepWatched Watcher.none () p c

end Processor
end MicroDebug

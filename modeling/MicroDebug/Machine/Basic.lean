import MicroDebug.Instruction.Basic
import MicroDebug.Memory.Basic
import MicroDebug.Register.File

/-! Registers and memory, and the places in them that operands name. Finding a place may move a register on,
    which happens once for each operand that an instruction uses. -/

namespace MicroDebug

/-- What instructions work on. -/
structure Machine where
  registers : Registers
  memory : Memory

/-- What an operand names. -/
inductive Place where
  | register (r : Register)
  | memory (address : UInt16)
  /-- A value without a place: it can be read but not written. -/
  | value (w : UInt16)
deriving DecidableEq, Repr

namespace Machine

/-- The place that an operand names in the present state. -/
def locate (m : Machine) (x : Operand) (width : Width) : Place :=
  match x.literal? with
  | some (.constant n) => .value (n.toUInt16 &&& width.mask)
  | some (.immediate w) => .value (w &&& width.mask)
  | some (.absolute a) => .memory a
  | none =>
    match x.mode with
    | .register => .register x.reg
    | .indexed => .memory (m.registers.get x.reg + x.extension)
    | .indirect | .autoincrement => .memory (m.registers.get x.reg)

/-- Whether using the operand moves its register on. -/
def moves (x : Operand) : Bool := x.mode == .autoincrement && x.literal?.isNone

/-- Moves the register of an operand on, by a word at either width. -/
def advance (m : Machine) (x : Operand) : Machine :=
  if moves x then { m with registers := m.registers.set x.reg (m.registers.get x.reg + 2) } else m

/-- The value at a place, within the width. -/
def load (m : Machine) (p : Place) (width : Width) : UInt16 :=
  match p, width with
  | .register r, _ => m.registers.get r &&& width.mask
  | .memory a, .byte => (m.memory.readByte a).toUInt16
  | .memory a, .word => m.memory.readWord a
  | .value w, _ => w

/-- Writes a value, cut to the width. A byte clears the upper half of a register; the constant generator
    and values keep what they are. -/
def store (m : Machine) (p : Place) (w : UInt16) (width : Width) : Machine :=
  match p, width with
  | .register r, _ =>
    if r = Register.cg then m else { m with registers := m.registers.set r (w &&& width.mask) }
  | .memory a, .byte => { m with memory := m.memory.writeByte a w.toUInt8 }
  | .memory a, .word => { m with memory := m.memory.writeWord a w }
  | .value _, _ => m

/-- The value an operand has at present, without moving its register on. -/
def peek (m : Machine) (x : Operand) (width : Width) : UInt16 := m.load (m.locate x width) width

/-- The value of an operand, after which its register has moved on. -/
def fetchValue (m : Machine) (x : Operand) (width : Width) : UInt16 × Machine :=
  let p := m.locate x width
  let m := m.advance x
  (m.load p width, m)

def setPc (m : Machine) (w : UInt16) : Machine := { m with registers := m.registers.setPc w }

def setSp (m : Machine) (w : UInt16) : Machine := { m with registers := m.registers.setSp w }

def flag (m : Machine) (f : Flag) : Bool := m.registers.flag f

def setFlag (m : Machine) (f : Flag) (on : Bool) : Machine :=
  { m with registers := m.registers.setFlag f on }

end Machine
end MicroDebug

import MicroDebug.Instruction.Operand
import MicroDebug.Instruction.Operation

/-! Instructions: an operation, its operands and the number of bytes they take. Calls, returns and taken jumps
    are the instructions that leave the straight line. -/

namespace MicroDebug

/-- The operands of an instruction. -/
inductive Operands where
  | one (operand : Operand)
  /-- The distance from the jump itself to its target, in bytes. -/
  | offset (distance : Int16)
  | two (source target : Operand)
deriving DecidableEq, Repr

/-- An instruction as it is held in memory. -/
structure Instruction where
  operation : Operation
  width : Width
  operands : Operands
  /-- The number of bytes of the instruction word and the words that follow it. -/
  size : UInt16
deriving DecidableEq, Repr

namespace Operands

/-- Whether an operation takes operands of this shape. -/
def Suits : Operands → Operation → Prop
  | one _, .unary _ => True
  | offset _, .jump _ => True
  | two _ _, .binary _ => True
  | _, _ => False

instance : (xs : Operands) → (op : Operation) → Decidable (xs.Suits op)
  | one _, .unary _ | offset _, .jump _ | two _ _, .binary _ => isTrue trivial
  | one _, .jump _ | one _, .binary _ | offset _, .unary _ | offset _, .binary _ | two _ _, .unary _
  | two _ _, .jump _ => isFalse id

/-- The operands in the order they are written. -/
def toList : Operands → List Operand
  | one x => [x]
  | offset _ => []
  | two x y => [x, y]

end Operands

namespace Instruction

/-- Whether the instruction takes its return address from the stack into the program counter. -/
def isReturn (i : Instruction) : Bool :=
  i.operation == .binary .mov &&
    i.operands == .two { mode := .autoincrement, reg := Register.sp } (Operand.ofRegister Register.pc)

def isCall (i : Instruction) : Bool := i.operation == .unary .call

/-- The address that an offset leads to from the jump at `a`. -/
def jumpTarget (a : UInt16) (distance : Int16) : UInt16 := a + distance.toUInt16

end Instruction
end MicroDebug

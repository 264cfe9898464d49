import MicroDebug.Instruction.Basic
import MicroDebug.Memory.Basic

/-! Reading instructions from memory. The instruction word tells the operation and, for each operand, a mode
    and a register; operands that need one take the next word of memory in turn. -/

namespace MicroDebug

/-- Why there is no instruction at an address. -/
inductive DecodeError where
  | unaligned (address : UInt16)
  | invalid (address word : UInt16)
deriving DecidableEq, Repr

def DecodeError.message : DecodeError → String
  | .unaligned a => "instruction unaligned, pc: " ++ Hex.word a
  | .invalid a w => "no operation matches word " ++ Hex.word w ++ " at pc " ++ Hex.word a

/-- The `count` bits of a word from bit `low` up, as a number. -/
def bitField (w : UInt16) (low count : Nat) : Nat := (w.toNat >>> low) % (1 <<< count)

/-- The operation that an instruction word asks for. The top four bits tell the shape, and for two operands
    also the operation. -/
def Operation.ofWord? (w : UInt16) : Option Operation :=
  match bitField w 12 4 with
  | 1 => (UnaryOp.ofCode? (bitField w 7 3)).map .unary
  | 2 | 3 => (Condition.ofCode? (bitField w 10 3)).map .jump
  | n => (BinaryOp.ofCode? n).map .binary

/-- The width that an instruction word asks for. -/
def Width.ofWord (w : UInt16) : Width := if bitField w 6 1 = 1 then .byte else .word

/-- The distance that a jump word holds: ten signed bits that count words from the next instruction. -/
def offsetOfWord (w : UInt16) : Int16 :=
  let n : Int := bitField w 0 10
  Int16.ofInt (2 * ((if n < 512 then n else n - 1024) + 1))

/-- Reads an operand of an instruction at `pc` of which `size` bytes have been read, and tells how many bytes
    have been read then. -/
def Operand.read (m : Memory) (pc size : UInt16) (mode : Mode) (number : Nat) : Operand × UInt16 :=
  let r : Register := UInt8.ofNat number
  if NeedsExtension mode r then ({ mode := mode, reg := r, ext := some (m.readWord (pc + size)) }, size + 2)
  else ({ mode := mode, reg := r }, size)

/-- Reads the operands that an operation takes, with the size of the whole instruction. -/
def Operands.read (m : Memory) (pc w : UInt16) : Operation → Operands × UInt16
  | .unary _ =>
    let (x, size) := Operand.read m pc 2 (.ofBits (bitField w 4 2)) (bitField w 0 4)
    (.one x, size)
  | .jump _ => (.offset (offsetOfWord w), 2)
  | .binary _ =>
    let (x, size) := Operand.read m pc 2 (.ofBits (bitField w 4 2)) (bitField w 8 4)
    let (y, size) := Operand.read m pc size (.ofBits (bitField w 7 1)) (bitField w 0 4)
    (.two x y, size)

/-- The width of an operation: jumps have no width bit. -/
def Operation.widthOf (w : UInt16) : Operation → Width
  | .jump _ => .word
  | _ => .ofWord w

/-- The instruction at `pc`. -/
def Instruction.decode (m : Memory) (pc : UInt16) : Except DecodeError Instruction :=
  if pc % 2 ≠ 0 then .error (.unaligned pc)
  else
    let w := m.readWord pc
    match Operation.ofWord? w with
    | none => .error (.invalid pc w)
    | some op =>
      let (operands, size) := Operands.read m pc w op
      .ok { operation := op, width := op.widthOf w, operands := operands, size := size }

end MicroDebug

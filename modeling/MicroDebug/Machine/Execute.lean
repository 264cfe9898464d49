import MicroDebug.Machine.Basic
import MicroDebug.Machine.Decimal

/-! What each operation does to registers and memory. The program counter is past the instruction word while
    an instruction takes effect. -/

namespace MicroDebug

/-- The sign bit at a width. -/
def Width.signMask : Width → UInt16
  | word => 0x8000
  | byte => 0x0080

/-- Sets the flags for a result that may be wider than the width: negative and zero from the part that
    fits, carry from the next bit, and no overflow. -/
def Registers.setResult (rs : Registers) (width : Width) (result : Nat) : Registers :=
  let low := result % width.size
  let rs := rs.setFlag .negative (width.size / 2 ≤ low)
  let rs := rs.setFlag .zero (low == 0)
  let rs := rs.setFlag .carry (result / width.size % 2 == 1)
  rs.setFlag .overflow false

namespace Machine

def setResult (m : Machine) (width : Width) (result : Nat) : Machine :=
  { m with registers := m.registers.setResult width result }

/-- Whether a jump is taken. -/
def holds (m : Machine) : Condition → Bool
  | .notZero => !m.flag .zero
  | .zero => m.flag .zero
  | .noCarry => !m.flag .carry
  | .carry => m.flag .carry
  | .negative => m.flag .negative
  | .greaterEqual => m.flag .negative == m.flag .overflow
  | .less => m.flag .negative != m.flag .overflow
  | .always => true

/-- Stores the low part of a sum and sets the flags for all of it. -/
def storeSum (m : Machine) (p : Place) (sum : Nat) (width : Width) : Machine :=
  (m.setResult width sum).store p (UInt16.ofNat sum) width

/-- Stores a result of bits, with the carry flag set if it is not zero. -/
def storeBits (m : Machine) (p : Place) (w : UInt16) (width : Width) : Machine :=
  let m := m.setResult width w.toNat
  (m.setFlag .carry (!m.flag .zero)).store p w width

/-- Stores a decimal sum. The negative flag is set by the highest digit but never cleared, and the zero
    flag stays. -/
def storeDecimal (m : Machine) (p : Place) (x y : UInt16) (width : Width) : Machine :=
  let sum := Decimal.add (width.bits / 4) 0 x.toNat y.toNat
  let m := m.setFlag .carry (sum.carry != 0)
  let m := if sum.top / 8 % 2 = 1 then m.setFlag .negative true else m
  m.store p (UInt16.ofNat sum.value) width

/-- The number that is added in place of a subtraction: all bits of the subtrahend turned. -/
def complement (w : UInt16) (width : Width) : Nat := width.mask.toNat - w.toNat

/-- An operation on a source value and a target place. -/
def combine (m : Machine) (op : BinaryOp) (source : UInt16) (p : Place) (width : Width) : Machine :=
  let target := m.load p width
  let carry := if m.flag .carry then 1 else 0
  match op with
  | .mov => m.store p source width
  | .add => m.storeSum p (target.toNat + source.toNat) width
  | .addc => m.storeSum p (target.toNat + source.toNat + carry) width
  | .subc => m.storeSum p (target.toNat + complement source width + carry) width
  | .sub => m.storeSum p (target.toNat + complement source width + 1) width
  | .cmp => m.setResult width (target.toNat + complement source width + 1)
  | .dadd => m.storeDecimal p target source width
  | .bit => m.setResult width (target &&& source).toNat
  | .bic => m.store p (target &&& ~~~source) width
  | .bis => m.store p (target ||| source) width
  | .xor => m.storeBits p (target ^^^ source) width
  | .and => m.storeBits p (target &&& source) width

def executeBinary (m : Machine) (op : BinaryOp) (source target : Operand) (width : Width) : Machine :=
  let (w, m) := m.fetchValue source width
  let p := m.locate target width
  (m.advance target).combine op w p width

/-- Rotates right, with the carry flag as the bit beyond the lowest. The zero flag is cleared. -/
def rotate (m : Machine) (p : Place) (width : Width) : Machine :=
  let w := m.load p width
  let result := (w >>> 1) ||| (if m.flag .carry then width.signMask else 0)
  let m := m.setFlag .carry (w &&& 1 != 0)
  let m := m.setFlag .zero false
  let m := m.setFlag .negative (result &&& width.signMask != 0)
  m.store p result width

/-- Halves a signed value. The zero flag is cleared and the carry flag stays. -/
def halve (m : Machine) (p : Place) (width : Width) : Machine :=
  let w := m.load p width
  let sign := w &&& width.signMask
  let m := m.setFlag .zero false
  let m := m.setFlag .negative (sign != 0)
  m.store p ((w >>> 1) ||| sign) width

/-- A word with its two bytes exchanged. -/
def swapBytes (w : UInt16) : UInt16 := (w <<< 8) ||| (w >>> 8)

/-- The low byte as a signed number, in a word. -/
def signExtend (w : UInt16) : UInt16 := if w &&& 0x80 = 0 then w &&& 0xff else w ||| 0xff00

/-- Lowers the stack pointer by a word. -/
def reserve (m : Machine) : Machine := m.setSp (m.registers.sp - 2)

/-- An operation on one operand; `next` is the address after the whole instruction. -/
def executeUnary (m : Machine) (op : UnaryOp) (x : Operand) (width : Width) (next : UInt16) : Machine :=
  match op with
  | .rrc => (m.advance x).rotate (m.locate x width) width
  | .rra => (m.advance x).halve (m.locate x width) width
  | .swpb =>
    let (w, m') := m.fetchValue x width
    m'.store (m.locate x width) (swapBytes w) width
  | .sxt =>
    let (w, m') := m.fetchValue x width
    m'.storeBits (m.locate x width) (signExtend w) width
  | .push =>
    let m := m.reserve
    let top := m.registers.sp
    let (w, m) := m.fetchValue x width
    { m with memory := m.memory.writeWord top w }
  | .call =>
    let m := m.reserve
    let m := { m with memory := m.memory.writeWord m.registers.sp next }
    let (w, m) := m.fetchValue x .word
    m.setPc w
  | .reti => m

/-- Carries an instruction out, unless its operands do not suit its operation. -/
def execute (m : Machine) (i : Instruction) (next : UInt16) : Option Machine :=
  match i.operation, i.operands with
  | .jump c, .offset d => some (if m.holds c then m.setPc (Instruction.jumpTarget (m.registers.pc - 2) d) else m)
  | .unary op, .one x => some (m.executeUnary op x i.width next)
  | .binary op, .two x y => some (m.executeBinary op x y i.width)
  | _, _ => none

end Machine
end MicroDebug

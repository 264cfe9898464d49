import MicroDebug.Instruction.Encode
import MicroDebug.Processor.Basic

/-! Loops that only count down: a decrement and a jump back to it while the result is not zero. Such a loop
    can run to its end in one step. -/

namespace MicroDebug

/-- The counter of a loop that a jump closes. -/
structure Countdown where
  place : Place
  width : Width
  /-- The value of the counter. -/
  remaining : UInt16
deriving DecidableEq, Repr

namespace Countdown

/-- Whether an instruction jumps to the word before it while the result is not zero. -/
def closes (i : Instruction) : Bool := i.operation == .jump .notZero && i.operands == .offset (-2)

/-- The counter of the loop that the jump `i` at `pc` closes, if the word before it is a decrement and its
    counter is not the program counter. -/
def find? (m : Machine) (pc : UInt16) (i : Instruction) : Option Countdown :=
  if closes i then
    match Instruction.decode m.memory (pc - 2) with
    | .error _ => none
    | .ok before =>
      match before.operation, before.operands with
      | .binary .add, .two x y =>
        if Operand.constant? (-1) = some x ∧ ¬(y.mode = .register ∧ y.reg = Register.pc) then
          let place := m.locate y before.width
          some { place := place, width := before.width, remaining := m.load place before.width }
        else none
      | _, _ => none
  else none

/-- The state after the loop: the counter is zero, the flags are those of its last decrement, and the jump,
    whose address and size are given, is not taken. -/
def run (d : Countdown) (m : Machine) (next : UInt16) : Machine :=
  let m := (m.store d.place 0 d.width).setPc next
  ((m.setFlag .zero true).setFlag .negative false).setFlag .carry true

end Countdown
end MicroDebug

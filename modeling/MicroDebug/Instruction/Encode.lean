import MicroDebug.Instruction.Basic

/-! Instructions as words: the instruction word, then a word for each operand that needs one. -/

namespace MicroDebug

/-- The word that follows for an operand, if it needs one. -/
def Operand.words (x : Operand) : List UInt16 :=
  if NeedsExtension x.mode x.reg then [x.extension] else []

/-- The bit that a destination has for its mode; the modes without a place of their own have none. -/
def Mode.targetBit? : Mode → Option UInt16
  | register => some 0
  | indexed => some 1
  | indirect | autoincrement => none

/-- The distances that a jump word can hold. -/
def JumpReach (distance : Int16) : Prop :=
  distance.toInt % 2 = 0 ∧ -1022 ≤ distance.toInt ∧ distance.toInt ≤ 1024

instance (distance : Int16) : Decidable (JumpReach distance) := inferInstanceAs (Decidable (_ ∧ _))

/-- The bits of a jump word that hold a distance. -/
def offsetBits (distance : Int16) : UInt16 := UInt16.ofNat ((distance.toInt / 2 - 1) % 1024).toNat

/-- The words of an instruction. There are none for operands that do not suit the operation, a destination
    that is indirect, or a distance that is odd or too long. -/
def Instruction.encode? (i : Instruction) : Option (List UInt16) :=
  let w := i.operation.codeBits ||| (if i.width = .byte then 0x0040 else 0)
  match i.operation, i.operands with
  | .unary _, .one x => some ((w ||| UInt16.ofNat (x.mode.bits * 16) ||| x.reg.toUInt16) :: x.words)
  | .jump _, .offset d => if JumpReach d then some [w ||| offsetBits d] else none
  | .binary _, .two x y =>
    y.mode.targetBit?.map fun (bit : UInt16) =>
      (w ||| (x.reg.toUInt16 <<< 8) ||| (bit <<< 7) ||| UInt16.ofNat (x.mode.bits * 16) ||| y.reg.toUInt16) ::
        (x.words ++ y.words)
  | _, _ => none

end MicroDebug

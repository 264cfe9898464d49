import MicroDebug.Instruction.Decode

/-! Instructions as text: a name and the operands, with a tab between. Loading the program counter is written
    as a branch, or as a return if the address comes from the stack. -/

namespace MicroDebug

/-- A distance from the jump, as `$` with a sign and a number in base 16. -/
def offsetText (distance : Int16) : String :=
  (if distance.toInt < 0 then "$-" else "$+") ++ Hex.short distance.toInt.natAbs

def Width.suffix : Width → String
  | word => ""
  | byte => ".b"

namespace Instruction

/-- The name an instruction is written with and the operands that are written. -/
def spelling (i : Instruction) : String × List Operand :=
  if i.isReturn then ("ret", [])
  else
    match i.operation, i.operands with
    | .binary .mov, .two x y => if y = Operand.ofRegister Register.pc then ("br", [x]) else ("mov", [x, y])
    | op, xs => (op.mnemonic, xs.toList)

/-- The text of an instruction at `a`; `targets` adds the address that a jump leads to. -/
def text (i : Instruction) (a : UInt16) (targets : Bool) : String :=
  match i.operands with
  | .offset d =>
    i.operation.mnemonic ++ "\t" ++ offsetText d ++
      (if targets then " [" ++ Hex.short (jumpTarget a d).toNat ++ "]" else "")
  | _ => i.spelling.1 ++ i.width.suffix ++ "\t" ++ ", ".intercalate (i.spelling.2.map Operand.text)

/-- The text that stands for an instruction where there is none. -/
def undecodable : String := "Failed to disassemble."

end Instruction
end MicroDebug

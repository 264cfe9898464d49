import MicroDebug.Register.Basic
import MicroDebug.Text.Hex

/-! Operands: an addressing mode, a register, and the word that may follow the instruction word. Some pairs of
    mode and register name a constant, an immediate value or an absolute address in place of a register. -/

namespace MicroDebug

/-- How an operand uses its register. -/
inductive Mode where
  /-- The register itself. -/
  | register
  /-- Memory at the sum of the register and the word that follows. -/
  | indexed
  /-- Memory at the register. -/
  | indirect
  /-- Memory at the register, which then moves on by a word. -/
  | autoincrement
deriving DecidableEq, Repr

namespace Mode

def bits : Mode → Nat
  | register => 0
  | indexed => 1
  | indirect => 2
  | autoincrement => 3

/-- The mode with the given low two bits. -/
def ofBits (n : Nat) : Mode :=
  match n % 4 with
  | 0 => register
  | 1 => indexed
  | 2 => indirect
  | _ => autoincrement

end Mode

/-- What an operand means that does not name its register. -/
inductive Literal where
  | constant (value : Int16)
  | absolute (address : UInt16)
  | immediate (value : UInt16)
deriving DecidableEq, Repr

/-- An operand, with the word that follows the instruction word for it. -/
structure Operand where
  mode : Mode
  reg : Register
  ext : Option UInt16 := none
deriving DecidableEq, Repr

namespace Operand

/-! ### Making operands -/

/-- The register itself. -/
def ofRegister (r : Register) : Operand := { mode := .register, reg := r }

/-- A value that follows the instruction word. -/
def immediate (value : UInt16) : Operand := { mode := .autoincrement, reg := Register.pc, ext := some value }

/-- Memory at an address that follows the instruction word. -/
def absolute (address : UInt16) : Operand := { mode := .indexed, reg := Register.sr, ext := some address }

/-- The operand that stands for a value without a word of its own; six values have one. -/
def constant? (value : Int16) : Option Operand :=
  if value = 4 then some { mode := .indirect, reg := Register.sr }
  else if value = 8 then some { mode := .autoincrement, reg := Register.sr }
  else if value = 0 then some { mode := .register, reg := Register.cg }
  else if value = 1 then some { mode := .indexed, reg := Register.cg }
  else if value = 2 then some { mode := .indirect, reg := Register.cg }
  else if value = -1 then some { mode := .autoincrement, reg := Register.cg }
  else none

/-- The shortest operand for a value. -/
def ofValue (value : UInt16) : Operand := (constant? value.toInt16).getD (immediate value)

/-! ### Meaning -/

/-- Whether a word follows the instruction word for an operand of this mode and register. -/
def NeedsExtension (mode : Mode) (r : Register) : Prop :=
  mode = .indexed ∧ r ≠ Register.cg ∨ mode = .autoincrement ∧ r = Register.pc

instance (mode : Mode) (r : Register) : Decidable (NeedsExtension mode r) :=
  inferInstanceAs (Decidable (_ ∨ _))

/-- The word that follows for the operand, zero if there is none. -/
def extension (x : Operand) : UInt16 := x.ext.getD 0

/-- What the operand means if its mode and register name no register. -/
def literal? (x : Operand) : Option Literal :=
  if x.reg = Register.sr then
    match x.mode with
    | .register => none
    | .indexed => some (.absolute x.extension)
    | .indirect => some (.constant 4)
    | .autoincrement => some (.constant 8)
  else if x.reg = Register.cg then
    match x.mode with
    | .register => some (.constant 0)
    | .indexed => some (.constant 1)
    | .indirect => some (.constant 2)
    | .autoincrement => some (.constant (-1))
  else if x.reg = Register.pc ∧ x.mode = .autoincrement then some (.immediate x.extension)
  else none

/-- Whether the operand is a value and not a place. -/
def isValue (x : Operand) : Bool :=
  match x.literal? with
  | some (.constant _) | some (.immediate _) => true
  | _ => false

/-! ### Text -/

/-- A signed number in base 16 with a minus sign if it is negative. -/
def signedHex (n : Int) : String := if n < 0 then "-" ++ Hex.short n.natAbs else Hex.short n.natAbs

def text (x : Operand) : String :=
  match x.literal? with
  | some (.absolute a) => "&" ++ Hex.word a
  | some (.constant n) => "#" ++ signedHex n.toInt
  | some (.immediate w) => "#" ++ Hex.word w
  | none =>
    match x.mode with
    | .register => x.reg.name
    | .indexed => signedHex x.extension.toInt16.toInt ++ "(" ++ x.reg.name ++ ")"
    | .indirect => "@" ++ x.reg.name
    | .autoincrement => "@" ++ x.reg.name ++ "+"

end Operand
end MicroDebug

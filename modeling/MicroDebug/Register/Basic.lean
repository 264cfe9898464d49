/-! The sixteen registers. The first four have roles of their own: program counter, stack pointer, status
    register and constant generator. -/

namespace MicroDebug

/-- The number of a register. The sixteen registers have the numbers below 16. -/
abbrev Register := UInt8

namespace Register

/-- The program counter. -/
def pc : Register := 0

/-- The stack pointer. -/
def sp : Register := 1

/-- The status register, which stands for constants in some addressing modes. -/
def sr : Register := 2

/-- The constant generator, which stands for a constant in every addressing mode. -/
def cg : Register := 3

/-- The name a register is shown with: a role if it has one, else `r` and its number. -/
def name (r : Register) : String :=
  match r.toNat with
  | 0 => "pc"
  | 1 => "sp"
  | 2 => "sr"
  | 3 => "cg"
  | n => s!"r{n}"

/-- All sixteen registers in order. -/
def all : List Register := (List.range 16).map UInt8.ofNat

/-- A register may be called by the name it is shown with, or by `r` and its number. -/
def ofName? (text : String) : Option Register :=
  all.find? fun r => text == r.name || text == s!"r{r.toNat}"

end Register
end MicroDebug

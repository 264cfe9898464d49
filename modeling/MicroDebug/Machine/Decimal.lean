/-! Sums of numbers with four bits to a decimal digit. A digit above nine gives ten away as a carry. -/

namespace MicroDebug.Decimal

/-- A sum of as many digits as were asked for. -/
structure Sum where
  value : Nat
  /-- One if the sum needs a further digit, else zero. -/
  carry : Nat
  /-- The sum at the highest digit, before a carry is given away. -/
  top : Nat
deriving DecidableEq, Repr

/-- Adds the lowest digits of two numbers, with a carry into the first. -/
def add : (digits carry x y : Nat) → Sum
  | 0, carry, _, _ => { value := 0, carry := carry, top := 0 }
  | digits + 1, carry, x, y =>
    let total := x % 16 + y % 16 + carry
    let carries := total ≥ 10
    let rest := add digits (if carries then 1 else 0) (x / 16) (y / 16)
    { value := (if carries then total - 10 else total) % 16 + 16 * rest.value
      carry := rest.carry
      top := if digits = 0 then total else rest.top }

end MicroDebug.Decimal

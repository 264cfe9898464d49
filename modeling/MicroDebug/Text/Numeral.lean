/-! Unsigned numerals of a given base. At least one digit is needed, one plus sign may stand in front, digits
    beyond nine are letters of either case, and a value that does not fit is refused. -/

namespace MicroDebug.Numeral

/-- The value of a digit character below 36. -/
def digit? (c : Char) : Option Nat :=
  if '0' ≤ c ∧ c ≤ '9' then some (c.toNat - '0'.toNat)
  else if 'a' ≤ c ∧ c ≤ 'z' then some (c.toNat - 'a'.toNat + 10)
  else if 'A' ≤ c ∧ c ≤ 'Z' then some (c.toNat - 'A'.toNat + 10)
  else none

/-- The value of a character as a digit of `base`. -/
def digitIn? (base : Nat) (c : Char) : Option Nat := (digit? c).filter (· < base)

/-- The value of digits that follow a number of value `high`. -/
def valueFrom? (base high : Nat) : List Char → Option Nat
  | [] => some high
  | c :: rest => (digitIn? base c).bind fun d => valueFrom? base (high * base + d) rest

/-- The value of one or more digits. -/
def value? (base : Nat) : List Char → Option Nat
  | [] => none
  | cs => valueFrom? base 0 cs

/-- The number below `bound` that the text writes. -/
def parse? (base bound : Nat) (text : String) : Option Nat :=
  let cs := text.toList
  (value? base (if cs.head? = some '+' then cs.tail else cs)).filter (· < bound)

/-- A word written in base 16. -/
def hexWord? (text : String) : Option UInt16 := (parse? 16 65536 text).map UInt16.ofNat

end MicroDebug.Numeral

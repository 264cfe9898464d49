/-! Numbers written in base 16 with lower-case digits: without leading zeros, or filled up with zeros to a
    given width. -/

namespace MicroDebug.Hex

/-- The digits of `n` without leading zeros; zero is written as one digit. -/
def digits (n : Nat) : List Char := Nat.toDigits 16 n

/-- The digits of `n`, with zeros in front up to `width` characters. -/
def paddedDigits (width n : Nat) : List Char := (digits n).leftpad width '0'

def short (n : Nat) : String := String.ofList (digits n)

def padded (width n : Nat) : String := String.ofList (paddedDigits width n)

/-- A word as four digits. -/
def word (w : UInt16) : String := padded 4 w.toNat

/-- A byte as two digits. -/
def byte (b : UInt8) : String := padded 2 b.toNat

theorem digits_eq (n : Nat) :
    digits n = (if n < 16 then [] else digits (n / 16)) ++ [(n % 16).digitChar] := by
  unfold digits
  rw [Nat.toDigits_eq_if (by omega)]
  split
  · next h => simp [Nat.mod_eq_of_lt h]
  · rfl

end MicroDebug.Hex

/-! The bytes that a line of program input stands for: the text itself with a zero after it, or pairs of digits
    in base 16 with blanks anywhere. -/

namespace MicroDebug

/-- How lines of program input are read. -/
inductive InputMode where
  | text
  | hex
deriving DecidableEq, Repr

namespace InputMode

/-- The word for the mode where a line is asked for. -/
def label : InputMode → String
  | text => "char"
  | hex => "hex"

end InputMode

namespace InputText

/-- Why a line is not a sequence of bytes in base 16. -/
inductive HexError where
  | oddLength
  | invalidDigit
deriving DecidableEq, Repr

def HexError.message : HexError → String
  | .oddLength => "Hex input should have an even length."
  | .invalidDigit => "Error parsing hex input: invalid digit found in string"

/-- The bytes of a text in UTF-8. -/
def utf8 (text : String) : List UInt8 := text.toList.flatMap String.utf8EncodeChar

/-- Whether a byte is a blank: a space, a tab, or the end of a line or page. -/
def isBlank (b : UInt8) : Bool := b == 0x20 || b == 0x09 || b == 0x0a || b == 0x0c || b == 0x0d

/-- The value of a byte as a digit in base 16. -/
def digit? (b : UInt8) : Option UInt8 :=
  if 0x30 ≤ b ∧ b ≤ 0x39 then some (b - 0x30)
  else if 0x61 ≤ b ∧ b ≤ 0x66 then some (b - 0x61 + 10)
  else if 0x41 ≤ b ∧ b ≤ 0x46 then some (b - 0x41 + 10)
  else none

/-- The bytes that pairs of digits write. -/
def pairs : List UInt8 → Except HexError (List UInt8)
  | [] => .ok []
  | [_] => .error .oddLength
  | x :: y :: rest =>
    match digit? x, digit? y with
    | some high, some low => (pairs rest).map fun bytes => (high * 16 + low) :: bytes
    | _, _ => .error .invalidDigit

/-- The bytes that a line writes in base 16. An odd number of characters is told before a wrong one. -/
def hexBytes (line : String) : Except HexError (List UInt8) :=
  let digits := (utf8 line).filter fun b => !isBlank b
  if digits.length % 2 = 0 then pairs digits else .error .oddLength

/-- What a line stores where at most `limit` bytes are wanted. -/
def bytes (mode : InputMode) (limit : UInt16) (line : String) : Except HexError (List UInt8) :=
  match mode with
  | .text => .ok ((utf8 line).take limit.toNat ++ [0])
  | .hex => (hexBytes line).map (·.take limit.toNat)

end InputText
end MicroDebug

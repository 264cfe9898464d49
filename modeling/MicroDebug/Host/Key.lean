/-! Keys as a terminal knows them. A key has a character of its own or a number, and many keys have nothing to
    type. -/

namespace MicroDebug

/-- A key press as a terminal reports it. -/
inductive Key where
  | typed (c : Char)
  /-- A character typed with the control key held down. -/
  | control (c : Char)
  | backspace
  | enter
  | other
deriving DecidableEq, Repr

namespace Key

/-- The key of a character that no key types as itself. -/
def ofMark? (c : Char) : Option Key :=
  if c = '\r' then some enter
  else if c = '\x7f' then some backspace
  else if c = '\t' ∨ c = '\x1b' then some other
  else none

/-- The key that a terminal reports for a character sent to it. -/
def ofChar (c : Char) : Key :=
  (ofMark? c).getD (if c.toNat < 0x20 then control (Char.ofNat (c.toNat + 0x60)) else typed c)

/-- The key that types a character, with or without the control key. -/
def typing (held : Bool) (c : Char) : Key := if held then control c else typed c

/-! ### Numbered keys -/

/-- What the keys of a number pad type, from the number 57399 on. -/
def padChars : List Char :=
  ['0', '1', '2', '3', '4', '5', '6', '7', '8', '9', '.', '/', '*', '-', '+', '\r', '=', ',']

/-- Whether a number is that of a key that types nothing. -/
def isSilent (code : Nat) : Bool :=
  57358 ≤ code && code ≤ 57363 || 57376 ≤ code && code ≤ 57398 || 57417 ≤ code && code ≤ 57454

/-- The character with a number. -/
def charOf? (code : Nat) : Option Char := if code.isValidChar then some (Char.ofNat code) else none

/-- The key with a number, if there is one. Keys that are not on a pad have the numbers of the characters they
    type. -/
def ofCode? (held : Bool) (code : Nat) : Option Key :=
  if isSilent code then some other
  else
    (if 57399 ≤ code ∧ code < 57417 then padChars[code - 57399]? else charOf? code).map fun c =>
      (ofMark? c).getD (typing held c)

end Key
end MicroDebug

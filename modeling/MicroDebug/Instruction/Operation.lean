/-! The operations of the instruction set, sorted by the shape of their operands: none but an offset, one
    operand, or a source and a destination. -/

namespace MicroDebug

/-- Whether an operation works on whole words or on bytes. -/
inductive Width where
  | word
  | byte
deriving DecidableEq, Repr

namespace Width

def bits : Width → Nat
  | word => 16
  | byte => 8

/-- The number of values that fit. -/
def size : Width → Nat
  | word => 65536
  | byte => 256

/-- The bits of a word that the width covers. -/
def mask : Width → UInt16
  | word => 0xffff
  | byte => 0x00ff

end Width

/-- Operations with one operand. -/
inductive UnaryOp where
  /-- Rotates right through the carry flag. -/
  | rrc
  /-- Exchanges the two bytes of a word. -/
  | swpb
  /-- Shifts right and keeps the sign. -/
  | rra
  /-- Extends the sign of the low byte to the word. -/
  | sxt
  | push
  | call
  /-- Returns from an interrupt. -/
  | reti
deriving DecidableEq, Repr

/-- When a jump is taken. -/
inductive Condition where
  | notZero
  | zero
  | noCarry
  | carry
  | negative
  | greaterEqual
  | less
  | always
deriving DecidableEq, Repr

/-- Operations with a source and a destination. -/
inductive BinaryOp where
  | mov
  | add
  | addc
  | subc
  | sub
  | cmp
  /-- Adds numbers whose digits are four bits each. -/
  | dadd
  | bit
  | bic
  | bis
  | xor
  | and
deriving DecidableEq, Repr

/-- What an instruction does. -/
inductive Operation where
  | unary (op : UnaryOp)
  | jump (condition : Condition)
  | binary (op : BinaryOp)
deriving DecidableEq, Repr

/-! ### Codes -/

namespace UnaryOp

def all : List UnaryOp := [rrc, swpb, rra, sxt, push, call, reti]

/-- The number of the operation among those with one operand. -/
def code : UnaryOp → Nat
  | rrc => 0
  | swpb => 1
  | rra => 2
  | sxt => 3
  | push => 4
  | call => 5
  | reti => 6

def ofCode? (n : Nat) : Option UnaryOp := all[n]?

def mnemonic : UnaryOp → String
  | rrc => "rrc"
  | swpb => "swpb"
  | rra => "rra"
  | sxt => "sxt"
  | push => "push"
  | call => "call"
  | reti => "reti"

theorem ofCode?_code (op : UnaryOp) : ofCode? op.code = some op := by cases op <;> rfl

end UnaryOp

namespace Condition

def all : List Condition := [notZero, zero, noCarry, carry, negative, greaterEqual, less, always]

def code : Condition → Nat
  | notZero => 0
  | zero => 1
  | noCarry => 2
  | carry => 3
  | negative => 4
  | greaterEqual => 5
  | less => 6
  | always => 7

def ofCode? (n : Nat) : Option Condition := all[n]?

def mnemonic : Condition → String
  | notZero => "jnz"
  | zero => "jz"
  | noCarry => "jnc"
  | carry => "jc"
  | negative => "jn"
  | greaterEqual => "jge"
  | less => "jl"
  | always => "jmp"

theorem ofCode?_code (c : Condition) : ofCode? c.code = some c := by cases c <;> rfl

end Condition

namespace BinaryOp

def all : List BinaryOp := [mov, add, addc, subc, sub, cmp, dadd, bit, bic, bis, xor, and]

/-- The top four bits of the instruction word; codes below four belong to the other shapes. -/
def code : BinaryOp → Nat
  | mov => 4
  | add => 5
  | addc => 6
  | subc => 7
  | sub => 8
  | cmp => 9
  | dadd => 10
  | bit => 11
  | bic => 12
  | bis => 13
  | xor => 14
  | and => 15

def ofCode? (n : Nat) : Option BinaryOp := if n < 4 then none else all[n - 4]?

def mnemonic : BinaryOp → String
  | mov => "mov"
  | add => "add"
  | addc => "addc"
  | subc => "subc"
  | sub => "sub"
  | cmp => "cmp"
  | dadd => "dadd"
  | bit => "bit"
  | bic => "bic"
  | bis => "bis"
  | xor => "xor"
  | and => "and"

theorem ofCode?_code (op : BinaryOp) : ofCode? op.code = some op := by cases op <;> rfl

end BinaryOp

namespace Operation

def all : List Operation :=
  UnaryOp.all.map unary ++ BinaryOp.all.map binary ++ Condition.all.map jump

/-- The bits of the instruction word that tell the operation from all others. -/
def codeBits : Operation → UInt16
  | unary op => UInt16.ofNat (0x1000 + op.code * 0x80)
  | jump c => UInt16.ofNat (0x2000 + c.code * 0x400)
  | binary op => UInt16.ofNat (op.code * 0x1000)

def mnemonic : Operation → String
  | unary op => op.mnemonic
  | jump c => c.mnemonic
  | binary op => op.mnemonic

def ofMnemonic? (text : String) : Option Operation := all.find? fun op => op.mnemonic == text

end Operation
end MicroDebug

/-! The bits of the status register: four flags that instructions set and test, a bit that halts the
    processor, and a field that asks the host for a service. -/

namespace MicroDebug

/-- The flags that hold facts about a result. -/
inductive Flag where
  | carry
  | zero
  | negative
  | overflow
deriving DecidableEq, Repr

namespace Flag

/-- All flags, in the order they are listed. -/
def all : List Flag := [carry, zero, negative, overflow]

/-- The bit of the status register that holds the flag. -/
def mask : Flag → UInt16
  | carry => 0x0001
  | zero => 0x0002
  | negative => 0x0004
  | overflow => 0x0100

def name : Flag → String
  | carry => "carry"
  | zero => "zero"
  | negative => "negative"
  | overflow => "overflow"

def ofName? (text : String) : Option Flag := all.find? fun f => f.name == text

theorem ofName?_eq_some_iff {text : String} {f : Flag} : ofName? text = some f ↔ text = f.name := by
  constructor
  · intro h
    have hname := List.find?_some h
    exact (beq_iff_eq.mp hname).symm
  · rintro rfl
    cases f <;> rfl

end Flag

namespace Status

/-- The bit that halts the processor. -/
def haltMask : UInt16 := 0x0010

/-- The bit that lets the gate serve requests. -/
def gateMask : UInt16 := 0x8000

/-- The seven bits that number the requested service. -/
def request (sr : UInt16) : UInt8 := ((sr >>> 8) &&& 0x7f).toUInt8

end Status
end MicroDebug

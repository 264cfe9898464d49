import MicroDebug.Memory.Bank

/-! The 64 KiB address space. Addresses wrap, words are stored low byte first at any address, and the word at
    `0xfffe` says where a program starts. -/

namespace MicroDebug

/-- A byte for each of the 65536 addresses. -/
structure Memory where
  bank : Bank 16

namespace Memory

/-- The number of addresses. -/
def size : Nat := 65536

/-- The address of the word that says where a program starts. -/
def resetAddress : UInt16 := 0xfffe

/-- The memory that holds zero everywhere. -/
def zero : Memory := ⟨Bank.fill 0 16⟩

instance : Inhabited Memory := ⟨zero⟩

def readByte (m : Memory) (a : UInt16) : UInt8 := m.bank.get a.toNat

def writeByte (m : Memory) (a : UInt16) (b : UInt8) : Memory := ⟨m.bank.set a.toNat b⟩

/-- The word at `a`: its low byte is at `a` and its high byte at the next address, zero after the last. -/
def readWord (m : Memory) (a : UInt16) : UInt16 :=
  (m.readByte a).toUInt16 ||| ((m.readByte (a + 1)).toUInt16 <<< 8)

def writeWord (m : Memory) (a : UInt16) (w : UInt16) : Memory :=
  (m.writeByte a w.toUInt8).writeByte (a + 1) (w >>> 8).toUInt8

/-- Stores bytes at consecutive addresses from `a` on. -/
def writeBytes (m : Memory) (a : UInt16) : List UInt8 → Memory
  | [] => m
  | b :: rest => (m.writeByte a b).writeBytes (a + 1) rest

/-- Stores words at consecutive word addresses from `a` on. -/
def writeWords (m : Memory) (a : UInt16) : List UInt16 → Memory
  | [] => m
  | w :: rest => (m.writeWord a w).writeWords (a + 2) rest

/-- Where the program held in memory starts. -/
def entry (m : Memory) : UInt16 := m.readWord resetAddress

/-- All bytes in the order of their addresses. -/
def dump (m : Memory) : List UInt8 := (List.range size).map fun a => m.readByte (UInt16.ofNat a)

/-! ### Images -/

/-- Why a sequence of bytes is no memory image. -/
inductive ImageError where
  | oversized (length : Nat)
deriving DecidableEq, Repr

def ImageError.message : ImageError → String
  | .oversized length => s!"memory image is {length} bytes, but at most {size} are allowed"

/-- The memory that starts with the bytes of an image and is zero after them. -/
def ofImage (image : List UInt8) : Except ImageError Memory :=
  if image.length ≤ size then .ok (zero.writeBytes 0 image) else .error (.oversized image.length)

/-! ### Bytes and words -/

@[simp] theorem readByte_zero (a : UInt16) : zero.readByte a = 0 := Bank.get_fill 0 a.toNat 16

theorem exists_testBit_ne {a c : UInt16} (h : a ≠ c) : ∃ i < 16, a.toNat.testBit i ≠ c.toNat.testBit i := by
  refine Classical.byContradiction fun hn => h (UInt16.toNat_inj.mp (Nat.eq_of_testBit_eq fun i => ?_))
  by_cases hi : i < 16
  · exact Classical.byContradiction fun hne => hn ⟨i, hi, hne⟩
  · have hp : 2 ^ 16 ≤ 2 ^ i := Nat.pow_le_pow_right (by omega) (by omega)
    rw [Nat.testBit_lt_two_pow (Nat.lt_of_lt_of_le a.toNat_lt hp),
      Nat.testBit_lt_two_pow (Nat.lt_of_lt_of_le c.toNat_lt hp)]

theorem readByte_writeByte (m : Memory) (a c : UInt16) (b : UInt8) :
    (m.writeByte a b).readByte c = if a = c then b else m.readByte c := by
  by_cases h : a = c
  · subst h; simp [readByte, writeByte, Bank.get_set_same]
  · simp [readByte, writeByte, h, Bank.get_set_other b m.bank (exists_testBit_ne h)]

@[ext] theorem ext {m n : Memory} (h : ∀ a, m.readByte a = n.readByte a) : m = n := by
  obtain ⟨s⟩ := m
  obtain ⟨t⟩ := n
  congr
  refine Bank.ext fun a => ?_
  have hlow : ∀ i < 16, (UInt16.ofNat a).toNat.testBit i = a.testBit i := fun i hi => by
    rw [UInt16.toNat_ofNat', Nat.testBit_mod_two_pow, decide_eq_true hi, Bool.true_and]
  have := h (UInt16.ofNat a)
  rwa [readByte, readByte, Bank.get_congr _ hlow, Bank.get_congr _ hlow] at this

end Memory
end MicroDebug

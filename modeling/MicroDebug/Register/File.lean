import MicroDebug.Register.Basic
import MicroDebug.Register.Status

/-! The values of the sixteen registers, and the flags as bits of one of them. -/

namespace MicroDebug

/-- A word for each register. -/
structure Registers where
  values : Vector UInt16 16
deriving DecidableEq, Repr

namespace Registers

/-- Registers that all hold zero. -/
def zero : Registers := ⟨Vector.replicate 16 0⟩

instance : Inhabited Registers := ⟨zero⟩

/-- The slot that a register number selects. -/
def slot (r : Register) : Fin 16 := ⟨r.toNat % 16, Nat.mod_lt _ (by decide)⟩

/-- The value of a register; numbers that agree modulo 16 name the same one. -/
def get (rs : Registers) (r : Register) : UInt16 := rs.values[slot r]

def set (rs : Registers) (r : Register) (w : UInt16) : Registers := ⟨rs.values.set (slot r) w⟩

def pc (rs : Registers) : UInt16 := rs.get Register.pc
def sp (rs : Registers) : UInt16 := rs.get Register.sp
def sr (rs : Registers) : UInt16 := rs.get Register.sr
def setPc (rs : Registers) (w : UInt16) : Registers := rs.set Register.pc w
def setSp (rs : Registers) (w : UInt16) : Registers := rs.set Register.sp w

/-- Every register with its name, in order. -/
def named (rs : Registers) : List (String × UInt16) := Register.all.map fun r => (r.name, rs.get r)

/-! ### Flags -/

def flag (rs : Registers) (f : Flag) : Bool := rs.sr &&& f.mask != 0

/-- Sets or clears one flag and keeps the other bits of the status register. -/
def setFlag (rs : Registers) (f : Flag) (on : Bool) : Registers :=
  let others := rs.sr &&& ~~~f.mask
  rs.set Register.sr (if on then others ||| f.mask else others)

/-! ### Access -/

theorem get_set (rs : Registers) (r q : Register) (w : UInt16) :
    (rs.set r w).get q = if slot r = slot q then w else rs.get q := by
  simp [get, set, Vector.getElem_set, Fin.ext_iff]

@[ext] theorem ext {rs qs : Registers} (h : ∀ r, rs.get r = qs.get r) : rs = qs := by
  obtain ⟨v⟩ := rs
  obtain ⟨w⟩ := qs
  congr
  refine Vector.ext fun i hi => ?_
  have := h (UInt8.ofNat i)
  have hs : slot (UInt8.ofNat i) = ⟨i, hi⟩ := by
    have hi' : i % 256 % 16 = i := by omega
    simpa [slot, Fin.ext_iff] using hi'
  simpa [get, hs] using this

end Registers
end MicroDebug

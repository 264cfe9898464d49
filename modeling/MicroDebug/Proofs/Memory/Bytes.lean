import MicroDebug.Memory.Basic
import Mathlib.Data.UInt

/-! Bytes stored in a row. They are found again one by one from the first address on, across the end of memory if need
    be, and all other bytes are as they were. -/

namespace MicroDebug

theorem Memory.readByte_writeBytes_of_ne (m : Memory) {a c : UInt16} {bs : List UInt8}
    (h : ∀ k < bs.length, a + UInt16.ofNat k ≠ c) : (m.writeBytes a bs).readByte c = m.readByte c := by
  induction bs generalizing m a with
  | nil => rfl
  | cons b bs ih =>
    rw [List.length_cons] at h
    have h₀ : a ≠ c := by simpa using h 0 (by omega)
    rw [writeBytes, ih, readByte_writeByte, if_neg h₀]
    intro k hk
    have hk' := h (k + 1) (by omega)
    rw [UInt16.ofNat_add] at hk'
    grind

/-- The bytes are found in a row from `a` on, and memory is as it was elsewhere. -/
structure Memory.Lands (old : Memory) (a : UInt16) (bs : List UInt8) (m : Memory) : Prop where
  stored : ∀ i (h : i < bs.length), m.readByte (a + UInt16.ofNat i) = bs[i]
  elsewhere : ∀ c, (∀ i < bs.length, c ≠ a + UInt16.ofNat i) → m.readByte c = old.readByte c

theorem Memory.add_ofNat_succ (a : UInt16) (k : Nat) : a + UInt16.ofNat (k + 1) = a + 1 + UInt16.ofNat k := by
  rw [UInt16.ofNat_add]
  grind

theorem Memory.lands_writeBytes (m : Memory) (a : UInt16) {bs : List UInt8} (h : bs.length ≤ size) :
    m.Lands a bs (m.writeBytes a bs) := by
  refine ⟨fun i hi => ?_, fun c hc => readByte_writeBytes_of_ne m fun i hi => (hc i hi).symm⟩
  induction bs generalizing m a i with
  | nil => exact absurd hi (Nat.not_lt_zero i)
  | cons b bs ih =>
    rw [List.length_cons] at h hi
    cases i with
    | zero =>
      -- the bytes after the first one end before the addresses have wrapped around to it
      have hfar : ∀ k < bs.length, a + 1 + UInt16.ofNat k ≠ a + UInt16.ofNat 0 := by
        intro k hk he
        have hsum : UInt16.ofNat (k + 1) = 0 := by
          rw [UInt16.ofNat_add]
          grind
        have := congrArg UInt16.toNat hsum
        rw [UInt16.toNat_ofNat'] at this
        change (k + 1) % 65536 = 0 at this
        rw [size] at h
        omega
      rw [writeBytes, readByte_writeBytes_of_ne _ hfar, readByte_writeByte]
      simp
    | succ i =>
      rw [writeBytes, add_ofNat_succ, ih (m.writeByte a b) (a + 1) (by omega) i (by omega)]
      rfl

end MicroDebug

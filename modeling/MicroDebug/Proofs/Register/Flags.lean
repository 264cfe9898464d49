import MicroDebug.Machine.Execute
import Mathlib.Data.Nat.Bitwise
import Mathlib.Data.UInt

/-! Registers as flags beside words. The status register is its four flags and the bits that are none; setting a
    flag changes nothing but that flag, and setting another register changes no flag. -/

namespace MicroDebug

/-- The part of a word within a width is its remainder. -/
theorem Width.toNat_and_mask (x : UInt16) (w : Width) : (x &&& w.mask).toNat = x.toNat % w.size := by
  rw [UInt16.toNat_and]
  cases w
  · exact Nat.and_two_pow_sub_one_eq_mod x.toNat 16
  · exact Nat.and_two_pow_sub_one_eq_mod x.toNat 8

namespace Flag

/-- The bits of the status register that hold no flag. -/
def restMask : UInt16 := 0xfef8

theorem mask_ne_zero (f : Flag) : f.mask ≠ 0 := by cases f <;> decide

theorem mask_and_restMask (f : Flag) : f.mask &&& restMask = 0 := by cases f <;> decide

theorem mask_and_mask {f g : Flag} (h : f ≠ g) : f.mask &&& g.mask = 0 := by
  cases f <;> cases g <;> first | exact absurd rfl h | decide

theorem log2_mask (f : Flag) : f.mask.toNat = 2 ^ f.mask.toNat.log2 := by cases f <;> decide

/-- Within the bit of a flag there are only two words. -/
theorem and_mask_eq (w : UInt16) (f : Flag) : w &&& f.mask = if w &&& f.mask != 0 then f.mask else 0 := by
  have h : (w &&& f.mask).toNat = 0 ∨ (w &&& f.mask).toNat = f.mask.toNat := by
    rw [UInt16.toNat_and, log2_mask f, Nat.and_two_pow]
    cases w.toNat.testBit f.mask.toNat.log2 <;> simp
  rcases h with h | h
  · have h0 : w &&& f.mask = 0 := UInt16.toNat_inj.mp h
    simp [h0]
  · have hm : w &&& f.mask = f.mask := UInt16.toNat_inj.mp h
    simp [hm, mask_ne_zero f]

theorem eq_of_and_mask {v w : UInt16} (hrest : v &&& restMask = w &&& restMask)
    (hmask : ∀ f : Flag, v &&& f.mask = w &&& f.mask) : v = w := by
  have hsplit : ∀ x : UInt16, x = x &&& restMask ||| x &&& carry.mask ||| x &&& zero.mask |||
      x &&& negative.mask ||| x &&& overflow.mask := fun x => by
    rw [← UInt16.toBitVec_inj]
    simp only [UInt16.toBitVec_or, UInt16.toBitVec_and, ← BitVec.and_or_distrib_left]
    exact BitVec.and_allOnes.symm
  rw [hsplit v, hsplit w, hrest, hmask, hmask, hmask, hmask]

end Flag

namespace Registers

/-! ### Bits of a word -/

/-- Setting or clearing the bits of a mask keeps the bits that are apart from them. -/
theorem and_of_and_eq_zero {w m n : UInt16} (h : m &&& n = 0) (on : Bool) :
    (if on then w &&& ~~~m ||| m else w &&& ~~~m) &&& n = w &&& n := by
  rw [← UInt16.toBitVec_inj] at h ⊢
  ext i hi
  have hbit : (m.toBitVec[i] && n.toBitVec[i]) = false := by
    rw [← BitVec.getElem_and, ← UInt16.toBitVec_and, h]
    exact BitVec.getElem_zero hi
  cases on <;> simp only [Bool.false_eq_true, if_false, if_true, UInt16.toBitVec_and, UInt16.toBitVec_or,
    UInt16.toBitVec_not, BitVec.getElem_and, BitVec.getElem_or, BitVec.getElem_not]
  all_goals
    revert hbit
    cases m.toBitVec[i] <;> cases n.toBitVec[i] <;> cases w.toBitVec[i] <;> decide

theorem and_mask_self (w m : UInt16) (on : Bool) :
    (if on then w &&& ~~~m ||| m else w &&& ~~~m) &&& m = if on then m else 0 := by
  rw [← UInt16.toBitVec_inj]
  ext i hi
  cases on <;> simp only [Bool.false_eq_true, if_false, if_true, UInt16.toBitVec_and, UInt16.toBitVec_or,
    UInt16.toBitVec_not, BitVec.getElem_and, BitVec.getElem_or, BitVec.getElem_not]
  · cases m.toBitVec[i] <;> cases w.toBitVec[i] <;> simp
  · cases m.toBitVec[i] <;> cases w.toBitVec[i] <;> rfl

/-! ### One register -/

section

variable (rs : Registers)

theorem get_of_slot_eq {r q : Register} (h : slot r = slot q) : rs.get r = rs.get q := by
  simp only [get, h]

theorem set_get (r : Register) : rs.set r (rs.get r) = rs := by
  refine Registers.ext fun q => ?_
  rw [get_set]
  split
  · next hq => exact rs.get_of_slot_eq hq
  · rfl

theorem set_set (r : Register) (v w : UInt16) : (rs.set r v).set r w = rs.set r w := by
  refine Registers.ext fun q => ?_
  simp only [get_set]
  split <;> rfl

theorem set_comm {r q : Register} (h : slot r ≠ slot q) (v w : UInt16) :
    (rs.set r v).set q w = (rs.set q w).set r v := by
  refine Registers.ext fun x => ?_
  simp only [get_set]
  split
  · next hq => rw [if_neg fun hr => h (hr.trans hq.symm)]
  · rfl

end

/-! ### One flag -/

/-- The bits of the status register that hold no flag. -/
def rest (rs : Registers) : UInt16 := rs.sr &&& Flag.restMask

section

variable (rs : Registers)

theorem sr_setFlag (f : Flag) (on : Bool) :
    (rs.setFlag f on).sr = if on then rs.sr &&& ~~~f.mask ||| f.mask else rs.sr &&& ~~~f.mask := by
  rw [sr, setFlag, get_set, if_pos rfl]

theorem get_setFlag {q : Register} (hq : slot Register.sr ≠ slot q) (f : Flag) (on : Bool) :
    (rs.setFlag f on).get q = rs.get q := by
  rw [setFlag, get_set, if_neg hq]

theorem flag_setFlag (f g : Flag) (on : Bool) :
    (rs.setFlag f on).flag g = if f = g then on else rs.flag g := by
  rw [flag, sr_setFlag]
  by_cases h : f = g
  · subst h
    rw [and_mask_self, if_pos rfl]
    cases on
    · rfl
    · simpa using f.mask_ne_zero
  · rw [and_of_and_eq_zero (Flag.mask_and_mask h), if_neg h, flag]

theorem rest_setFlag (f : Flag) (on : Bool) : (rs.setFlag f on).rest = rs.rest := by
  rw [rest, sr_setFlag, and_of_and_eq_zero f.mask_and_restMask, rest]

theorem sr_set {r : Register} (hr : slot r ≠ slot Register.sr) (w : UInt16) : (rs.set r w).sr = rs.sr := by
  rw [sr, get_set, if_neg hr, sr]

theorem flag_set {r : Register} (hr : slot r ≠ slot Register.sr) (w : UInt16) (f : Flag) :
    (rs.set r w).flag f = rs.flag f := by
  rw [flag, sr_set rs hr, flag]

theorem rest_set {r : Register} (hr : slot r ≠ slot Register.sr) (w : UInt16) : (rs.set r w).rest = rs.rest := by
  rw [rest, sr_set rs hr, rest]

theorem pc_setPc (w : UInt16) : (rs.setPc w).pc = w := by
  rw [pc, setPc, get_set, if_pos rfl]

theorem setPc_setPc (v w : UInt16) : (rs.setPc v).setPc w = rs.setPc w := rs.set_set Register.pc v w

theorem flag_setPc (w : UInt16) (f : Flag) : (rs.setPc w).flag f = rs.flag f := flag_set rs (by decide) w f

theorem rest_setPc (w : UInt16) : (rs.setPc w).rest = rs.rest := rest_set rs (by decide) w

end

theorem sr_and_mask (rs : Registers) (f : Flag) : rs.sr &&& f.mask = if rs.flag f then f.mask else 0 :=
  Flag.and_mask_eq rs.sr f

/-- Registers are the words in all of them but one, the flags, and the rest of that one. -/
theorem ext_flags {rs qs : Registers} (hget : ∀ q, slot Register.sr ≠ slot q → rs.get q = qs.get q)
    (hflag : ∀ f, rs.flag f = qs.flag f) (hrest : rs.rest = qs.rest) : rs = qs := by
  refine Registers.ext fun q => ?_
  by_cases hq : slot Register.sr = slot q
  · have hsr : rs.sr = qs.sr := Flag.eq_of_and_mask hrest fun f => by
      rw [sr_and_mask, sr_and_mask, hflag]
    rw [← rs.get_of_slot_eq hq, ← qs.get_of_slot_eq hq]
    exact hsr
  · exact hget q hq

/-! ### The flags of a result -/

section

variable (rs : Registers) (width : Width) (result : Nat)

theorem get_setResult {q : Register} (hq : slot Register.sr ≠ slot q) :
    (rs.setResult width result).get q = rs.get q := by
  simp only [setResult, get_setFlag _ hq]

theorem rest_setResult : (rs.setResult width result).rest = rs.rest := by
  simp only [setResult, rest_setFlag]

theorem flag_setResult (f : Flag) :
    (rs.setResult width result).flag f = match f with
      | .carry => result / width.size % 2 == 1
      | .zero => result % width.size == 0
      | .negative => decide (width.size / 2 ≤ result % width.size)
      | .overflow => false := by
  cases f <;> simp [setResult, flag_setFlag]

end

end Registers
end MicroDebug

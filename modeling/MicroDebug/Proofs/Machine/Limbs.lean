import MicroDebug.Proofs.Machine.Footprint
import Mathlib.Data.Nat.Digits.Defs

/-! One limb of a sum. An operation that adds or subtracts puts one digit into its target and the rest of the sum into
    the carry flag. A subtraction adds the complement of each limb, and one. -/

namespace MicroDebug

open Registers (slot)

/-! ### Operations -/

namespace BinaryOp

/-- What adds or subtracts the lowest limbs of two numbers. -/
def lowLimb (subtract : Bool) : BinaryOp := if subtract then .sub else .add

/-- What adds or subtracts limbs above the lowest ones, with the carry flag. -/
def highLimb (subtract : Bool) : BinaryOp := if subtract then .subc else .addc

end BinaryOp

/-- The number that is added for a limb of the source. -/
def Width.addend (width : Width) (subtract : Bool) (w : UInt16) : Nat :=
  if subtract then Machine.complement w width else w.toNat

namespace Width

theorem one_lt_size (width : Width) : 1 < width.size := by cases width <;> decide

theorem toNat_mask (width : Width) : width.mask.toNat = width.size - 1 := by cases width <;> rfl

theorem toNat_lt_size {w : UInt16} {width : Width} (h : w &&& width.mask = w) : w.toNat < width.size := by
  have hle := toNat_le_mask h
  rw [toNat_mask] at hle
  have := width.one_lt_size
  omega

theorem addend_lt_size {w : UInt16} {width : Width} (h : w.toNat < width.size) (subtract : Bool) :
    width.addend subtract w < width.size := by
  rw [addend, Machine.complement, toNat_mask]
  split <;> omega

end Width

/-! ### Numbers -/

/-- The complements of the digits of a number make up the complement of the number. -/
theorem ofDigits_complement {b : Nat} {digits : List Nat} (h : ∀ d ∈ digits, d < b) :
    Nat.ofDigits b (digits.map (b - 1 - ·)) + Nat.ofDigits b digits + 1 = b ^ digits.length := by
  induction digits with
  | nil => rfl
  | cons d digits ih =>
    rw [List.forall_mem_cons] at h
    have hd : b - 1 - d + d + 1 = b := by omega
    have hrest := ih h.2
    simp only [List.map_cons, Nat.ofDigits_cons, List.length_cons]
    calc
      _ = (b - 1 - d + d + 1) + b * (Nat.ofDigits b (digits.map (b - 1 - ·)) + Nat.ofDigits b digits) := by ring
      _ = b + b * (Nat.ofDigits b (digits.map (b - 1 - ·)) + Nat.ofDigits b digits) := by rw [hd]
      _ = b * (Nat.ofDigits b (digits.map (b - 1 - ·)) + Nat.ofDigits b digits + 1) := by ring
      _ = b ^ (digits.length + 1) := by rw [hrest, pow_succ']

/-! ### Places -/

namespace Place

/-- The place takes up none of the bytes at the addresses. -/
def Misses (x : Place) (width : Width) (addresses : List UInt16) : Prop := ∀ a ∈ addresses, a ∉ x.addresses width

instance (x : Place) (width : Width) (addresses : List UInt16) : Decidable (x.Misses width addresses) :=
  List.decidableBAll (· ∉ x.addresses width) addresses

/-- The places have no register and no byte in common. -/
def Disjoint (width : Width) : Place → Place → Prop
  | .register r, .register q => r ≠ q
  | .memory a, .memory b => (Place.memory b).Misses width ((Place.memory a).addresses width)
  | _, _ => True

instance (width : Width) (x y : Place) : Decidable (x.Disjoint width y) :=
  match x, y with
  | .register r, .register q => inferInstanceAs (Decidable (r ≠ q))
  | .memory a, .memory b =>
    inferInstanceAs (Decidable ((Place.memory b).Misses width ((Place.memory a).addresses width)))
  | .register _, .memory _ | .register _, .value _ | .memory _, .register _ | .memory _, .value _
  | .value _, .register _ | .value _, .memory _ | .value _, .value _ => inferInstanceAs (Decidable True)

theorem Disjoint.symm {width : Width} {x y : Place} (h : x.Disjoint width y) : y.Disjoint width x := by
  cases x <;> cases y <;> first | trivial | exact Ne.symm h | exact fun c hy hx => h c hx hy

/-- The place is memory or a register that holds nothing but numbers. -/
def Holds : Place → Prop
  | .register r => r ≤ 15 ∧ r ≠ Register.pc ∧ r ≠ Register.sr ∧ r ≠ Register.cg
  | .memory _ => True
  | .value _ => False

instance (x : Place) : Decidable x.Holds :=
  match x with
  | .register r => inferInstanceAs (Decidable (r ≤ 15 ∧ r ≠ Register.pc ∧ r ≠ Register.sr ∧ r ≠ Register.cg))
  | .memory _ => inferInstanceAs (Decidable True)
  | .value _ => inferInstanceAs (Decidable False)

/-- The place is none of the registers that every instruction changes. -/
def Stays (x : Place) : Prop := ∀ r, x = .register r → r ≤ 15 ∧ r ≠ Register.pc ∧ r ≠ Register.sr

instance (x : Place) : Decidable x.Stays :=
  match x with
  | .register r => decidable_of_iff (r ≤ 15 ∧ r ≠ Register.pc ∧ r ≠ Register.sr) <| by simp [Stays]
  | .memory _ | .value _ => isTrue nofun

theorem Holds.stays {x : Place} (h : x.Holds) : x.Stays := by
  rintro r rfl
  exact ⟨h.1, h.2.1, h.2.2.1⟩

/-- A store at the place changes what is found there. -/
def Takes : Place → Prop
  | .register r => r ≠ Register.cg
  | .memory _ => True
  | .value _ => False

instance (x : Place) : Decidable x.Takes :=
  match x with
  | .register r => inferInstanceAs (Decidable (r ≠ Register.cg))
  | .memory _ => inferInstanceAs (Decidable True)
  | .value _ => inferInstanceAs (Decidable False)

theorem Holds.takes {x : Place} (h : x.Holds) : x.Takes := by
  cases x with
  | register r => exact h.2.2.2
  | memory a => trivial
  | value w => exact h

theorem Holds.slot_ne {x : Place} (h : x.Holds) {r q : Register} (hx : x = .register r)
    (hq : q = Register.pc ∨ q = Register.sr) : slot r ≠ slot q := by
  subst hx
  obtain ⟨hr, hpc, hsr, -⟩ := h
  rcases hq with rfl | rfl
  · exact mt (Registers.slot_eq_iff hr (by decide)).mp hpc
  · exact mt (Registers.slot_eq_iff hr (by decide)).mp hsr

end Place

theorem Registers.get_setPc (rs : Registers) {r : Register} (hr : r ≤ 15) (hpc : r ≠ Register.pc) (w : UInt16) :
    (rs.setPc w).get r = rs.get r :=
  (rs.get_set Register.pc r w).trans (if_neg (mt (slot_eq_iff (by decide) hr).mp (Ne.symm hpc)))

namespace Machine

theorem load_congr {m n : Machine} {x : Place} {width : Width}
    (hget : ∀ r, x = .register r → n.registers.get r = m.registers.get r)
    (hmemory : ∀ a ∈ x.addresses width, n.memory.readByte a = m.memory.readByte a) :
    n.load x width = m.load x width := by
  cases x with
  | register r => simp only [load, hget r rfl]
  | memory a =>
    cases width with
    | byte => simp only [load, hmemory a List.mem_cons_self]
    | word =>
      exact Memory.readWord_congr (hmemory a List.mem_cons_self)
        (hmemory (a + 1) (List.mem_cons_of_mem _ List.mem_cons_self))
  | value w => rfl

/-- Every value that is read lies within the width. -/
theorem toNat_load_lt (n m : Machine) (x : Operand) (width : Width) :
    (n.load (m.locate x width) width).toNat < width.size := by
  apply Width.toNat_lt_size
  cases hplace : m.locate x width with
  | register r => exact Width.and_mask_and_mask _ _
  | memory a =>
    cases width with
    | word => exact UInt16.and_neg_one
    | byte =>
      apply UInt16.toNat_inj.mp
      rw [Width.toNat_and_mask]
      exact Nat.mod_eq_of_lt (n.memory.readByte a).toNat_lt
  | value w => exact locate_and_mask hplace

/-- What is stored at a place is found there, unless it is a place that keeps what it is. -/
theorem toNat_load_store_of_takes (m : Machine) {x : Place} (hx : x.Takes) (w : UInt16) (width : Width) :
    ((m.store x w width).load x width).toNat = w.toNat % width.size := by
  cases x with
  | register r =>
    rw [store, if_neg hx]
    simp only [load, Registers.get_set, if_true, Width.and_mask_and_mask, Width.toNat_and_mask]
  | memory a =>
    cases width with
    | byte => simp [store, load, Memory.readByte_writeByte, Width.size]
    | word =>
      simp only [store, load, Memory.readWord_writeWord]
      exact (Nat.mod_eq_of_lt w.toNat_lt).symm
  | value v => exact hx.elim

theorem toNat_load_store (m : Machine) {x : Place} (hx : x.Holds) (w : UInt16) (width : Width) :
    ((m.store x w width).load x width).toNat = w.toNat % width.size :=
  m.toNat_load_store_of_takes hx.takes w width

/-! ### Sums -/

theorem combine_lowLimb (m : Machine) (subtract : Bool) (source : UInt16) (x : Place) (width : Width) :
    m.combine (.lowLimb subtract) source x width =
      m.storeSum x ((m.load x width).toNat + width.addend subtract source + subtract.toNat) width := by
  cases subtract <;> rfl

theorem combine_highLimb (m : Machine) (subtract : Bool) (source : UInt16) (x : Place) (width : Width) :
    m.combine (.highLimb subtract) source x width =
      m.storeSum x ((m.load x width).toNat + width.addend subtract source + (m.flag .carry).toNat) width := by
  have hcarry : (if m.flag .carry then 1 else 0) = (m.flag .carry).toNat := by cases m.flag .carry <;> rfl
  cases subtract <;> simp only [combine, BinaryOp.highLimb, hcarry] <;> rfl

/-- Operands that move no register on are read where they are. -/
theorem executeBinary_of_still (m : Machine) (op : BinaryOp) {x y : Operand} (hx : moves x = false)
    (hy : moves y = false) (width : Width) :
    m.executeBinary op x y width = m.combine op (m.peek x width) (m.locate y width) width := by
  have hadvance {z : Operand} (hz : moves z = false) : m.advance z = m := by rw [advance, hz]; rfl
  simp only [executeBinary, fetchValue, hadvance hx, hadvance hy, peek]

theorem get_storeSum (m : Machine) {x : Place} {r : Register} (hx : ∀ q, x = .register q → slot q ≠ slot r)
    (hr : slot Register.sr ≠ slot r) (sum : Nat) (width : Width) :
    (m.storeSum x sum width).registers.get r = m.registers.get r :=
  (get_store _ _ _ _ hx).trans (m.registers.get_setResult _ _ hr)

theorem readByte_storeSum (m : Machine) {x : Place} {width : Width} {a : UInt16} (ha : a ∉ x.addresses width)
    (sum : Nat) : (m.storeSum x sum width).memory.readByte a = m.memory.readByte a :=
  readByte_store _ _ _ _ ha

section

variable (m : Machine) {x : Place} (hx : x.Holds) (sum : Nat) (width : Width)
include hx

theorem toNat_load_storeSum : ((m.storeSum x sum width).load x width).toNat = sum % width.size := by
  have hdvd : width.size ∣ 65536 := by cases width <;> decide
  rw [storeSum, toNat_load_store _ hx, UInt16.toNat_ofNat']
  exact Nat.mod_mod_of_dvd sum hdvd

theorem carry_storeSum : (m.storeSum x sum width).flag .carry = (sum / width.size % 2 == 1) := by
  have hsr : (m.storeSum x sum width).registers.sr = (m.setResult width sum).registers.sr :=
    get_store _ _ _ _ fun r hr => hx.slot_ne hr (.inr rfl)
  rw [flag_congr hsr, flag, setResult, Registers.flag_setResult]

theorem pc_storeSum : (m.storeSum x sum width).registers.pc = m.registers.pc :=
  m.get_storeSum (fun _ hr => hx.slot_ne hr (.inl rfl)) (by decide) sum width

theorem rest_storeSum : (m.storeSum x sum width).registers.rest = m.registers.rest := by
  have hsr : (m.storeSum x sum width).registers.sr = (m.setResult width sum).registers.sr :=
    get_store _ _ _ _ fun r hr => hx.slot_ne hr (.inr rfl)
  rw [Registers.rest, hsr, ← Registers.rest, setResult, Registers.rest_setResult]

end

end Machine
end MicroDebug

import MicroDebug.Proofs.Machine.Limbs

/-! Decimal sums. Numbers that hold a decimal digit in each four bits are added digit by digit, and the sum holds
    decimal digits again: what does not fit is the carry. The highest digit before its carry is given away is seen by the
    negative flag. -/

namespace MicroDebug

namespace Decimal

/-! ### Digits -/

/-- The lowest digits of a number with four bits to a digit, the lowest one first. -/
def digits : (count n : Nat) → List Nat
  | 0, _ => []
  | count + 1, n => n % 16 :: digits count (n / 16)

/-- The number that the lowest digits write in base 10. -/
def number (count n : Nat) : Nat := Nat.ofDigits 10 (digits count n)

/-- None of the lowest digits is above nine. -/
def Packed (count n : Nat) : Prop := ∀ d ∈ digits count n, d ≤ 9

instance (count n : Nat) : Decidable (Packed count n) := List.decidableBAll (· ≤ 9) (digits count n)

theorem packed_succ {count n : Nat} : Packed (count + 1) n ↔ n % 16 ≤ 9 ∧ Packed count (n / 16) := by
  rw [Packed, digits, List.forall_mem_cons]
  exact Iff.rfl

theorem number_succ (count n : Nat) : number (count + 1) n = n % 16 + 10 * number count (n / 16) := by
  rw [number, digits, Nat.ofDigits_cons]
  rfl

/-! ### Sums -/

/-- At decimal digits a sum puts away the last digit of their sum, and carries the rest. -/
theorem add_succ {count carry x y : Nat} (h : x % 16 + y % 16 + carry ≤ 19) :
    add (count + 1) carry x y =
      let total := x % 16 + y % 16 + carry
      let rest := add count (total / 10) (x / 16) (y / 16)
      { value := total % 10 + 16 * rest.value, carry := rest.carry
        top := if count = 0 then total else rest.top } := by
  have hcarry : (if x % 16 + y % 16 + carry ≥ 10 then 1 else 0) = (x % 16 + y % 16 + carry) / 10 := by
    split <;> omega
  have hdigit : (if x % 16 + y % 16 + carry ≥ 10 then x % 16 + y % 16 + carry - 10 else x % 16 + y % 16 + carry) % 16 =
      (x % 16 + y % 16 + carry) % 10 := by
    split <;> omega
  simp only [add, hcarry, hdigit]

section

variable {count carry x y : Nat}

/-- The sum of two packed numbers is packed, and is the sum of what they write, up to the carry. -/
theorem add_of_packed (hc : carry ≤ 1) (hx : Packed count x) (hy : Packed count y) :
    (add count carry x y).carry ≤ 1 ∧ (add count carry x y).value < 16 ^ count ∧
      Packed count (add count carry x y).value ∧
      number count (add count carry x y).value + 10 ^ count * (add count carry x y).carry =
        number count x + number count y + carry := by
  induction count generalizing carry x y with
  | zero =>
    refine ⟨hc, Nat.one_pos, List.forall_mem_nil _, ?_⟩
    simp [add, number, digits]
  | succ count ih =>
    obtain ⟨hxdigit, hx⟩ := packed_succ.mp hx
    obtain ⟨hydigit, hy⟩ := packed_succ.mp hy
    have hcarry : (x % 16 + y % 16 + carry) / 10 ≤ 1 := by omega
    obtain ⟨hrest, hlt, hpacked, hsum⟩ := ih hcarry hx hy
    rw [add_succ (by omega)]
    -- the lowest digit is put in front of the sum of the others, where division finds both again
    simp only [packed_succ, number_succ, pow_succ]
    generalize hrest' : add count ((x % 16 + y % 16 + carry) / 10) (x / 16) (y / 16) = rest at hrest hlt hpacked hsum ⊢
    have hlow : ((x % 16 + y % 16 + carry) % 10 + 16 * rest.value) % 16 = (x % 16 + y % 16 + carry) % 10 := by omega
    have hhigh : ((x % 16 + y % 16 + carry) % 10 + 16 * rest.value) / 16 = rest.value := by omega
    rw [hlow, hhigh]
    refine ⟨hrest, by omega, ⟨by omega, hpacked⟩, ?_⟩
    calc
      _ = (x % 16 + y % 16 + carry) % 10 + 10 * (number count rest.value + 10 ^ count * rest.carry) := by ring
      _ = (x % 16 + y % 16 + carry) % 10 +
          10 * (number count (x / 16) + number count (y / 16) + (x % 16 + y % 16 + carry) / 10) := by rw [hsum]
      _ = _ := by omega

/-- The highest digit of a sum, before its carry is given away, is the sum of the highest digits and of what the digits
    below carry. -/
theorem top_add (hc : carry ≤ 1) (hx : Packed (count + 1) x) (hy : Packed (count + 1) y) :
    (add (count + 1) carry x y).top =
      x / 16 ^ count % 16 + y / 16 ^ count % 16 + (number count x + number count y + carry) / 10 ^ count := by
  induction count generalizing carry x y with
  | zero =>
    have hxdigit := (packed_succ.mp hx).1
    have hydigit := (packed_succ.mp hy).1
    rw [add_succ (by omega)]
    simp [number, digits]
  | succ count ih =>
    obtain ⟨hxdigit, hx⟩ := packed_succ.mp hx
    obtain ⟨hydigit, hy⟩ := packed_succ.mp hy
    have hcarry : (x % 16 + y % 16 + carry) / 10 ≤ 1 := by omega
    have htop := ih hcarry hx hy
    have hsum : number (count + 1) x + number (count + 1) y + carry =
        x % 16 + y % 16 + carry + 10 * (number count (x / 16) + number count (y / 16)) := by
      rw [number_succ, number_succ]
      omega
    rw [add_succ (by omega)]
    simp only [Nat.succ_ne_zero, if_false, htop, hsum, pow_succ', ← Nat.div_div_eq_div_mul]
    rw [Nat.add_mul_div_left _ _ (by decide), Nat.add_comm ((x % 16 + y % 16 + carry) / 10)]

end

end Decimal

namespace Width

/-- The number of decimal digits that fit. -/
def digits (width : Width) : Nat := width.bits / 4

theorem size_eq_pow_digits (width : Width) : width.size = 16 ^ width.digits := by cases width <;> rfl

theorem exists_digits_eq (width : Width) : ∃ count, width.digits = count + 1 := by
  cases width with
  | word => exact ⟨3, rfl⟩
  | byte => exact ⟨1, rfl⟩

end Width

/-! ### Stores -/

namespace Machine

open Decimal
open Registers (slot)

/-- The highest digit of a sum of packed numbers, before its carry is given away: that of either number, and what the
    digits below carry. -/
def topDigit (width : Width) (v w : UInt16) : Nat :=
  let below := width.digits - 1
  v.toNat / 16 ^ below % 16 + w.toNat / 16 ^ below % 16 + (number below v.toNat + number below w.toNat) / 10 ^ below

section

variable (m : Machine) {p : Place} (hp : ∀ r, p = .register r → slot r ≠ slot Register.sr) (v w : UInt16)
  (width : Width)

/-- A decimal sum changes flags and stores what fits. -/
theorem storeDecimal_eq : ∃ n, FlagsApart m n ∧
    m.storeDecimal p v w width = n.store p (UInt16.ofNat (add width.digits 0 v.toNat w.toNat).value) width := by
  rw [storeDecimal]
  split
  · exact ⟨_, ((FlagsApart.refl m).setFlag _ _).setFlag _ _, rfl⟩
  · exact ⟨_, (FlagsApart.refl m).setFlag _ _, rfl⟩

include hp

theorem flag_storeDecimal (f : Flag) :
    (m.storeDecimal p v w width).flag f =
      match f with
      | .carry => (add width.digits 0 v.toNat w.toNat).carry != 0
      | .negative => m.flag .negative || (add width.digits 0 v.toNat w.toNat).top.testBit 3
      | .zero => m.flag .zero
      | .overflow => m.flag .overflow := by
  have hdigits : width.bits / 4 = width.digits := rfl
  simp only [storeDecimal, hdigits, flag_store _ hp, Nat.testBit_eq_decide_div_mod_eq]
  by_cases htop : (add width.digits 0 v.toNat w.toNat).top / 8 % 2 = 1
  · cases f <;> simp [flag, setFlag, Registers.flag_setFlag, htop]
  · cases f <;> simp [flag, setFlag, Registers.flag_setFlag, htop]

variable {v w} (hv : Packed width.digits v.toNat) (hw : Packed width.digits w.toNat)
include hv hw

/-- What is left of a decimal sum of packed numbers. -/
theorem storeDecimal_of_packed : ∃ (n : Machine) (sum : UInt16), FlagsApart m n ∧
    m.storeDecimal p v w width = n.store p sum width ∧ sum.toNat < width.size ∧ Packed width.digits sum.toNat ∧
      number width.digits sum.toNat + 10 ^ width.digits * ((m.storeDecimal p v w width).flag .carry).toNat =
        number width.digits v.toNat + number width.digits w.toNat ∧
      (m.storeDecimal p v w width).flag .negative = (m.flag .negative || (topDigit width v w).testBit 3) := by
  obtain ⟨hcarry, hlt, hpacked, hsum⟩ := add_of_packed (Nat.zero_le 1) hv hw
  obtain ⟨n, hn, hstore⟩ := m.storeDecimal_eq (p := p) v w width
  rw [← Width.size_eq_pow_digits] at hlt
  have hsize : width.size ≤ 65536 := by cases width <;> decide
  have hvalue : (UInt16.ofNat (add width.digits 0 v.toNat w.toNat).value).toNat =
      (add width.digits 0 v.toNat w.toNat).value := by
    rw [UInt16.toNat_ofNat']
    exact Nat.mod_eq_of_lt (Nat.lt_of_lt_of_le hlt hsize)
  have hflag : ((add width.digits 0 v.toNat w.toNat).carry != 0).toNat = (add width.digits 0 v.toNat w.toNat).carry := by
    obtain hzero | hone := Nat.le_one_iff_eq_zero_or_eq_one.mp hcarry
    · rw [hzero]
      rfl
    · rw [hone]
      rfl
  refine ⟨n, _, hn, hstore, by rwa [hvalue], by rwa [hvalue], ?_, ?_⟩
  · rw [hvalue, m.flag_storeDecimal hp, hflag]
    exact hsum
  · obtain ⟨count, hcount⟩ := width.exists_digits_eq
    rw [m.flag_storeDecimal hp, topDigit, hcount]
    rw [hcount] at hv hw
    rw [top_add (Nat.zero_le 1) hv hw]
    rfl

end

end Machine
end MicroDebug

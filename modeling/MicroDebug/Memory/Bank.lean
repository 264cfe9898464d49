/-! Byte storage with one level of branching for each address bit. Storing a byte rebuilds only the path to
    it, so a kept copy costs nothing, and two banks that read alike everywhere are the same bank. -/

namespace MicroDebug

/-- The storage behind a number of address bits: one byte, or a lower and an upper half. -/
inductive Bank : Nat → Type where
  | byte (b : UInt8) : Bank 0
  | halves {depth : Nat} (lower upper : Bank depth) : Bank (depth + 1)

namespace Bank

/-- A bank that holds the same byte everywhere. -/
def fill (b : UInt8) : (depth : Nat) → Bank depth
  | 0 => byte b
  | depth + 1 =>
    let half := fill b depth
    halves half half

/-- The byte at `address`, of which only as many low bits count as the bank has. -/
def get : {depth : Nat} → Bank depth → (address : Nat) → UInt8
  | _, byte b, _ => b
  | _, @halves depth lower upper, address =>
    if address.testBit depth then upper.get address else lower.get address

/-- The bank with the byte at `address` replaced. -/
def set : {depth : Nat} → Bank depth → (address : Nat) → UInt8 → Bank depth
  | _, byte _, _, b => byte b
  | _, @halves depth lower upper, address, b =>
    if address.testBit depth then halves lower (upper.set address b) else halves (lower.set address b) upper

/-! ### Reading -/

theorem get_fill (b : UInt8) (address : Nat) : ∀ depth : Nat, (fill b depth).get address = b
  | 0 => rfl
  | depth + 1 => by simp [fill, get, get_fill b address depth]

theorem get_congr {a b : Nat} {depth : Nat} (t : Bank depth) (h : ∀ i < depth, a.testBit i = b.testBit i) :
    t.get a = t.get b := by
  induction t with
  | byte => rfl
  | @halves depth lower upper ihl ihu =>
    rw [get, get, h depth (by omega), ihl fun i hi => h i (by omega), ihu fun i hi => h i (by omega)]

theorem get_set_same (a : Nat) (b : UInt8) {depth : Nat} (t : Bank depth) : (t.set a b).get a = b := by
  induction t with
  | byte => rfl
  | @halves depth lower upper ihl ihu =>
    by_cases h : a.testBit depth = true <;> simp [set, get, h, ihl, ihu]

theorem get_set_other {a c : Nat} (b : UInt8) {depth : Nat} (t : Bank depth)
    (h : ∃ i < depth, a.testBit i ≠ c.testBit i) : (t.set a b).get c = t.get c := by
  induction t with
  | byte => obtain ⟨i, hi, _⟩ := h; omega
  | @halves depth lower upper ihl ihu =>
    obtain ⟨i, hi, hne⟩ := h
    by_cases hi' : i = depth
    · subst hi'
      by_cases ha : a.testBit i = true <;> by_cases hc : c.testBit i = true <;> simp_all [set, get]
    · have hl := ihl ⟨i, by omega, hne⟩
      have hu := ihu ⟨i, by omega, hne⟩
      by_cases ha : a.testBit depth = true <;> by_cases hc : c.testBit depth = true <;>
        simp [set, get, ha, hc, hl, hu]

/-! ### Equality -/

theorem ext {depth : Nat} {s t : Bank depth} (h : ∀ a, s.get a = t.get a) : s = t := by
  induction s with
  | byte a => cases t with | byte b => exact congrArg byte (h 0)
  | @halves depth sl su ihl ihu =>
    cases t with
    | halves tl tu =>
      have hl : sl = tl := ihl fun a => by
        have hbit : (a % 2 ^ depth).testBit depth = false := by simp
        have hlow : ∀ i < depth, (a % 2 ^ depth).testBit i = a.testBit i := fun i hi => by simp [hi]
        simpa [get, hbit, get_congr _ hlow] using h (a % 2 ^ depth)
      have hu : su = tu := ihu fun a => by
        have hbit : (2 ^ depth + a % 2 ^ depth).testBit depth = true := by
          rw [Nat.testBit_two_pow_add_eq]; simp
        have hlow : ∀ i < depth, (2 ^ depth + a % 2 ^ depth).testBit i = a.testBit i := fun i hi => by
          rw [Nat.testBit_two_pow_add_gt hi]; simp [hi]
        simpa [get, hbit, get_congr _ hlow] using h (2 ^ depth + a % 2 ^ depth)
      rw [hl, hu]

end Bank
end MicroDebug

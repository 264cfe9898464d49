import MicroDebug.Proofs.Instruction.Decoding
import MicroDebug.Proofs.Register.Flags

/-! What operations store. Whatever an operation does, it sets flags and then stores at most one value, which
    depends on its operands and the carry flag alone. -/

namespace MicroDebug

open Registers (slot)

/-! ### Values within a width -/

namespace Width

theorem and_mask_eq_iff {v w : UInt16} {width : Width} :
    v &&& width.mask = w &&& width.mask ↔ v.toNat % width.size = w.toNat % width.size := by
  rw [← UInt16.toNat_inj, toNat_and_mask, toNat_and_mask]

theorem and_mask_and_mask (w : UInt16) (width : Width) : w &&& width.mask &&& width.mask = w &&& width.mask := by
  rw [UInt16.and_assoc, UInt16.and_self]

theorem toNat_le_mask {w : UInt16} {width : Width} (h : w &&& width.mask = w) : w.toNat ≤ width.mask.toNat := by
  rw [← h, UInt16.toNat_and]
  exact Nat.and_le_right

end Width

/-! ### Results -/

/-- What an operation stores in its target, of which only the part within the width counts. -/
def BinaryOp.stored? (op : BinaryOp) (width : Width) (carry : Bool) (source target : UInt16) : Option UInt16 :=
  match op with
  | .mov => some source
  | .add => some (target + source)
  | .addc => some (target + source + if carry then 1 else 0)
  | .subc => some (target - source - if carry then 0 else 1)
  | .sub => some (target - source)
  | .dadd => some (UInt16.ofNat (Decimal.add (width.bits / 4) 0 target.toNat source.toNat).value)
  | .bic => some (target &&& ~~~source)
  | .bis => some (target ||| source)
  | .xor => some (target ^^^ source)
  | .and => some (target &&& source)
  | .cmp | .bit => none

/-- The same for operations with one operand; a push and a call store elsewhere. -/
def UnaryOp.stored? (op : UnaryOp) (width : Width) (carry : Bool) (w : UInt16) : Option UInt16 :=
  match op with
  | .rrc => some ((w >>> 1) ||| if carry then width.signMask else 0)
  | .swpb => some (Machine.swapBytes w)
  | .rra => some ((w >>> 1) ||| (w &&& width.signMask))
  | .sxt => some (Machine.signExtend w)
  | .push | .call | .reti => none

theorem Registers.slot_eq_iff {r q : Register} (hr : r ≤ 15) (hq : q ≤ 15) : slot r = slot q ↔ r = q := by
  rw [UInt8.le_iff_toNat_le] at hr hq
  change r.toNat ≤ 15 at hr
  change q.toNat ≤ 15 at hq
  rw [slot, slot, Fin.mk.injEq, Nat.mod_eq_of_lt (by omega), Nat.mod_eq_of_lt (by omega), UInt8.toNat_inj]

namespace Machine

/-! ### Flags apart -/

/-- The second machine differs from the first in flags at most. -/
structure FlagsApart (m n : Machine) : Prop where
  get : ∀ q, slot Register.sr ≠ slot q → n.registers.get q = m.registers.get q
  memory : n.memory = m.memory

namespace FlagsApart

variable {m n : Machine}

theorem refl (m : Machine) : FlagsApart m m := ⟨fun _ _ => rfl, rfl⟩

theorem setFlag (h : FlagsApart m n) (f : Flag) (on : Bool) : FlagsApart m (n.setFlag f on) where
  get := fun q hq => by
    rw [Machine.setFlag, Registers.get_setFlag _ hq, h.get q hq]
  memory := h.memory

theorem setResult (h : FlagsApart m n) (width : Width) (result : Nat) : FlagsApart m (n.setResult width result) where
  get := fun q hq => by
    rw [Machine.setResult, Registers.get_setResult _ _ _ hq, h.get q hq]
  memory := h.memory

theorem pc (h : FlagsApart m n) : n.registers.pc = m.registers.pc := h.get Register.pc (by decide)

end FlagsApart

/-! ### Storing -/

/-- Only the part of a value within the width is stored. -/
theorem store_congr (m : Machine) (p : Place) {v w : UInt16} {width : Width}
    (h : v &&& width.mask = w &&& width.mask) : m.store p v width = m.store p w width := by
  cases p with
  | register r => simp only [store, h]
  | memory a =>
    cases width with
    | word =>
      have hvw : v = w := by
        rw [Width.and_mask_eq_iff] at h
        apply UInt16.toNat_inj.mp
        have hv := v.toNat_lt
        have hw := w.toNat_lt
        change v.toNat % 65536 = w.toNat % 65536 at h
        omega
      rw [hvw]
    | byte =>
      have hvw : v.toUInt8 = w.toUInt8 := by
        rw [Width.and_mask_eq_iff] at h
        rw [← UInt8.toNat_inj, UInt16.toNat_toUInt8, UInt16.toNat_toUInt8]
        exact h
      simp only [store, hvw]
  | value w => rfl

theorem ofNat_complement_and_mask {source : UInt16} {width : Width} (hs : source &&& width.mask = source)
    (target : UInt16) (n : Nat) (hn : n ≤ 1) :
    UInt16.ofNat (target.toNat + complement source width + n) &&& width.mask =
      (target - source - if n = 1 then 0 else 1) &&& width.mask := by
  have hle := Width.toNat_le_mask hs
  have ht := target.toNat_lt
  rw [Width.and_mask_eq_iff, UInt16.toNat_ofNat', UInt16.toNat_sub, UInt16.toNat_sub, complement]
  have hn' : n = 0 ∨ n = 1 := by omega
  rcases hn' with rfl | rfl
  · cases width with
    | word =>
      change _ ≤ 65535 at hle
      change (_ + (65535 - _) + 0) % 65536 % 65536 = (65536 - 1 + _) % 65536 % 65536
      omega
    | byte =>
      change _ ≤ 255 at hle
      change (_ + (255 - _) + 0) % 65536 % 256 = (65536 - 1 + _) % 65536 % 256
      omega
  · cases width with
    | word =>
      change _ ≤ 65535 at hle
      change (_ + (65535 - _) + 1) % 65536 % 65536 = (65536 - 0 + _) % 65536 % 65536
      omega
    | byte =>
      change _ ≤ 255 at hle
      change (_ + (255 - _) + 1) % 65536 % 256 = (65536 - 0 + _) % 65536 % 256
      omega

/-- An operation on two operands sets flags and stores at most what it comes to. -/
theorem combine_eq (m : Machine) (op : BinaryOp) {source : UInt16} {width : Width} (p : Place)
    (hs : source &&& width.mask = source) :
    ∃ n, FlagsApart m n ∧ m.combine op source p width =
      match op.stored? width (m.flag .carry) source (m.load p width) with
      | some w => n.store p w width
      | none => n := by
  have hresult : ∀ result, FlagsApart m (m.setResult width result) := fun result =>
    (FlagsApart.refl m).setResult width result
  cases op with
  | mov => exact ⟨m, FlagsApart.refl m, rfl⟩
  | add =>
    refine ⟨_, hresult _, store_congr _ _ ?_⟩
    rw [UInt16.ofNat_add, UInt16.ofNat_toNat, UInt16.ofNat_toNat]
  | addc =>
    refine ⟨_, hresult _, store_congr _ _ ?_⟩
    rw [UInt16.ofNat_add, UInt16.ofNat_add, UInt16.ofNat_toNat, UInt16.ofNat_toNat]
    split <;> rfl
  | subc =>
    refine ⟨_, hresult _, store_congr _ _ ?_⟩
    rw [ofNat_complement_and_mask hs _ _ (by split <;> omega)]
    cases m.flag .carry <;> rfl
  | sub =>
    refine ⟨_, hresult _, store_congr _ _ ?_⟩
    rw [ofNat_complement_and_mask hs _ 1 (by omega), if_pos rfl, UInt16.sub_zero]
  | cmp => exact ⟨_, hresult _, rfl⟩
  | dadd =>
    simp only [combine, storeDecimal, BinaryOp.stored?]
    split
    · exact ⟨_, ((FlagsApart.refl m).setFlag _ _).setFlag _ _, rfl⟩
    · exact ⟨_, (FlagsApart.refl m).setFlag _ _, rfl⟩
  | bit => exact ⟨_, hresult _, rfl⟩
  | bic => exact ⟨m, FlagsApart.refl m, rfl⟩
  | bis => exact ⟨m, FlagsApart.refl m, rfl⟩
  | xor => exact ⟨_, (hresult _).setFlag _ _, rfl⟩
  | and => exact ⟨_, (hresult _).setFlag _ _, rfl⟩

theorem executeUnary_eq (m : Machine) {op : UnaryOp} {x : Operand} {width : Width} {w : UInt16} (next : UInt16)
    (h : op.stored? width ((m.advance x).flag .carry) ((m.advance x).load (m.locate x width) width) = some w) :
    ∃ n, FlagsApart (m.advance x) n ∧ m.executeUnary op x width next = n.store (m.locate x width) w width := by
  have hrefl := FlagsApart.refl (m.advance x)
  cases op with
  | rrc =>
    cases h
    exact ⟨_, ((hrefl.setFlag _ _).setFlag _ _).setFlag _ _, rfl⟩
  | swpb =>
    cases h
    exact ⟨_, hrefl, rfl⟩
  | rra =>
    cases h
    exact ⟨_, (hrefl.setFlag _ _).setFlag _ _, rfl⟩
  | sxt =>
    cases h
    exact ⟨_, (hrefl.setResult _ _).setFlag _ _, rfl⟩
  | push | call | reti => cases h

/-! ### Places of operands -/

/-- Only autoincrement moves a register on, and neither the program counter nor the status register, with which
    it stands for a value. -/
theorem of_moves {x : Operand} (h : moves x = true) :
    x.mode = .autoincrement ∧ x.literal? = none ∧ x.reg ≠ Register.pc ∧ x.reg ≠ Register.sr := by
  obtain ⟨mode, r, ext⟩ := x
  obtain ⟨rfl, hliteral⟩ : mode = .autoincrement ∧ Operand.literal? ⟨mode, r, ext⟩ = none := by
    simpa [moves] using h
  refine ⟨rfl, hliteral, ?_, ?_⟩
  · rintro rfl
    cases hliteral
  · rintro rfl
    cases hliteral

theorem get_advance {x : Operand} (hx : x.WellFormed) {q : Register} (hq : q = Register.pc ∨ q = Register.sr)
    (m : Machine) : (m.advance x).registers.get q = m.registers.get q := by
  rw [advance]
  split
  · next hmoves =>
    obtain ⟨-, -, hpc, hsr⟩ := of_moves hmoves
    rw [Registers.get_set, if_neg]
    rcases hq with rfl | rfl
    · exact mt (Registers.slot_eq_iff hx.reg_le (by decide)).mp hpc
    · exact mt (Registers.slot_eq_iff hx.reg_le (by decide)).mp hsr
  · rfl

theorem pc_advance {x : Operand} (hx : x.WellFormed) (m : Machine) : (m.advance x).registers.pc = m.registers.pc :=
  get_advance hx (.inl rfl) m

theorem flag_advance {x : Operand} (hx : x.WellFormed) (m : Machine) (f : Flag) :
    (m.advance x).flag f = m.flag f := by
  have hsr : (m.advance x).registers.sr = m.registers.sr := get_advance hx (.inr rfl) m
  rw [flag, Registers.flag, hsr, flag, Registers.flag]

theorem memory_advance (m : Machine) (x : Operand) : (m.advance x).memory = m.memory := by
  rw [advance]
  split <;> rfl

/-- An operand whose register moves on names memory, so it has the same value before and after. -/
theorem load_advance (m : Machine) (x : Operand) (width : Width) :
    (m.advance x).load (m.locate x width) width = m.peek x width := by
  rw [peek]
  by_cases hmoves : moves x = true
  · obtain ⟨hmode, hliteral, -, -⟩ := of_moves hmoves
    have hplace : m.locate x width = .memory (m.registers.get x.reg) := by
      rw [locate, hliteral, hmode]
    rw [hplace]
    cases width <;> simp only [load, memory_advance]
  · rw [advance, if_neg hmoves]

/-- An operation finds its target once the register of its source has moved on. -/
theorem executeBinary_eq (m : Machine) (op : BinaryOp) (x y : Operand) (width : Width) :
    m.executeBinary op x y width =
      ((m.advance x).advance y).combine op (m.peek x width) ((m.advance x).locate y width) width := by
  rw [← load_advance]
  rfl

theorem locate_eq_register {m : Machine} {x : Operand} {width : Width} {r : Register}
    (h : m.locate x width = .register r) : x.mode = .register ∧ x.reg = r := by
  rw [locate] at h
  split at h
  · cases h
  · cases h
  · cases h
  · split at h
    · next hmode =>
      cases h
      exact ⟨hmode, rfl⟩
    · cases h
    · cases h
    · cases h

theorem locate_and_mask {m : Machine} {x : Operand} {width : Width} {w : UInt16}
    (h : m.locate x width = .value w) : w &&& width.mask = w := by
  rw [locate] at h
  split at h
  · cases h
    exact Width.and_mask_and_mask _ _
  · cases h
    exact Width.and_mask_and_mask _ _
  · cases h
  · split at h <;> cases h

theorem peek_and_mask (m : Machine) (x : Operand) (width : Width) : m.peek x width &&& width.mask = m.peek x width := by
  rw [peek]
  cases hp : m.locate x width with
  | register r => exact Width.and_mask_and_mask _ _
  | memory a =>
    cases width with
    | word => exact UInt16.and_neg_one
    | byte =>
      apply UInt16.toNat_inj.mp
      rw [Width.toNat_and_mask]
      exact Nat.mod_eq_of_lt (m.memory.readByte a).toNat_lt
  | value w => exact locate_and_mask hp

/-! ### The program counter -/

theorem pc_reserve (m : Machine) : m.reserve.registers.pc = m.registers.pc :=
  (m.registers.get_set Register.sp Register.pc _).trans (if_neg (by decide))

theorem locate_of_pc {x : Operand} (h : x.mode = .register ∧ x.reg = Register.pc) (m : Machine) (width : Width) :
    m.locate x width = .register Register.pc := by
  obtain ⟨hmode, hreg⟩ := h
  have hliteral : x.literal? = none := by
    rw [Operand.literal?, hreg, hmode]
    rfl
  rw [locate, hliteral, hmode, hreg]

theorem peek_of_pc {x : Operand} (h : x.mode = .register ∧ x.reg = Register.pc) (m : Machine) (width : Width) :
    m.peek x width = m.registers.pc &&& width.mask := by
  rw [peek, locate_of_pc h]
  rfl

theorem pc_store_locate {x : Operand} (hx : x.WellFormed) (m n : Machine) (w : UInt16) (width : Width) :
    (n.store (m.locate x width) w width).registers.pc =
      if x.mode = .register ∧ x.reg = Register.pc then w &&& width.mask else n.registers.pc := by
  split
  · next hpc =>
    rw [locate_of_pc hpc]
    exact Registers.pc_setPc _ _
  · next hpc =>
    cases hp : m.locate x width with
    | register r =>
      obtain ⟨hmode, rfl⟩ := locate_eq_register hp
      have hslot : slot x.reg ≠ slot Register.pc :=
        mt (Registers.slot_eq_iff hx.reg_le (by decide)).mp fun hreg => hpc ⟨hmode, hreg⟩
      simp only [store]
      split
      · rfl
      · rw [Registers.pc, Registers.get_set, if_neg hslot, Registers.pc]
    | memory a => cases width <;> rfl
    | value w => rfl

end Machine
end MicroDebug

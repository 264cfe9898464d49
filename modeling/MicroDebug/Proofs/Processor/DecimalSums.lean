import MicroDebug.Proofs.Machine.Decimal
import MicroDebug.Proofs.Processor.Jumps

/-! Decimal addition as an instruction. The carry flag that is left from before has no part in it. -/

namespace MicroDebug

open Decimal (Packed)
open Registers (slot)

namespace Processor

/-- An instruction that adds packed decimals stores a packed decimal: what fits of the sum, with the carry flag for the
    rest. The negative flag is set by the fourth bit of the highest digit before its carry is given away, and is never
    cleared; the zero and overflow flags stay. -/
theorem step?_dadd {p : Processor} (hp : p.Ready) {x y : Operand} {width : Width} {size : UInt16}
    (hi : Instruction.decode p.memory p.pc = .ok ⟨.binary .dadd, width, .two x y, size⟩)
    (hsr : ¬(y.mode = .register ∧ y.reg = Register.sr)) (hsource : Packed width.digits (p.past.peek x width).toNat)
    (htarget : Packed width.digits ((p.past.advance x).peek y width).toNat) (c : Console) :
    let i : Instruction := ⟨.binary .dadd, width, .two x y, size⟩
    let source := p.past.peek x width
    let target := (p.past.advance x).peek y width
    let place := (p.past.advance x).locate y width
    ∃ m n sum, (p.fetched i).effect = some m ∧ p.step? c = some ((p.fetched i).settle m, c) ∧
      Machine.FlagsApart ((p.past.advance x).advance y) n ∧ m = n.store place sum width ∧
      (place.Takes → m.load place width = sum) ∧ sum.toNat < width.size ∧ Packed width.digits sum.toNat ∧
      Decimal.number width.digits sum.toNat + 10 ^ width.digits * (m.flag .carry).toNat =
        Decimal.number width.digits target.toNat + Decimal.number width.digits source.toNat ∧
      m.flag .zero = p.flag .zero ∧ m.flag .overflow = p.flag .overflow ∧
      m.flag .negative = (p.flag .negative || (Machine.topDigit width target source).testBit 3) := by
  intro i source target place
  have hwf := (Instruction.decode_eq_ok_iff.mp hi).1.operands
  have hx : x.WellFormed := hwf x (by simp [Operands.toList])
  have hy : y.WellFormed := hwf y (by simp [Operands.toList])
  have hplace : ∀ r, place = .register r → slot r ≠ slot Register.sr := by
    intro r hr
    obtain ⟨hmode, rfl⟩ := Machine.locate_eq_register hr
    exact mt (Registers.slot_eq_iff hy.reg_le (by decide)).mp fun hreg => hsr ⟨hmode, hreg⟩
  have heffect : (p.fetched i).effect =
      some (((p.past.advance x).advance y).storeDecimal place target source width) := by
    rw [p.effect_binary, p.past.executeBinary_eq, Machine.combine, Machine.load_advance]
  have hflag (f : Flag) : ((p.past.advance x).advance y).flag f = p.flag f := by
    rw [Machine.flag_advance hy, Machine.flag_advance hx]
    exact p.registers.flag_setPc _ f
  obtain ⟨n, sum, hn, hstore, hlt, hpacked, hsum, hnegative⟩ :=
    ((p.past.advance x).advance y).storeDecimal_of_packed hplace width htarget hsource
  refine ⟨_, n, sum, heffect, step?_of_decode hp hi heffect c, hn, hstore, ?_, hlt, hpacked, hsum, ?_, ?_, ?_⟩
  · intro htakes
    rw [hstore]
    apply UInt16.toNat_inj.mp
    rw [n.toNat_load_store_of_takes htakes, Nat.mod_eq_of_lt hlt]
  · exact (Machine.flag_storeDecimal _ hplace _ _ _ .zero).trans (hflag .zero)
  · exact (Machine.flag_storeDecimal _ hplace _ _ _ .overflow).trans (hflag .overflow)
  · rw [hnegative, hflag]

/-- `dadd @r5+, 0(r5)` adds 7295 to 4837, which lies in the next word, with the carry and zero flags set before. -/
theorem step?_dadd_next_word :
    let p : Processor := { start (Memory.zero.writeWords 0x4400 [0xa5b5, 0x0000]) with
      registers := ((Registers.zero.setPc 0x4400).set 5 0x5000).set Register.sr 0x0003
      memory := (Memory.zero.writeWords 0x4400 [0xa5b5, 0x0000]).writeWords 0x5000 [0x7295, 0x4837] }
    let x : Operand := ⟨.autoincrement, 5, none⟩
    let y : Operand := ⟨.indexed, 5, some 0⟩
    p.Ready ∧ Instruction.decode p.memory p.pc = .ok ⟨.binary .dadd, .word, .two x y, 4⟩ ∧
      ¬(y.mode = .register ∧ y.reg = Register.sr) ∧ Packed 4 (p.past.peek x .word).toNat ∧
      Packed 4 ((p.past.advance x).peek y .word).toNat ∧
      ∃ m sum, (p.fetched ⟨.binary .dadd, .word, .two x y, 4⟩).effect = some m ∧
        m.load (.memory 0x5002) .word = sum ∧ Packed 4 sum.toNat ∧
        Decimal.number 4 sum.toNat + 10000 * (m.flag .carry).toNat = 12132 ∧ m.flag .zero = true ∧
        m.flag .negative = true := by
  intro p x y
  have hp : p.Ready := ⟨by decide +kernel, by decide +kernel, by decide +kernel⟩
  have hi : Instruction.decode p.memory p.pc = .ok ⟨.binary .dadd, .word, .two x y, 4⟩ := by decide +kernel
  have hsr : ¬(y.mode = .register ∧ y.reg = Register.sr) := by decide
  have hsource : Packed 4 (p.past.peek x .word).toNat := by decide +kernel
  have htarget : Packed 4 ((p.past.advance x).peek y .word).toNat := by decide +kernel
  have hplace : (p.past.advance x).locate y .word = .memory 0x5002 := by decide +kernel
  obtain ⟨m, n, sum, hm, -, -, -, hload, -, hpacked, hsum, hzero, -, hnegative⟩ :=
    step?_dadd hp hi hsr hsource htarget {}
  rw [hplace] at hload
  exact ⟨hp, hi, hsr, hsource, htarget, m, sum, hm, hload trivial, hpacked, hsum.trans (by decide +kernel),
    hzero.trans (by decide +kernel), hnegative.trans (by decide +kernel)⟩

end Processor
end MicroDebug

import MicroDebug.Proofs.Machine.Limbs
import MicroDebug.Proofs.Processor.Countdown
import MicroDebug.Proofs.Processor.Jumps

/-! What jumps find out about two values that have been compared. The unsigned order is told right for all values. As
    the overflow flag is always cleared, the signed order is told by the sign of the difference alone, which is right as
    long as the difference fits. -/

namespace MicroDebug

open Registers (slot)

/-! ### Orders -/

namespace Width

/-- What is left of a difference within the width. -/
def difference (width : Width) (target source : Nat) : Nat := (target + width.size - source) % width.size

/-- The number that a word stands for if its highest bit within the width is a sign. -/
def signed (width : Width) (n : Nat) : Int := if n < width.size / 2 then n else n - width.size

/-- A signed number has a word within the width. -/
def Fits (width : Width) (n : Int) : Prop := -(width.size / 2 : Nat) ≤ n ∧ n < (width.size / 2 : Nat)

instance (width : Width) (n : Int) : Decidable (width.Fits n) := inferInstanceAs (Decidable (_ ∧ _))

end Width

/-- When a jump is taken after `target` has been compared with `source`. -/
def Condition.After (width : Width) (target source : Nat) : Condition → Prop
  | .carry => source ≤ target
  | .noCarry => target < source
  | .zero => target = source
  | .notZero => target ≠ source
  | .negative | .less => width.size / 2 ≤ width.difference target source
  | .greaterEqual => width.difference target source < width.size / 2
  | .always => True

instance (width : Width) (target source : Nat) : (cond : Condition) → Decidable (cond.After width target source)
  | .carry | .noCarry | .negative | .less | .greaterEqual => Nat.decLe _ _
  | .zero => inferInstanceAs (Decidable (target = source))
  | .notZero => inferInstanceAs (Decidable (target ≠ source))
  | .always => isTrue trivial

theorem Width.size_eq_two_mul (width : Width) : width.size = 2 * (width.size / 2) := by cases width <;> rfl

section

variable {width : Width} {target source : Nat} (ht : target < width.size) (hs : source < width.size)
include ht hs

theorem Width.difference_eq :
    width.difference target source = if source ≤ target then target - source else target + width.size - source := by
  rw [difference]
  split
  · next hle =>
    rw [Nat.sub_add_comm hle, Nat.add_mod_right]
    exact Nat.mod_eq_of_lt (by omega)
  · exact Nat.mod_eq_of_lt (by omega)

/-- The sign of the difference tells the signed order if the signed difference fits, and the other order if not. -/
theorem Width.difference_sign_iff :
    width.size / 2 ≤ width.difference target source ↔
      (width.signed target < width.signed source ↔ width.Fits (width.signed target - width.signed source)) := by
  have hsize := width.size_eq_two_mul
  rw [difference_eq ht hs, Fits, signed, signed]
  by_cases htarget : target < width.size / 2
  · rw [if_pos htarget]
    by_cases hsource : source < width.size / 2
    · rw [if_pos hsource]
      split <;> omega
    · rw [if_neg hsource]
      split <;> omega
  · rw [if_neg htarget]
    by_cases hsource : source < width.size / 2
    · rw [if_pos hsource]
      split <;> omega
    · rw [if_neg hsource]
      split <;> omega

theorem Width.difference_eq_zero_iff : width.difference target source = 0 ↔ target = source := by
  rw [difference_eq ht hs]
  split <;> omega

theorem Width.carry_difference : (target + width.size - source) / width.size % 2 = 1 ↔ source ≤ target := by
  constructor
  · intro h
    by_contra hlt
    rw [Nat.div_eq_of_lt (by omega)] at h
    cases h
  · intro h
    have hone : (target + width.size - source) / width.size = 1 := by
      rw [Nat.sub_add_comm h, Nat.add_div_right _ (by omega), Nat.div_eq_of_lt (by omega)]
    rw [hone]

end

/-! ### Instructions -/

/-- The destination of an instruction with two operands moves no register on. -/
theorem Instruction.moves_target_of_decode {m : Memory} {a : UInt16} {op : BinaryOp} {width : Width} {x y : Operand}
    {size : UInt16} (hi : decode m a = .ok ⟨.binary op, width, .two x y, size⟩) : Machine.moves y = false := by
  obtain ⟨-, -, w, rest, hencode, -, -⟩ := decode_eq_ok_iff.mp hi
  obtain ⟨bit, hbit, -⟩ := Option.map_eq_some_iff.mp hencode
  cases hmode : y.mode <;> simp_all [Machine.moves, Mode.targetBit?]

namespace Machine

section

variable (m : Machine) {source : UInt16} (p : Place) {width : Width} (hs : source.toNat < width.size)
  (ht : (m.load p width).toNat < width.size)
include hs

theorem combine_cmp :
    m.combine .cmp source p width = m.setResult width ((m.load p width).toNat + width.size - source.toNat) := by
  have hresult : (m.load p width).toNat + complement source width + 1 =
      (m.load p width).toNat + width.size - source.toNat := by
    rw [complement, Width.toNat_mask]
    omega
  rw [← hresult]
  rfl

include ht

theorem flag_cmp (f : Flag) :
    (m.combine .cmp source p width).flag f = match f with
      | .carry => decide (source.toNat ≤ (m.load p width).toNat)
      | .zero => decide ((m.load p width).toNat = source.toNat)
      | .negative => decide (width.size / 2 ≤ width.difference (m.load p width).toNat source.toNat)
      | .overflow => false := by
  rw [m.combine_cmp p hs, flag, setResult, Registers.flag_setResult]
  cases f with
  | carry => exact decide_eq_decide.mpr (Width.carry_difference ht hs)
  | zero => exact decide_eq_decide.mpr (Width.difference_eq_zero_iff ht hs)
  | negative => rfl
  | overflow => rfl

/-- After a comparison a jump is taken as the two values say. -/
theorem holds_cmp (cond : Condition) :
    (m.combine .cmp source p width).holds cond = decide (cond.After width (m.load p width).toNat source.toNat) := by
  have hnotLe : ∀ x y : Nat, decide (x < y) = !decide (y ≤ x) := fun x y => by
    rw [← decide_not]
    exact decide_eq_decide.mpr Nat.not_le.symm
  cases cond <;> simp only [holds, m.flag_cmp p hs ht]
  case notZero => exact decide_not.symm
  case noCarry => exact (hnotLe _ _).symm
  case greaterEqual => exact (beq_false _).trans (hnotLe _ _).symm
  case less => exact Bool.bne_false _
  all_goals rfl

end

end Machine

namespace Processor

/-! ### Steps -/

/-- A jump that runs no loop goes to its target if its condition holds, and to the next word if not. -/
theorem step?_jump {p : Processor} (hp : p.Ready) {cond : Condition} {width : Width} {d : Int16} {size : UInt16}
    (hi : Instruction.decode p.memory p.pc = .ok ⟨.jump cond, width, .offset d, size⟩)
    (hloop : cond = .notZero → p.collapse = false) (c : Console) :
    ∃ q, p.step? c = some (q, c) ∧
      q.pc = if p.holds cond then Instruction.jumpTarget p.pc d else p.pc + 2 := by
  have hsize : size = 2 := size_of_jump hi rfl
  subst hsize
  have hnone : (p.fetched ⟨.jump cond, width, .offset d, 2⟩).countdown? = none := by
    by_cases hcond : cond = .notZero
    · exact p.countdown?_of_not_collapse (hloop hcond)
    · refine Fetched.countdown?_eq_none fun hjump => hcond ?_
      cases hjump
      rfl
  have hpast : p.past.registers.pc - 2 = p.pc := by
    rw [pc_past]
    grind
  refine ⟨_, step?_of_decode hp hi (p.effect_of_countdown?_eq_none hnone) c, ?_⟩
  rw [Fetched.pc_settle, ← past, hpast, holds_past]
  cases p.holds cond with
  | false => exact if_pos p.pc_past
  | true =>
    rw [if_pos rfl, if_pos rfl, Machine.setPc, Registers.pc_setPc]
    exact ite_eq_right_iff.mpr Eq.symm

section

variable {p : Processor} (hp : p.Ready) {x y : Operand} {width : Width} {size : UInt16}
  (hi : Instruction.decode p.memory p.pc = .ok ⟨.binary .cmp, width, .two x y, size⟩)
  (hstill : Machine.moves x = false)
include hp hi hstill

/-- A comparison changes the flags alone, and moves on. -/
theorem step?_cmp (c : Console) :
    ∃ q, p.step? c = some (q, c) ∧ q.pc = p.pc + size ∧ q.memory = p.memory ∧ q.collapse = p.collapse ∧
      q.unlocked = p.unlocked ∧ q.isHalted = p.isHalted ∧
      (∀ r ≤ 15, r ≠ Register.pc → r ≠ Register.sr → q.registers.get r = p.registers.get r) ∧
      ∀ cond : Condition,
        q.holds cond = decide (cond.After width (p.past.peek y width).toNat (p.past.peek x width).toNat) := by
  have hsource : (p.past.peek x width).toNat < width.size := p.past.toNat_load_lt p.past x width
  have htarget : (p.past.load (p.past.locate y width) width).toNat < width.size := p.past.toNat_load_lt p.past y width
  have heffect : (p.fetched ⟨.binary .cmp, width, .two x y, size⟩).effect =
      some (p.past.combine .cmp (p.past.peek x width) (p.past.locate y width) width) := by
    rw [p.effect_binary, p.past.executeBinary_of_still .cmp hstill (Instruction.moves_target_of_decode hi)]
  have hpc : (p.past.combine .cmp (p.past.peek x width) (p.past.locate y width) width).registers.pc = p.pc + 2 :=
    (Registers.get_setResult _ _ _ (by decide)).trans p.pc_past
  have hstep := step?_of_decode hp hi heffect c
  rw [p.settle_sequential hpc] at hstep
  refine ⟨_, hstep, Registers.pc_setPc _ _, rfl, rfl, rfl, ?_, fun r hr hne hsr => ?_, fun cond => ?_⟩
  · refine Countdown.isHalted_of_rest_eq _ _ ?_
    exact (Registers.rest_setPc _ _).trans ((Registers.rest_setResult _ _ _).trans (Registers.rest_setPc _ _))
  · have hslot : slot Register.sr ≠ slot r := mt (Registers.slot_eq_iff (by decide) hr).mp (Ne.symm hsr)
    exact (Registers.get_setPc _ hr hne _).trans
      ((Registers.get_setResult _ _ _ hslot).trans (Registers.get_setPc _ hr hne _))
  · exact (Machine.holds_setPc _ _ cond).trans (p.past.holds_cmp (p.past.locate y width) hsource htarget cond)

/-- After a comparison the destination is as it was, and the next jump tells the unsigned order of the two values. It
    tells their signed order if their difference as signed numbers fits, and the other order if it does not. -/
theorem step?_cmp_jump (hpc : ¬(y.mode = .register ∧ y.reg = Register.pc))
    (hsr : ¬(y.mode = .register ∧ y.reg = Register.sr)) {cond : Condition} {width' : Width} {d : Int16} {size' : UInt16}
    (hjump : Instruction.decode p.memory (p.pc + size) = .ok ⟨.jump cond, width', .offset d, size'⟩)
    (haway : p.pc + size ≠ Gate.address) (hloop : cond = .notZero → p.collapse = false) (c : Console) :
    let source := (p.past.peek x width).toNat
    let target := (p.past.peek y width).toNat
    let difference := width.signed target - width.signed source
    (∃ q r, p.step? c = some (q, c) ∧ q.step? c = some (r, c) ∧
      (q.toMachine.load (p.past.locate y width) width).toNat = target ∧ q.pc = p.pc + size ∧
      r.pc = if cond.After width target source then Instruction.jumpTarget q.pc d else q.pc + 2) ∧
    (width.Fits difference →
      (Condition.less.After width target source ↔ width.signed target < width.signed source) ∧
      (Condition.greaterEqual.After width target source ↔ width.signed source ≤ width.signed target)) ∧
    (¬width.Fits difference →
      (Condition.less.After width target source ↔ width.signed source ≤ width.signed target) ∧
      (Condition.greaterEqual.After width target source ↔ width.signed target < width.signed source)) := by
  intro source target difference
  have hsource : source < width.size := p.past.toNat_load_lt p.past x width
  have htarget : target < width.size := p.past.toNat_load_lt p.past y width
  have hsign := Width.difference_sign_iff htarget hsource
  have hless : Condition.less.After width target source ↔ width.size / 2 ≤ width.difference target source := Iff.rfl
  have hgreater : Condition.greaterEqual.After width target source ↔ ¬width.size / 2 ≤ width.difference target source :=
    Nat.not_le.symm
  refine ⟨?_, fun hfits => ?_, fun hfits => ?_⟩
  · obtain ⟨q, hq, hqpc, hmemory, hcollapse, hlocked, hhalted, hget, hholds⟩ := step?_cmp hp hi hstill c
    have hqready : q.Ready := ⟨hlocked.trans hp.locked, hhalted.trans hp.running, fun h => haway (hqpc ▸ h)⟩
    rw [← hmemory, ← hqpc] at hjump
    obtain ⟨r, hr, hrpc⟩ := step?_jump hqready hjump (fun h => hcollapse.trans (hloop h)) c
    refine ⟨q, r, hq, hr, congrArg UInt16.toNat ?_, hqpc, ?_⟩
    · refine Machine.load_congr (fun reg hreg => ?_) fun a _ => congrArg (·.readByte a) hmemory
      obtain ⟨hmode, rfl⟩ := Machine.locate_eq_register hreg
      have hle : y.reg ≤ 15 :=
        ((Instruction.decode_eq_ok_iff.mp hi).1.operands y (by simp [Operands.toList])).reg_le
      have hnepc : y.reg ≠ Register.pc := fun h => hpc ⟨hmode, h⟩
      have hnesr : y.reg ≠ Register.sr := fun h => hsr ⟨hmode, h⟩
      exact (hget _ hle hnepc hnesr).trans (Registers.get_setPc _ hle hnepc _).symm
    · simpa only [hholds, decide_eq_true_eq] using hrpc
  · rw [hless, hgreater, hsign]
    exact ⟨iff_true_right hfits, (not_congr (iff_true_right hfits)).trans Int.not_lt⟩
  · rw [hless, hgreater, hsign]
    exact ⟨(iff_false_right hfits).trans Int.not_lt, (not_congr (iff_false_right hfits)).trans not_not⟩

end

/-- `cmp #0x7fff, r5` with the lowest number in the register. The difference is too low for a word, and `jl` after it is
    not taken. -/
theorem step?_cmp_jump_unfit :
    let p : Processor := { start (Memory.zero.writeWords 0x4400 [0x9035, 0x7fff, 0x3804]) with
      registers := (Registers.zero.setPc 0x4400).set 5 0x8000 }
    let x := Operand.immediate 0x7fff
    let y := Operand.ofRegister 5
    p.Ready ∧ Instruction.decode p.memory p.pc = .ok ⟨.binary .cmp, .word, .two x y, 4⟩ ∧ Machine.moves x = false ∧
      ¬(y.mode = .register ∧ y.reg = Register.pc) ∧ ¬(y.mode = .register ∧ y.reg = Register.sr) ∧
      Instruction.decode p.memory (p.pc + 4) = .ok ⟨.jump .less, .word, .offset 10, 2⟩ ∧ p.pc + 4 ≠ Gate.address ∧
      ¬Width.word.Fits (Width.word.signed 0x8000 - Width.word.signed 0x7fff) ∧
      Width.word.signed 0x8000 < Width.word.signed 0x7fff ∧
      ∃ q r, p.step? {} = some (q, {}) ∧ q.step? {} = some (r, {}) ∧ r.pc = 0x4406 := by
  intro p x y
  have hp : p.Ready := ⟨by decide +kernel, by decide +kernel, by decide +kernel⟩
  have hi : Instruction.decode p.memory p.pc = .ok ⟨.binary .cmp, .word, .two x y, 4⟩ := by decide +kernel
  have hjump : Instruction.decode p.memory (p.pc + 4) = .ok ⟨.jump .less, .word, .offset 10, 2⟩ := by decide +kernel
  have haway : p.pc + 4 ≠ Gate.address := by decide +kernel
  have hsource : (p.past.peek x .word).toNat = 0x7fff := by decide +kernel
  have htarget : (p.past.peek y .word).toNat = 0x8000 := by decide +kernel
  have hpast : p.pc + 4 + 2 = 0x4406 := by decide +kernel
  obtain ⟨⟨q, r, hq, hr, -, hqpc, hrpc⟩, -, -⟩ :=
    step?_cmp_jump hp hi rfl (by decide) (by decide) hjump haway nofun {}
  rw [hsource, htarget, if_neg (by decide), hqpc, hpast] at hrpc
  exact ⟨hp, hi, rfl, by decide, by decide, hjump, haway, by decide, by decide, q, r, hq, hr, hrpc⟩

end Processor

end MicroDebug

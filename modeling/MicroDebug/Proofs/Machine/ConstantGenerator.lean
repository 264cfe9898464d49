import MicroDebug.Proofs.Machine.Stores

/-! The constant generator as a register holds a word that nothing reads and nothing writes. Whatever an operation
    does, it does the same with any word there, and leaves that word. -/

namespace MicroDebug

open Registers (slot)

namespace Registers

/-- The registers with a word in the constant generator. -/
def setCg (rs : Registers) (w : UInt16) : Registers := rs.set Register.cg w

variable (rs : Registers) (w : UInt16)

theorem get_cg_setCg : (rs.setCg w).get Register.cg = w := by
  rw [setCg, get_set, if_pos rfl]

theorem get_setCg {r : Register} (hr : slot r ≠ slot Register.cg) : (rs.setCg w).get r = rs.get r := by
  rw [setCg, get_set, if_neg hr.symm]

theorem set_setCg {r : Register} (hr : slot r ≠ slot Register.cg) (v : UInt16) :
    (rs.setCg w).set r v = (rs.set r v).setCg w := rs.set_comm hr.symm w v

theorem setCg_get_cg : rs.setCg (rs.get Register.cg) = rs := rs.set_get Register.cg

@[simp] theorem pc_setCg : (rs.setCg w).pc = rs.pc := rs.get_setCg w (by decide)

@[simp] theorem sp_setCg : (rs.setCg w).sp = rs.sp := rs.get_setCg w (by decide)

@[simp] theorem sr_setCg : (rs.setCg w).sr = rs.sr := rs.get_setCg w (by decide)

@[simp] theorem flag_setCg (f : Flag) : (rs.setCg w).flag f = rs.flag f := by
  rw [flag, sr_setCg, flag]

@[simp] theorem setPc_setCg (v : UInt16) : (rs.setCg w).setPc v = (rs.setPc v).setCg w :=
  rs.set_setCg w (by decide) v

@[simp] theorem setSp_setCg (v : UInt16) : (rs.setCg w).setSp v = (rs.setSp v).setCg w :=
  rs.set_setCg w (by decide) v

@[simp] theorem setFlag_setCg (f : Flag) (on : Bool) : (rs.setCg w).setFlag f on = (rs.setFlag f on).setCg w := by
  simp only [setFlag, sr_setCg]
  exact rs.set_setCg w (by decide) _

@[simp] theorem setResult_setCg (width : Width) (result : Nat) :
    (rs.setCg w).setResult width result = (rs.setResult width result).setCg w := by
  simp only [setResult, setFlag_setCg]

end Registers

/-- An operand that stands for no literal names another register than the constant generator. -/
theorem Operand.WellFormed.slot_ne_cg {x : Operand} (hx : x.WellFormed) (h : x.literal? = none) :
    slot x.reg ≠ slot Register.cg := by
  refine mt (Registers.slot_eq_iff hx.reg_le (by decide)).mp fun hreg => ?_
  obtain ⟨mode, r, ext⟩ := x
  obtain rfl : r = Register.cg := hreg
  cases mode <;> cases h

/-- The place is not the constant generator. -/
def Place.Apart (p : Place) : Prop := ∀ r, p = .register r → slot r ≠ slot Register.cg

namespace Machine

/-- The machine with a word in the constant generator. -/
def setCg (m : Machine) (w : UInt16) : Machine := { m with registers := m.registers.setCg w }

variable (m : Machine) (w : UInt16)

@[simp] theorem registers_setCg : (m.setCg w).registers = m.registers.setCg w := rfl

@[simp] theorem memory_setCg : (m.setCg w).memory = m.memory := rfl

@[simp] theorem flag_setCg (f : Flag) : (m.setCg w).flag f = m.flag f := m.registers.flag_setCg w f

@[simp] theorem holds_setCg (c : Condition) : (m.setCg w).holds c = m.holds c := by
  cases c <;> simp only [holds, flag_setCg]

@[simp] theorem setPc_setCg (v : UInt16) : (m.setCg w).setPc v = (m.setPc v).setCg w := by
  simp only [setPc, setCg, Registers.setPc_setCg]

@[simp] theorem setSp_setCg (v : UInt16) : (m.setCg w).setSp v = (m.setSp v).setCg w := by
  simp only [setSp, setCg, Registers.setSp_setCg]

@[simp] theorem setFlag_setCg (f : Flag) (on : Bool) : (m.setCg w).setFlag f on = (m.setFlag f on).setCg w := by
  simp only [setFlag, setCg, Registers.setFlag_setCg]

@[simp] theorem setResult_setCg (width : Width) (result : Nat) :
    (m.setCg w).setResult width result = (m.setResult width result).setCg w := by
  simp only [setResult, setCg, Registers.setResult_setCg]

@[simp] theorem reserve_setCg : (m.setCg w).reserve = m.reserve.setCg w := by
  simp only [reserve, registers_setCg, Registers.sp_setCg, setSp_setCg]

/-! ### Places -/

section

variable {p : Place} (hp : p.Apart) (width : Width)
include hp

theorem load_setCg : (m.setCg w).load p width = m.load p width := by
  cases p with
  | register r => simp only [load, registers_setCg, Registers.get_setCg _ _ (hp r rfl)]
  | memory a => cases width <;> rfl
  | value v => rfl

theorem store_setCg (v : UInt16) : (m.setCg w).store p v width = (m.store p v width).setCg w := by
  cases p with
  | register r =>
    have hr : r ≠ Register.cg := fun h => hp r rfl (congrArg slot h)
    simp only [store, if_neg hr, setCg, Registers.set_setCg _ _ (hp r rfl)]
  | memory a => cases width <;> rfl
  | value v => rfl

theorem storeSum_setCg (sum : Nat) : (m.setCg w).storeSum p sum width = (m.storeSum p sum width).setCg w := by
  simp only [storeSum, setResult_setCg, store_setCg _ _ hp]

theorem storeBits_setCg (v : UInt16) : (m.setCg w).storeBits p v width = (m.storeBits p v width).setCg w := by
  simp only [storeBits, setResult_setCg, flag_setCg, setFlag_setCg, store_setCg _ _ hp]

theorem storeDecimal_setCg (x y : UInt16) :
    (m.setCg w).storeDecimal p x y width = (m.storeDecimal p x y width).setCg w := by
  simp only [storeDecimal, setFlag_setCg]
  split <;> exact store_setCg _ _ hp _ _

theorem rotate_setCg : (m.setCg w).rotate p width = (m.rotate p width).setCg w := by
  simp only [rotate, load_setCg _ _ hp, flag_setCg, setFlag_setCg, store_setCg _ _ hp]

theorem halve_setCg : (m.setCg w).halve p width = (m.halve p width).setCg w := by
  simp only [halve, load_setCg _ _ hp, setFlag_setCg, store_setCg _ _ hp]

theorem combine_setCg (op : BinaryOp) (source : UInt16) :
    (m.setCg w).combine op source p width = (m.combine op source p width).setCg w := by
  cases op <;> simp only [combine, load_setCg _ _ hp, flag_setCg, setResult_setCg, store_setCg _ _ hp,
    storeSum_setCg _ _ hp, storeBits_setCg _ _ hp, storeDecimal_setCg _ _ hp]

end

/-! ### Operands -/

section

variable {x y : Operand} (hx : x.WellFormed) (hy : y.WellFormed) (width : Width)
include hx

theorem apart_locate : (m.locate x width).Apart := by
  intro r hr
  obtain ⟨hmode, rfl⟩ := locate_eq_register hr
  refine hx.slot_ne_cg ?_
  cases hliteral : x.literal? with
  | none => rfl
  | some l => cases l <;> simp only [locate, hliteral] at hr <;> cases hr

theorem locate_setCg : (m.setCg w).locate x width = m.locate x width := by
  rw [locate, locate]
  cases hliteral : x.literal? with
  | none => simp only [registers_setCg, Registers.get_setCg _ _ (hx.slot_ne_cg hliteral)]
  | some l => cases l <;> rfl

theorem peek_setCg : (m.setCg w).peek x width = m.peek x width := by
  rw [peek, locate_setCg _ _ hx, load_setCg _ _ (m.apart_locate hx width), peek]

theorem advance_setCg : (m.setCg w).advance x = (m.advance x).setCg w := by
  rw [advance, advance]
  split
  · next hmoves =>
    obtain ⟨-, hliteral, -⟩ := of_moves hmoves
    have hslot := hx.slot_ne_cg hliteral
    simp only [setCg, Registers.get_setCg _ _ hslot, Registers.set_setCg _ _ hslot]
  · rfl

theorem fetchValue_setCg :
    (m.setCg w).fetchValue x width = ((m.fetchValue x width).1, (m.fetchValue x width).2.setCg w) := by
  simp only [fetchValue, locate_setCg _ _ hx, advance_setCg _ _ hx, load_setCg _ _ (m.apart_locate hx width)]

theorem executeUnary_setCg (op : UnaryOp) (next : UInt16) :
    (m.setCg w).executeUnary op x width next = (m.executeUnary op x width next).setCg w := by
  have hp := m.apart_locate hx width
  cases op with
  | rrc => simp only [executeUnary, advance_setCg _ _ hx, locate_setCg _ _ hx, rotate_setCg _ _ hp]
  | rra => simp only [executeUnary, advance_setCg _ _ hx, locate_setCg _ _ hx, halve_setCg _ _ hp]
  | swpb => simp only [executeUnary, fetchValue_setCg _ _ hx, locate_setCg _ _ hx, store_setCg _ _ hp]
  | sxt => simp only [executeUnary, fetchValue_setCg _ _ hx, locate_setCg _ _ hx, storeBits_setCg _ _ hp]
  | push =>
    simp only [executeUnary, reserve_setCg, fetchValue_setCg _ _ hx, registers_setCg, memory_setCg,
      Registers.sp_setCg]
    rfl
  | call =>
    have hreserve : { (m.setCg w).reserve with
        memory := (m.setCg w).reserve.memory.writeWord (m.setCg w).reserve.registers.sp next } =
        ({ m.reserve with memory := m.reserve.memory.writeWord m.reserve.registers.sp next } : Machine).setCg w := by
      simp only [reserve_setCg, registers_setCg, memory_setCg, Registers.sp_setCg]
      rfl
    simp only [executeUnary, hreserve, fetchValue_setCg _ _ hx, setPc_setCg]
  | reti => rfl

include hy

theorem executeBinary_setCg (op : BinaryOp) :
    (m.setCg w).executeBinary op x y width = (m.executeBinary op x y width).setCg w := by
  simp only [executeBinary, fetchValue_setCg _ _ hx, locate_setCg _ _ hy, advance_setCg _ _ hy,
    combine_setCg _ _ (apart_locate _ hy width)]

end

theorem execute_setCg {i : Instruction} (hi : ∀ x ∈ i.operands.toList, x.WellFormed) (next : UInt16) :
    (m.setCg w).execute i next = (m.execute i next).map fun n => n.setCg w := by
  obtain ⟨op, width, operands, size⟩ := i
  cases op with
  | jump c =>
    cases operands with
    | offset d =>
      simp only [execute, holds_setCg, registers_setCg, Registers.pc_setCg, setPc_setCg, Option.map_some]
      split <;> rfl
    | one x | two x y => rfl
  | unary op =>
    cases operands with
    | one x => exact congrArg some (executeUnary_setCg m w (hi x (List.mem_singleton_self x)) width op next)
    | offset d | two x y => rfl
  | binary op =>
    cases operands with
    | two x y =>
      have hx := hi x (by simp [Operands.toList])
      have hy := hi y (by simp [Operands.toList])
      exact congrArg some (executeBinary_setCg m w hx hy width op)
    | offset d | one x => rfl

end Machine
end MicroDebug

import MicroDebug.Proofs.Machine.Footprint
import MicroDebug.Proofs.Processor.Jumps

/-! What a step may change. Away from the gate a step is one instruction, or a loop that is run to its end. A step that
    is one instruction changes what the instruction names, the program counter, and nothing else. -/

namespace MicroDebug

namespace Registers

variable {rs qs : Registers}

theorem sr_eq_of_flags (hrest : rs.rest = qs.rest) (hflag : ∀ f, rs.flag f = qs.flag f) : rs.sr = qs.sr :=
  Flag.eq_of_and_mask hrest fun f => by rw [sr_and_mask, sr_and_mask, hflag]

end Registers

namespace Processor

variable {σ : Type} {watch : Watcher σ} {s : σ} {p : Processor} {c : Console} {info : StepInfo}

theorem changedBy_settle {f : Fetched} {i : Instruction} {m n : Machine} (h : Machine.ChangedBy i m n) :
    Machine.ChangedBy i m (f.settle n).toMachine := by
  simp only [Fetched.settle]
  split
  · exact h.setPc _
  · exact h

/-- The instruction at the program counter changes what it names, and a step adds nothing but the program counter. -/
theorem changedBy_effect {i : Instruction} {m : Machine} (hi : Instruction.decode p.memory p.pc = .ok i)
    (hone : (p.fetched i).countdown? = none) (hm : (p.fetched i).effect = some m) :
    Machine.ChangedBy i p.past ((p.fetched i).settle m).toMachine := by
  rw [p.effect_of_countdown?_eq_none hone] at hm
  have hwf := (Instruction.decode_eq_ok_iff.mp hi).1.operands
  exact changedBy_settle (Machine.changedBy_execute hwf (Instruction.suits_of_decode hi) hm)

/-- A step that is one instruction changes memory at the addresses that the instruction reaches, the registers that it
    stores in or moves on, and its flags. The other bits of the status register stay as they are, unless the
    instruction stores in that register. -/
theorem stepWatched_footprint (hok : (p.stepWatched watch s c).result = .ok info) (haway : p.pc ≠ Gate.address) :
    ∃ i, Instruction.decode p.memory p.pc = .ok i ∧
      ((p.fetched i).countdown? = none →
        let q := (p.stepWatched watch s c).processor
        (∀ a ∉ p.past.reached i, q.memory.readByte a = p.memory.readByte a) ∧
        (∀ r ≤ 15, r ≠ Register.pc → r ≠ Register.sr → ¬i.Changes r → q.registers.get r = p.registers.get r) ∧
        (¬i.Targets Register.sr →
          q.registers.rest = p.registers.rest ∧
          (∀ f ∉ i.operation.flags, q.registers.flag f = p.registers.flag f) ∧
          (i.operation.flags = [] → q.registers.sr = p.registers.sr))) := by
  obtain ⟨f, m, hfetch, hf, hm, hsettle⟩ := effect_of_stepWatched hok
  obtain ⟨i, hi, rfl⟩ := hf.eq_fetched hfetch haway
  refine ⟨i, hi, fun hone => ?_⟩
  intro q
  have h : Machine.ChangedBy i p.past q.toMachine := by
    rw [show q = _ from hsettle]
    exact changedBy_effect hi hone hm
  have hrest (ht : ¬i.Targets Register.sr) : q.registers.rest = p.registers.rest :=
    (h.rest ht).trans (p.registers.rest_setPc _)
  have hflag (ht : ¬i.Targets Register.sr) (f : Flag) (hf : f ∉ i.operation.flags) :
      q.registers.flag f = p.registers.flag f :=
    (h.flag ht f hf).trans (p.registers.flag_setPc _ f)
  refine ⟨h.memory, fun r hr hpc hsr hi => ?_, fun ht => ⟨hrest ht, hflag ht, fun hnone => ?_⟩⟩
  · have hslot : Registers.slot Register.pc ≠ Registers.slot r :=
      mt (Registers.slot_eq_iff (by decide) hr).mp (Ne.symm hpc)
    exact (h.get r hr hpc hsr hi).trans ((p.registers.get_set Register.pc r _).trans (if_neg hslot))
  · exact Registers.sr_eq_of_flags (hrest ht) fun f => hflag ht f (by rw [hnone]; exact List.not_mem_nil)

/-- `add @r5+, 1(r6)` with `0xfffe` in `r6` stores a word at the last address and the first. -/
theorem stepWatched_footprint_wrapped :
    let p : Processor := { start (Memory.zero.writeWords 0x4400 [0x55b6, 0x0001]) with
      registers := ((Registers.zero.setPc 0x4400).set 5 0x5000).set 6 0xfffe }
    let i : Instruction :=
      { operation := .binary .add, width := .word
        operands := .two { mode := .autoincrement, reg := 5 } { mode := .indexed, reg := 6, ext := some 1 }, size := 4 }
    (p.step {}).result = .ok { pc := 0x4400, flow := .sequential, readInput := false } ∧ p.pc ≠ Gate.address ∧
      Instruction.decode p.memory p.pc = .ok i ∧ (p.fetched i).countdown? = none ∧ p.past.reached i = [0xffff, 0x0000] ∧
      ¬i.Targets Register.sr ∧
      (∀ a, a ≠ 0xffff → a ≠ 0x0000 → (p.step {}).processor.memory.readByte a = p.memory.readByte a) ∧
      (∀ r ≤ 15, r ≠ Register.pc → r ≠ Register.sr → r ≠ 5 →
        (p.step {}).processor.registers.get r = p.registers.get r) ∧
      (p.step {}).processor.registers.rest = p.registers.rest := by
  intro p i
  have hok : (p.step {}).result = .ok { pc := 0x4400, flow := .sequential, readInput := false } := by decide +kernel
  have haway : p.pc ≠ Gate.address := by decide +kernel
  have hi : Instruction.decode p.memory p.pc = .ok i := by decide +kernel
  have hone : (p.fetched i).countdown? = none := by decide +kernel
  have hreached : p.past.reached i = [0xffff, 0x0000] := by decide +kernel
  have hsr : ¬i.Targets Register.sr := by decide
  obtain ⟨j, hj, h⟩ := stepWatched_footprint hok haway
  cases hi.symm.trans hj
  obtain ⟨hmemory, hget, hstatus⟩ := h hone
  refine ⟨hok, haway, hi, hone, hreached, hsr, fun a hlast hfirst => hmemory a ?_, fun r hr hpc hsr hne => ?_,
    (hstatus hsr).1⟩
  · rw [hreached]
    simp [hlast, hfirst]
  · refine hget r hr hpc hsr ?_
    rintro (htarget | ⟨-, x, hx, hmode, -, hreg⟩ | ⟨hpushes, -⟩)
    · cases htarget
    · obtain rfl | rfl : x = _ ∨ x = _ := by simpa [i, Operands.toList] using hx
      · exact hne hreg.symm
      · cases hmode
    · cases hpushes

end Processor
end MicroDebug

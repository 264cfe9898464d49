import MicroDebug.Proofs.Machine.Stores
import MicroDebug.Proofs.Processor.AllOrNothing
import MicroDebug.Proofs.Processor.Run

/-! What becomes of a write to the program counter. A step takes an instruction for one that did not redirect
    the program if it finds the program counter past the instruction word, and moves it past the whole
    instruction then. So a write takes effect unless the value is the address of the second word of the very
    instruction that writes it. -/

namespace MicroDebug

namespace Machine

/-- The state after a word has been put on the stack. -/
def pushed (m : Machine) (w : UInt16) : Machine :=
  let m := m.reserve
  { m with memory := m.memory.writeWord m.registers.sp w }

/-- The value that an instruction writes to the program counter, if it writes one. A call finds its operand
    after the return address, `next`, has been put on the stack. -/
def written? (m : Machine) (i : Instruction) (next : UInt16) : Option UInt16 :=
  match i.operation, i.operands with
  | .jump c, .offset d => if m.holds c then some (Instruction.jumpTarget (m.registers.pc - 2) d) else none
  | .unary .call, .one x => some ((m.pushed next).peek x .word)
  | .unary op, .one x =>
    if x.mode = .register ∧ x.reg = Register.pc then
      (op.stored? i.width (m.flag .carry) (m.peek x i.width)).map (· &&& i.width.mask)
    else none
  | .binary op, .two x y =>
    if y.mode = .register ∧ y.reg = Register.pc then
      (op.stored? i.width (m.flag .carry) (m.peek x i.width) (m.peek y i.width)).map (· &&& i.width.mask)
    else none
  | _, _ => none

section

variable (m : Machine) {width : Width} {x y : Operand} (size next : UInt16)

theorem pc_executeJump (c : Condition) (d : Int16) :
    (if m.holds c then m.setPc (Instruction.jumpTarget (m.registers.pc - 2) d) else m).registers.pc =
      (m.written? ⟨.jump c, width, .offset d, size⟩ next).getD m.registers.pc := by
  simp only [written?]
  split
  · exact Registers.pc_setPc _ _
  · rfl

theorem pc_executeUnary (op : UnaryOp) (hx : x.WellFormed) :
    (m.executeUnary op x width next).registers.pc =
      (m.written? ⟨.unary op, width, .one x, size⟩ next).getD m.registers.pc := by
  by_cases hcall : op = .call
  · subst hcall
    exact (Registers.pc_setPc _ _).trans (load_advance _ _ _)
  have hwritten : m.written? ⟨.unary op, width, .one x, size⟩ next =
      if x.mode = .register ∧ x.reg = Register.pc then
        (op.stored? width (m.flag .carry) (m.peek x width)).map (· &&& width.mask)
      else none := by
    cases op <;> first | exact absurd rfl hcall | rfl
  rw [hwritten]
  cases hstored : op.stored? width (m.flag .carry) (m.peek x width) with
  | some w =>
    rw [← flag_advance hx, ← load_advance] at hstored
    obtain ⟨n, hn, hexecute⟩ := executeUnary_eq m next hstored
    rw [hexecute, pc_store_locate hx, hn.pc, pc_advance hx]
    split <;> rfl
  | none =>
    rw [Option.map_none, ite_self, Option.getD_none]
    cases op with
    | push => exact (pc_advance hx _).trans (pc_reserve m)
    | reti => rfl
    | call => exact absurd rfl hcall
    | rrc | swpb | rra | sxt => cases hstored

theorem pc_executeBinary (op : BinaryOp) (hx : x.WellFormed) (hy : y.WellFormed) :
    (m.executeBinary op x y width).registers.pc =
      (m.written? ⟨.binary op, width, .two x y, size⟩ next).getD m.registers.pc := by
  obtain ⟨n, hn, hcombine⟩ := combine_eq ((m.advance x).advance y) op ((m.advance x).locate y width)
    (peek_and_mask m x width)
  have hpc : n.registers.pc = m.registers.pc := by rw [hn.pc, pc_advance hy, pc_advance hx]
  rw [executeBinary_eq, hcombine, load_advance, flag_advance hy, flag_advance hx]
  by_cases htarget : y.mode = .register ∧ y.reg = Register.pc
  · have hpeek : (m.advance x).peek y width = m.peek y width := by
      rw [peek_of_pc htarget, peek_of_pc htarget, pc_advance hx]
    simp only [written?, if_pos htarget, hpeek]
    cases op.stored? width (m.flag .carry) (m.peek x width) (m.peek y width) with
    | none => exact hpc
    | some w => exact (pc_store_locate hy _ _ _ _).trans (if_pos htarget)
  · simp only [written?, if_neg htarget]
    cases op.stored? width (m.flag .carry) (m.peek x width) ((m.advance x).peek y width) with
    | none => exact hpc
    | some w => exact ((pc_store_locate hy _ _ _ _).trans (if_neg htarget)).trans hpc

end

/-- The program counter after an instruction is what the instruction writes to it, else it stays. -/
theorem pc_execute {m n : Machine} {i : Instruction} {next : UInt16} (hi : ∀ x ∈ i.operands.toList, x.WellFormed)
    (hs : i.operands.Suits i.operation) (h : m.execute i next = some n) :
    n.registers.pc = (m.written? i next).getD m.registers.pc := by
  rcases Instruction.shape_of_suits hs with
    ⟨op, width, x, size, rfl⟩ | ⟨c, width, d, size, rfl⟩ | ⟨op, width, x, y, size, rfl⟩
  · cases h
    exact m.pc_executeUnary size next op (hi x (List.mem_singleton_self x))
  · cases h
    exact m.pc_executeJump size next c d
  · cases h
    exact m.pc_executeBinary size next op (hi x (by simp [Operands.toList])) (hi y (by simp [Operands.toList]))

end Machine

namespace Countdown

theorem pc_run (d : Countdown) (m : Machine) (next : UInt16) : (d.run m next).registers.pc = next := by
  have hpc : Registers.slot Register.sr ≠ Registers.slot Register.pc := by decide
  simp only [run, Machine.setFlag, Registers.pc, Registers.get_setFlag _ hpc]
  exact Registers.pc_setPc _ next

theorem closes_of_find? {m : Machine} {pc : UInt16} {i : Instruction} {d : Countdown} (h : find? m pc i = some d) :
    closes i = true := by
  rw [find?] at h
  split at h
  · assumption
  · cases h

end Countdown

namespace Processor

namespace Fetched

/-- The value that the instruction writes to the program counter, if it writes one. A jump that runs its whole
    loop is not taken in the end. -/
def written? (f : Fetched) : Option UInt16 :=
  if f.countdown?.isSome then none else f.processor.toMachine.written? f.instruction f.next

theorem countdown?_eq_none {f : Fetched} (h : f.instruction.operation ≠ .jump .notZero) : f.countdown? = none := by
  cases hd : f.countdown? with
  | none => rfl
  | some d =>
    rw [countdown?] at hd
    split at hd
    · have hcloses := Countdown.closes_of_find? hd
      rw [Countdown.closes, Bool.and_eq_true, beq_iff_eq] at hcloses
      exact absurd hcloses.1 h
    · cases hd

variable {p : Processor} {f : Fetched} {m : Machine}

/-- A jump is one word long, so a loop that is run as one step ends past the jump's word. -/
theorem next_of_countdown? (hf : p.Fetches f) {d : Countdown} (hd : f.countdown? = some d) :
    f.next = f.pc + 2 := by
  have hjump : f.instruction.operation = .jump .notZero := by
    by_contra h
    rw [countdown?_eq_none h] at hd
    cases hd
  obtain ⟨-, -, -, hread⟩ := Instruction.decode_eq_ok_iff_read.mp hf.decode
  rw [hjump] at hread
  have hsize : f.instruction.size = 2 := (congrArg Prod.snd hread).symm
  rw [next, hsize]

/-- The program counter after an instruction, before the step settles where the program goes on. -/
theorem pc_effect (hf : p.Fetches f) (hm : f.effect = some m) :
    m.registers.pc = f.written?.getD (f.pc + 2) := by
  rw [effect] at hm
  cases hd : f.countdown? with
  | some d =>
    rw [hd] at hm
    cases hm
    rw [Countdown.pc_run, next_of_countdown? hf hd, written?, hd]
    rfl
  | none =>
    rw [hd] at hm
    have hpc := Machine.pc_execute (Instruction.decode_eq_ok_iff.mp hf.decode).1.operands
      (Instruction.suits_of_decode hf.decode) hm
    rw [hpc, hf.past, written?, hd]
    rfl

theorem flow_eq_sequential_iff (f : Fetched) (target : UInt16) :
    f.flow target = .sequential ↔ target = f.pc + 2 := by
  rw [flow]
  split
  · simpa
  · split
    · simpa
    · split <;> simpa

/-- A step leaves the program counter as it found it after the instruction, unless it found it past the
    instruction word. -/
theorem pc_settle (f : Fetched) (m : Machine) :
    (f.settle m).pc = if m.registers.pc = f.pc + 2 then f.next else m.registers.pc := by
  simp only [settle, Processor.pc, flow_eq_sequential_iff]
  split
  · exact Registers.pc_setPc _ _
  · rfl

end Fetched

theorem fetches_fetched {p : Processor} {i : Instruction} (hp : p.Ready) (hi : Instruction.decode p.memory p.pc = .ok i) :
    p.Fetches (p.fetched i) :=
  fetches_of_kept hp.locked hp.running (Gate.Kept.refl p) hi false

/-- Away from the gate what is fetched is what lies at the program counter. -/
theorem Fetches.eq_fetched {p : Processor} {f : Fetched} {c d : Console} (hf : p.Fetches f)
    (hfetch : p.fetch c = (.ok f, d)) (haway : p.pc ≠ Gate.address) :
    ∃ i, Instruction.decode p.memory p.pc = .ok i ∧ f = p.fetched i := by
  rcases hi : Instruction.decode p.memory p.pc with e | i
  · rw [fetch, hf.locked, hf.running, if_neg Bool.false_ne_true, if_neg Bool.false_ne_true, if_neg haway] at hfetch
    simp only [hi, Prod.mk.injEq, reduceCtorEq, false_and] at hfetch
  · rw [fetch_of_decode ⟨hf.locked, hf.running, haway⟩ hi, Prod.mk.injEq, Except.ok.injEq] at hfetch
    exact ⟨i, rfl, hfetch.1.symm⟩

/-- A value that an instruction writes to the program counter is where the program goes on, unless it is the
    address of the second word of that instruction, which the program passes over. -/
theorem step?_written {p : Processor} (hp : p.Ready) {i : Instruction}
    (hi : Instruction.decode p.memory p.pc = .ok i) {v : UInt16} (hv : (p.fetched i).written? = some v) (c : Console) :
    ∃ q, p.step? c = some (q, c) ∧ (q.pc = v ↔ (v = p.pc + 2 → i.size = 2)) ∧
      (v = p.pc + 2 → q.pc = p.pc + i.size) := by
  have hf := fetches_fetched hp hi
  obtain ⟨m, hm⟩ := hf.exists_effect
  have hpc : m.registers.pc = v := by rw [Fetched.pc_effect hf hm, hv, Option.getD_some]
  refine ⟨_, step?_of_decode hp hi hm c, ?_, ?_⟩
  · rw [Fetched.pc_settle, hpc]
    split
    · next hsecond =>
      have hnext : (p.fetched i).next = v ↔ i.size = 2 := by
        rw [hsecond]
        exact UInt16.add_right_inj p.pc
      rw [hnext]
      exact ⟨fun h _ => h, fun h => h hsecond⟩
    · next hsecond => exact ⟨fun _ h => absurd h hsecond, fun _ => rfl⟩
  · intro hsecond
    rw [Fetched.pc_settle, hpc]
    exact if_pos hsecond

/-- `mov #0x5000, pc`. -/
theorem step?_written_immediate :
    let p := start ((Memory.zero.writeWords 0x4400 [0x4030, 0x5000]).writeWord Memory.resetAddress 0x4400)
    let i : Instruction :=
      { operation := .binary .mov, width := .word
        operands := .two (Operand.immediate 0x5000) (Operand.ofRegister Register.pc), size := 4 }
    p.Ready ∧ Instruction.decode p.memory p.pc = .ok i ∧ (p.fetched i).written? = some 0x5000 ∧
      ∃ q, p.step? {} = some (q, {}) ∧ q.pc = 0x5000 := by
  intro p i
  have hp : p.Ready := ⟨by decide, by decide, by decide⟩
  have hi : Instruction.decode p.memory p.pc = .ok i := by decide
  have hv : (p.fetched i).written? = some 0x5000 := by decide
  obtain ⟨q, hq, hpc, -⟩ := step?_written hp hi hv {}
  exact ⟨hp, hi, hv, q, hq, hpc.mpr fun h => absurd h (by decide)⟩

/-- `mov #0x4402, pc` at `0x4400` goes past its second word and not to it. -/
theorem step?_past_second_word :
    let p := start ((Memory.zero.writeWords 0x4400 [0x4030, 0x4402]).writeWord Memory.resetAddress 0x4400)
    let i : Instruction :=
      { operation := .binary .mov, width := .word
        operands := .two (Operand.immediate 0x4402) (Operand.ofRegister Register.pc), size := 4 }
    p.Ready ∧ Instruction.decode p.memory p.pc = .ok i ∧ (p.fetched i).written? = some 0x4402 ∧
      (p.step? {}).map (fun s => s.1.pc) = some 0x4404 := by
  refine ⟨⟨by decide, by decide, by decide⟩, by decide, by decide, ?_⟩
  decide

end Processor
end MicroDebug

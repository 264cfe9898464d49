import MicroDebug.Proofs.Memory.Bytes
import MicroDebug.Proofs.Processor.Calls

/-! A call of the gate comes back. The return that the host leaves there takes the address that the call has put on
    the stack, unless what the host stored lies over that address. -/

namespace MicroDebug

namespace Registers

variable (rs : Registers)

theorem sp_setPc (w : UInt16) : (rs.setPc w).sp = rs.sp :=
  (rs.get_set Register.pc Register.sp w).trans (if_neg (by decide))

theorem sp_setSp (w : UInt16) : (rs.setSp w).sp = w :=
  (rs.get_set Register.sp Register.sp w).trans (if_pos rfl)

theorem setSp_setPc (v w : UInt16) : (rs.setPc v).setSp w = (rs.setSp w).setPc v := rs.set_comm (by decide) v w

theorem setSp_setSp (v w : UInt16) : (rs.setSp v).setSp w = rs.setSp w := rs.set_set Register.sp v w

theorem setSp_sp : rs.setSp rs.sp = rs := rs.set_get Register.sp

end Registers

/-! ### What the host does -/

namespace Gate

/-- The program asks for what the host refuses by zero in the last register. -/
def Refuses (p : Processor) : Prop :=
  p.registers.sr &&& Status.gateMask ≠ 0 ∧
    (Status.request p.registers.sr = 0x20 ∨ Status.request p.registers.sr = 0x7e)

instance (p : Processor) : Decidable (Refuses p) := inferInstanceAs (Decidable (_ ∧ _))

/-- Where the host stores bytes when it serves a request, and the bytes. -/
def stores (p : Processor) (c : Console) : Request → UInt16 × List UInt8
  | .readLine =>
    match (ask p.inputMode (p.memory.readWord (p.registers.sp + 10)) c).1 with
    | .ok bytes => (p.memory.readWord (p.registers.sp + 8), bytes)
    | .error _ => (0, [])
  | .refuseInMemory => (p.memory.readWord (p.registers.sp + 10), [0, 0])
  | .writeByte | .refuse | .unlock => (0, [])

/-- Where the host stores bytes when the program is at the gate, and the bytes. -/
def stored (p : Processor) (c : Console) : UInt16 × List UInt8 :=
  if p.registers.sr &&& Status.gateMask = 0 then (0, [])
  else ((Request.ofNumber? (Status.request p.registers.sr)).map (stores p c)).getD (0, [])

/-- The addresses that are written when the program is at the gate, those of the return that is left among them. -/
def written (p : Processor) (c : Console) : List UInt16 :=
  (List.range (stored p c).2.length).map (fun k => (stored p c).1 + UInt16.ofNat k) ++ [address, address + 1]

theorem Request.ofNumber?_eq_refuse_iff {n : UInt8} : ofNumber? n = some .refuse ↔ n = 0x20 ∨ n = 0x7e := by
  rw [ofNumber?]
  grind

section

variable {p : Processor} {c d : Console} {s : Served}

theorem fulfil_ok {r : Request} (h : fulfil p c r = (.ok s, d)) :
    s.processor.registers = (if r = .refuse then p.registers.set 15 0 else p.registers) ∧
      s.processor.memory = p.memory.writeBytes (stores p c r).1 (stores p c r).2 := by
  cases r with
  | writeByte | unlock =>
    simp only [fulfil] at h
    split at h <;> cases h
    exact ⟨rfl, rfl⟩
  | readLine =>
    simp only [fulfil] at h
    split at h
    · next bytes d' hask =>
      cases h
      simp only [stores, hask]
      exact ⟨rfl, rfl⟩
    · cases h
  | refuse | refuseInMemory =>
    cases h
    exact ⟨rfl, rfl⟩

theorem serve_ok (h : serve p c = (.ok s, d)) :
    Kept p s.processor ∧
      s.processor.registers = (if Refuses p then p.registers.set 15 0 else p.registers) ∧
      s.processor.memory = (p.memory.writeBytes (stored p c).1 (stored p c).2).writeWord address returnWord := by
  refine ⟨?_, ?_⟩
  · obtain ⟨t, e, hserve, -⟩ | ⟨t, e, hserve, hkept⟩ := serve_cases p c
    · cases hserve.symm.trans h
    · cases hserve.symm.trans h
      exact kept_leave hkept
  rw [serve] at h
  rw [stored]
  split at h
  · next hdisabled =>
    cases h
    exact ⟨(if_neg fun hrefuses => hrefuses.1 hdisabled).symm, by rw [if_pos hdisabled]; rfl⟩
  · next henabled =>
    have hrefuses : Refuses p ↔ Request.ofNumber? (Status.request p.registers.sr) = some .refuse :=
      (and_iff_right henabled).trans Request.ofNumber?_eq_refuse_iff.symm
    simp only [if_neg henabled, hrefuses]
    cases hr : Request.ofNumber? (Status.request p.registers.sr) with
    | none =>
      simp only [hr] at h
      cases h
    | some r =>
      simp only [hr] at h
      rcases hfulfil : fulfil p c r with ⟨t | t, e⟩
      · rw [hfulfil] at h
        cases h
      · rw [hfulfil] at h
        cases h
        obtain ⟨hregisters, hmemory⟩ := fulfil_ok hfulfil
        simp only [Option.some.injEq, Option.map_some, Option.getD_some]
        exact ⟨hregisters, congrArg (·.writeWord address returnWord) hmemory⟩

theorem readByte_of_not_written {a : UInt16} (h : serve p c = (.ok s, d)) (ha : a ∉ written p c) :
    s.processor.memory.readByte a = p.memory.readByte a := by
  obtain ⟨-, -, hmemory⟩ := serve_ok h
  simp only [written, List.mem_append, List.mem_map, List.mem_range, List.mem_cons, List.not_mem_nil, or_false,
    not_or, not_exists, not_and] at ha
  obtain ⟨hstored, hlow, hhigh⟩ := ha
  rw [hmemory, Memory.readByte_writeWord_of_ne _ _ (Ne.symm hlow) (Ne.symm hhigh),
    Memory.readByte_writeBytes_of_ne _ hstored]

end

end Gate

/-! ### The two steps -/

namespace Machine

theorem advance_immediate (m : Machine) (a : UInt16) : m.advance (Operand.immediate a) = m := rfl

theorem load_immediate (m n : Machine) (a : UInt16) : n.load (m.locate (Operand.immediate a) .word) .word = a :=
  UInt16.and_neg_one

theorem execute_left (m : Machine) (next : UInt16) :
    m.execute Gate.left next =
      some { m with
        registers := (m.registers.setSp (m.registers.sp + 2)).setPc (m.memory.readWord m.registers.sp) } := by
  have hmask : m.memory.readWord m.registers.sp &&& Width.word.mask = m.memory.readWord m.registers.sp :=
    UInt16.and_neg_one
  conv_rhs => rw [← hmask]
  rfl

end Machine

namespace Processor

/-- The program is at a call of the gate, which lies neither at the gate nor past the word of the call. -/
structure CallsGate (p : Processor) : Prop where
  call : ∃ i, Instruction.decode p.memory p.pc = .ok i ∧ i.operation = .unary .call ∧
    i.operands = .one (Operand.immediate Gate.address)
  away : p.pc ≠ Gate.address
  past : p.pc + 2 ≠ Gate.address

/-- The program after a call of the gate. -/
def calledGate (p : Processor) : Processor :=
  { p with
    registers := (p.registers.setSp (p.registers.sp - 2)).setPc Gate.address
    memory := p.memory.writeWord (p.registers.sp - 2) (p.pc + 4)
    calls := p.calls.push { site := p.pc, function := Gate.address }
    blockStart := Gate.address
    executed := p.executed + 1 }

/-- The program after a return. -/
def returned (p : Processor) : Processor :=
  { p with
    registers := (p.registers.setSp (p.registers.sp + 2)).setPc (p.memory.readWord p.registers.sp)
    calls := p.calls.pop
    blockStart := p.memory.readWord p.registers.sp
    executed := p.executed + 1 }

variable {σ : Type} {watch : Watcher σ} {s : σ} {p : Processor} {c : Console} {info : StepInfo}

theorem Fetched.settle_of_not_past {f : Fetched} {m : Machine} {target : UInt16} (hpc : m.registers.pc = target)
    (h : target ≠ f.pc + 2) :
    f.settle m = { f.processor with
      toMachine := m, blockStart := target, calls := f.processor.calls.follow { fetched := f, next := target } } := by
  subst hpc
  have hflow : f.flow m.registers.pc ≠ .sequential := mt (f.flow_eq_sequential_iff _).mp h
  simp only [settle, if_neg hflow, calls_of_not_past h]

theorem effect_call {width : Width} {size a : UInt16}
    (hi : Instruction.decode p.memory p.pc = .ok ⟨.unary .call, width, .one (Operand.immediate a), size⟩) :
    (p.fetched ⟨.unary .call, width, .one (Operand.immediate a), size⟩).effect =
      some
        { registers := (p.registers.setSp (p.registers.sp - 2)).setPc a
          memory := p.memory.writeWord (p.registers.sp - 2) (p.pc + 4) } := by
  have hsize : size = 4 := UInt16.toNat_inj.mp ((Instruction.decode_eq_ok_iff.mp hi).1.size _ rfl)
  have hnone : (p.fetched ⟨.unary .call, width, .one (Operand.immediate a), size⟩).countdown? = none :=
    Fetched.countdown?_eq_none nofun
  rw [effect_of_countdown?_eq_none p hnone, hsize]
  simp only [Machine.execute, Machine.executeUnary, Machine.reserve, Machine.setSp, Machine.setPc, Machine.fetchValue,
    Machine.advance_immediate, Machine.load_immediate, Registers.sp_setSp, Registers.sp_setPc, Registers.setSp_setPc,
    Registers.setPc_setPc]

theorem settle_left {f : Fetched} {m : Machine} (hleft : f.instruction = Gate.left)
    (hf : f.processor = { p with registers := p.registers.setPc (f.pc + 2), executed := p.executed + 1 })
    (htarget : p.memory.readWord p.registers.sp ≠ f.pc + 2) (hm : f.effect = some m) : f.settle m = p.returned := by
  obtain ⟨q, a, i, readInput⟩ := f
  obtain rfl : i = Gate.left := hleft
  obtain rfl : q = { p with registers := p.registers.setPc (a + 2), executed := p.executed + 1 } := hf
  have hop : Gate.left.operation ≠ .jump .notZero := fun h => by cases h
  rw [Fetched.effect, Fetched.countdown?_eq_none hop, Machine.execute_left, Option.some.injEq] at hm
  subst hm
  simp only [Registers.sp_setPc, Registers.setSp_setPc, Registers.setPc_setPc]
  exact Fetched.settle_of_not_past (Registers.pc_setPc _ _) htarget

theorem stepWatched_of_callsGate (h : p.CallsGate) (hok : (p.stepWatched watch s c).result = .ok info) :
    (p.stepWatched watch s c).processor = p.calledGate ∧ (p.stepWatched watch s c).console = c := by
  obtain ⟨f, m, hfetch, hf, hm, hsettle⟩ := effect_of_stepWatched hok
  obtain ⟨⟨op, width, operands, size⟩, hi, rfl, rfl⟩ := h.call
  rw [fetch_of_decode ⟨hf.locked, hf.running, h.away⟩ hi, Prod.mk.injEq, Except.ok.injEq] at hfetch
  obtain ⟨rfl, hconsole⟩ := hfetch
  cases (effect_call hi).symm.trans hm
  exact ⟨hsettle.trans (Fetched.settle_of_not_past (Registers.pc_setPc _ _) (Ne.symm h.past)), hconsole.symm⟩

theorem stepWatched_of_gate (hpc : p.pc = Gate.address) (hok : (p.stepWatched watch s c).result = .ok info) :
    ∃ served d, Gate.serve p c = (.ok served, d) ∧
      (served.processor.memory.readWord served.processor.registers.sp ≠ Gate.address + 2 →
        (p.stepWatched watch s c).processor = served.processor.returned) := by
  obtain ⟨f, m, hfetch, hf, hm, hsettle⟩ := effect_of_stepWatched hok
  rw [fetch, hf.locked, hf.running, if_neg Bool.false_ne_true, if_neg Bool.false_ne_true, if_pos hpc] at hfetch
  obtain ⟨stopped, e, hserve, -⟩ | ⟨served, e, hserve, -⟩ := Gate.serve_cases p c
  · rw [hserve] at hfetch
    cases hfetch
  refine ⟨Gate.leave served, e, hserve, fun htarget => ?_⟩
  have hdecode := Gate.decode_leave served
  rw [← hpc] at hdecode
  simp only [hserve, hdecode, Prod.mk.injEq, Except.ok.injEq] at hfetch
  obtain ⟨rfl, -⟩ := hfetch
  exact hsettle.trans (settle_left rfl rfl (by rw [hpc]; exact htarget) hm)

/-! ### A call and its return -/

/-- The registers of a program, with zero in the last one if the host refuses its request by that. -/
def answered (p : Processor) : Registers := if Gate.Refuses p then p.registers.set 15 0 else p.registers

theorem sp_answered (p : Processor) : p.answered.sp = p.registers.sp := by
  rw [answered]
  split
  · exact (p.registers.get_set 15 Register.sp 0).trans (if_neg (by decide))
  · rfl

theorem answered_calledGate (p : Processor) :
    p.calledGate.answered = (p.answered.setSp (p.registers.sp - 2)).setPc Gate.address := by
  have hsr : p.calledGate.registers.sr = p.registers.sr :=
    ((p.registers.setSp (p.registers.sp - 2)).sr_set (by decide) _).trans (p.registers.sr_set (by decide) _)
  have hrefuses : Gate.Refuses p.calledGate ↔ Gate.Refuses p := by rw [Gate.Refuses, Gate.Refuses, hsr]
  simp only [answered, hrefuses]
  split
  · rw [calledGate, Registers.setPc, Registers.setSp, Registers.set_comm _ (by decide),
      Registers.set_comm p.registers (by decide), ← Registers.setSp, ← Registers.setPc]
  · rfl

theorem registers_of_serve {gate : Gate.Served} {d : Console} (h : Gate.serve p.calledGate c = (.ok gate, d)) :
    gate.processor.registers = (p.answered.setSp (p.registers.sp - 2)).setPc Gate.address := by
  obtain ⟨-, hregisters, -⟩ := Gate.serve_ok h
  exact hregisters.trans p.answered_calledGate

theorem registers_returned {q : Processor}
    (h : q.registers = (p.answered.setSp (p.registers.sp - 2)).setPc Gate.address) :
    q.returned.registers = p.answered.setPc (q.memory.readWord (p.registers.sp - 2)) := by
  have hback : p.registers.sp - 2 + 2 = p.answered.sp := by
    rw [sp_answered, UInt16.sub_add_cancel]
  simp only [returned, h, Registers.sp_setPc, Registers.sp_setSp, Registers.setSp_setPc, Registers.setPc_setPc,
    Registers.setSp_setSp, hback, Registers.setSp_sp]

/-- A call of the gate comes back past the call. Every other register is as it was, except the last one if the host
    refuses the request by it, so are the calls that have not returned, and so is memory but for the return address,
    what the host stored and the return at the gate. -/
theorem stepWatched_gate_call (h : p.CallsGate) {a b : Stepped σ} (ha : p.stepWatched watch s c = a)
    (hb : a.processor.stepWatched watch a.watcher a.console = b) {called served : StepInfo}
    (hcalled : a.result = .ok called) (hserved : b.result = .ok served)
    (hapart : ∀ x ∈ Gate.written a.processor a.console, x ≠ p.registers.sp - 2 ∧ x ≠ p.registers.sp - 1) :
    b.processor.registers =
        (if Gate.Refuses p then p.registers.set 15 0 else p.registers).setPc (p.pc + 4) ∧
      b.processor.calls = p.calls ∧
      (∀ x, x ≠ p.registers.sp - 2 → x ≠ p.registers.sp - 1 → x ∉ Gate.written a.processor a.console →
        b.processor.memory.readByte x = p.memory.readByte x) ∧
      b.processor.memory.readWord Gate.address = Gate.returnWord := by
  subst ha hb
  obtain ⟨hprocessor, hconsole⟩ := stepWatched_of_callsGate h hcalled
  rw [hprocessor, hconsole] at hserved hapart ⊢
  obtain ⟨gate, d, hserve, hreturned⟩ := stepWatched_of_gate (p := p.calledGate) (Registers.pc_setPc _ _) hserved
  obtain ⟨hkept, -, hmemory⟩ := Gate.serve_ok hserve
  have hregisters := registers_of_serve hserve
  have hnext : p.registers.sp - 2 + 1 = p.registers.sp - 1 := by grind
  -- what the host stored is elsewhere, so the return address is still on the stack
  have htop : gate.processor.memory.readWord (p.registers.sp - 2) = p.pc + 4 := by
    refine (Memory.readWord_congr ?_ ?_).trans (p.memory.readWord_writeWord (p.registers.sp - 2) (p.pc + 4))
    · exact Gate.readByte_of_not_written hserve fun hmem => (hapart _ hmem).1 rfl
    · exact Gate.readByte_of_not_written hserve fun hmem => (hapart _ hmem).2 hnext
  -- a return to the word after it would be taken for an instruction that did not redirect the program
  have hpast : gate.processor.memory.readWord gate.processor.registers.sp ≠ Gate.address + 2 := by
    rw [hregisters, Registers.sp_setPc, Registers.sp_setSp, htop]
    exact fun hpc => h.past (by grind)
  rw [hreturned hpast]
  refine ⟨?_, congrArg CallStack.pop hkept.calls, fun x hlow hhigh hx => ?_, ?_⟩
  · rw [registers_returned hregisters, htop, answered]
  · refine (Gate.readByte_of_not_written hserve hx).trans ?_
    exact p.memory.readByte_writeWord_of_ne _ hlow.symm (hnext ▸ hhigh.symm)
  · simp only [returned, hmemory, Memory.readWord_writeWord]

/-- A call that asks for a line of four bytes at most and is answered. -/
theorem stepWatched_gate_call_line :
    let p : Processor := { start ((Memory.zero.writeWords 0x4400 [0x12b0, 0x0010]).writeWords 0x4006 [0x2400, 4]) with
      registers := ((Registers.zero.setPc 0x4400).setSp 0x4000).set Register.sr 0x8200 }
    let a := p.stepWatched Watcher.none () { replies := [{ answer := .line "ab" }] }
    let b := a.processor.stepWatched Watcher.none a.watcher a.console
    p.CallsGate ∧ a.result = .ok { pc := 0x4400, flow := .call, readInput := false } ∧
      b.result = .ok { pc := 0x0010, flow := .ret, readInput := true } ∧
      Gate.written a.processor a.console = [0x2400, 0x2401, 0x2402, 0x0010, 0x0011] ∧
      b.processor.registers = p.registers.setPc 0x4404 ∧ b.processor.calls = p.calls := by
  intro p a b
  have hi : Instruction.decode p.memory p.pc =
      .ok ⟨.unary .call, .word, .one (Operand.immediate Gate.address), 4⟩ := by
    decide
  have hp : p.CallsGate := ⟨⟨_, hi, rfl, rfl⟩, show (0x4400 : UInt16) ≠ 0x10 by decide, show (0x4402 : UInt16) ≠ 0x10 by decide⟩
  obtain ⟨ha, hb, hwritten, hkeeps⟩ : a.result = .ok { pc := 0x4400, flow := .call, readInput := false } ∧
      b.result = .ok { pc := 0x0010, flow := .ret, readInput := true } ∧
      Gate.written a.processor a.console = [0x2400, 0x2401, 0x2402, 0x0010, 0x0011] ∧ ¬Gate.Refuses p := by
    decide
  have hsp : p.registers.sp = 0x4000 := rfl
  have hapart : ∀ x ∈ Gate.written a.processor a.console, x ≠ p.registers.sp - 2 ∧ x ≠ p.registers.sp - 1 := by
    intro x hx
    simp only [hwritten, List.mem_cons, List.not_mem_nil, or_false] at hx
    rw [hsp]
    rcases hx with rfl | rfl | rfl | rfl | rfl <;> decide
  obtain ⟨hregisters, hcalls, -⟩ := stepWatched_gate_call hp rfl rfl ha hb hapart
  rw [if_neg hkeeps] at hregisters
  exact ⟨hp, ha, hb, hwritten, hregisters, hcalls⟩

end Processor
end MicroDebug

import MicroDebug.Proofs.Processor.ProgramCounter
import Mathlib.Data.List.Chain

/-! The calls that have not returned are those that a run made and did not come back from, except that a call
    or a return that leads to the word after its first is not seen. A step takes such an instruction for one
    that did not redirect the program. -/

namespace MicroDebug

namespace Processor

/-- An instruction that was executed, and where the program went on. -/
structure Executed where
  fetched : Fetched
  next : UInt16

/-- The instruction wrote the address of the word after its first to the program counter. -/
def Executed.Falls (x : Executed) : Prop := x.fetched.written? = some (x.fetched.pc + 2)

instance (x : Executed) : Decidable x.Falls := inferInstanceAs (Decidable (_ = _))

/-- The instructions that the next steps execute, in order. -/
def executions : Nat → Processor → Console → List Executed
  | 0, _, _ => []
  | n + 1, p, c =>
    match (p.fetch c).1, p.step? c with
    | .ok f, some (q, d) => { fetched := f, next := q.pc } :: executions n q d
    | _, _ => []

end Processor

/-- The calls after an instruction, told by the instruction alone: a call adds itself with the address it led to,
    and a return removes the latest call. -/
def CallStack.follow (s : CallStack) (x : Processor.Executed) : CallStack :=
  if x.fetched.instruction.isCall then s.push { site := x.fetched.pc, function := x.next }
  else if x.fetched.instruction.isReturn then s.pop
  else s

namespace Processor

/-! ### One step -/

theorem step?_cases {p q : Processor} {c d : Console} (h : p.step? c = some (q, d)) :
    ∃ f m, p.fetch c = (.ok f, d) ∧ p.Fetches f ∧ f.effect = some m ∧ q = f.settle m := by
  obtain ⟨stopped, d', hfetch, hp, hreason, hstep⟩ | ⟨f, d', reason, t, hfetch, hf, hwatch, hstep⟩ |
    ⟨f, d', t, m, hfetch, hf, hwatch, hm, hstep⟩ := stepWatched_cases Watcher.none () p c
  · rw [step?, step, hstep] at h
    cases h
  · cases hwatch
  · rw [step?, step, hstep] at h
    cases h
    exact ⟨f, m, hfetch, hf, hm, rfl⟩

namespace Fetched

variable {p : Processor} {f : Fetched} {m : Machine}

theorem exists_written?_of_isCall (hf : p.Fetches f) (h : f.instruction.isCall = true) :
    ∃ v, f.written? = some v := by
  have hop : f.instruction.operation = .unary .call := beq_iff_eq.mp h
  have hsuits := Instruction.suits_of_decode hf.decode
  rw [hop] at hsuits
  have hloop : f.countdown? = none := countdown?_eq_none (by rw [hop]; exact fun h => by cases h)
  cases hxs : f.instruction.operands with
  | one x => exact ⟨_, by simp only [written?, hloop, Machine.written?, hop, hxs]; rfl⟩
  | offset d => rw [hxs] at hsuits; exact absurd hsuits id
  | two x y => rw [hxs] at hsuits; exact absurd hsuits id

theorem exists_written?_of_isReturn (h : f.instruction.isReturn = true) : ∃ v, f.written? = some v := by
  rw [Instruction.isReturn, Bool.and_eq_true, beq_iff_eq, beq_iff_eq] at h
  obtain ⟨hop, hxs⟩ := h
  have hloop : f.countdown? = none := countdown?_eq_none (by rw [hop]; exact fun h => by cases h)
  exact ⟨_, by simp only [written?, hloop, Machine.written?, hop, hxs]; rfl⟩

/-- An instruction that does not write the program counter is no call and no return. -/
theorem follow_of_written?_eq_none (hf : p.Fetches f) (hv : f.written? = none) (s : CallStack) (next : UInt16) :
    s.follow { fetched := f, next := next } = s := by
  have hcall : ¬f.instruction.isCall = true := fun h => by
    obtain ⟨v, hv'⟩ := exists_written?_of_isCall hf h
    cases hv.symm.trans hv'
  have hreturn : ¬f.instruction.isReturn = true := fun h => by
    obtain ⟨v, hv'⟩ := exists_written?_of_isReturn h
    cases hv.symm.trans hv'
  rw [CallStack.follow, if_neg hcall, if_neg hreturn]

theorem calls_of_past {target : UInt16} (h : target = f.pc + 2) : f.calls target = f.processor.calls := by
  rw [calls, (f.flow_eq_sequential_iff target).mpr h]

theorem calls_of_not_past {target : UInt16} (h : target ≠ f.pc + 2) :
    f.calls target = f.processor.calls.follow { fetched := f, next := target } := by
  simp only [calls, flow, if_neg h, CallStack.follow]
  by_cases hcall : f.instruction.isCall = true
  · rw [if_pos hcall, if_pos hcall]
  · rw [if_neg hcall, if_neg hcall]
    by_cases hreturn : f.instruction.isReturn = true
    · rw [if_pos hreturn, if_pos hreturn]
    · rw [if_neg hreturn, if_neg hreturn]

/-- A step keeps the calls if the instruction falls through, and else follows the instruction. -/
theorem calls_settle (hf : p.Fetches f) (hm : f.effect = some m) :
    (f.settle m).calls =
      if Executed.Falls { fetched := f, next := (f.settle m).pc } then p.calls
      else p.calls.follow { fetched := f, next := (f.settle m).pc } := by
  have hpc := pc_effect hf hm
  have hcalls : (f.settle m).calls = f.calls m.registers.pc := rfl
  rw [hcalls, ← hf.calls]
  cases hv : f.written? with
  | none =>
    rw [hv, Option.getD_none] at hpc
    rw [calls_of_past hpc, follow_of_written?_eq_none hf hv, ite_self]
  | some v =>
    rw [hv, Option.getD_some] at hpc
    split
    · next hfalls =>
      have hfalls' : f.written? = some (f.pc + 2) := hfalls
      exact calls_of_past (hpc.trans (Option.some.inj (hv.symm.trans hfalls')))
    · next hfalls =>
      have hpast : m.registers.pc ≠ f.pc + 2 := fun h => hfalls (hv.trans (congrArg some (hpc.symm.trans h)))
      rw [calls_of_not_past hpast, pc_settle, if_neg hpast]

end Fetched

/-- The depth of the calls after a step that left its instruction in some way. -/
def depthAfter (depth : Nat) : Flow → Nat
  | .call => depth + 1
  | .ret => depth - 1
  | .sequential | .branch => depth

theorem Fetched.depth_calls (f : Fetched) (target : UInt16) :
    (f.calls target).depth = depthAfter f.processor.calls.depth (f.flow target) := by
  rw [calls]
  cases f.flow target with
  | call => rfl
  | ret => exact List.length_tail
  | sequential | branch => rfl

theorem depth_stepWatched {σ : Type} (watch : Watcher σ) (s : σ) (p : Processor) (c : Console) :
    (∀ info, (p.stepWatched watch s c).result = .ok info →
      (p.stepWatched watch s c).processor.calls.depth = depthAfter p.calls.depth info.flow) ∧
    ∀ stop, (p.stepWatched watch s c).result = .error stop → (p.stepWatched watch s c).processor.calls = p.calls := by
  obtain ⟨stopped, d, -, -, -, h⟩ | ⟨f, d, reason, t, -, hf, -, h⟩ | ⟨f, d, t, m, -, hf, -, -, h⟩ :=
    stepWatched_cases watch s p c
  · rw [h]
    exact ⟨fun _ hresult => (by cases hresult), fun _ _ => rfl⟩
  · rw [h]
    exact ⟨fun _ hresult => (by cases hresult), fun _ _ => hf.calls⟩
  · rw [h]
    refine ⟨fun info hresult => ?_, fun _ hresult => (by cases hresult)⟩
    cases hresult
    rw [← hf.calls]
    exact f.depth_calls m.registers.pc

/-! ### Runs -/

/-- A run is a step and a run from where the step leads. -/
theorem run?_succ_cases {n : Nat} {p q : Processor} {c d : Console} (h : run? (n + 1) p c = some (q, d)) :
    ∃ f m e, p.fetch c = (.ok f, e) ∧ p.Fetches f ∧ f.effect = some m ∧ run? n (f.settle m) e = some (q, d) ∧
      executions (n + 1) p c = { fetched := f, next := (f.settle m).pc } :: executions n (f.settle m) e := by
  rw [run?, Option.bind_eq_some_iff] at h
  obtain ⟨⟨p', e⟩, hstep, hrun⟩ := h
  obtain ⟨f, m, hfetch, hf, hm, rfl⟩ := step?_cases hstep
  exact ⟨f, m, e, hfetch, hf, hm, hrun, by simp only [executions, hfetch, hstep]⟩

theorem executions_cases (n : Nat) (p : Processor) (c : Console) :
    executions (n + 1) p c = [] ∨ ∃ f m d, p.Fetches f ∧ f.effect = some m ∧
      executions (n + 1) p c = { fetched := f, next := (f.settle m).pc } :: executions n (f.settle m) d := by
  rw [executions]
  split
  · next f q d hf hstep =>
    obtain ⟨g, m, hfetch, hg, hm, rfl⟩ := step?_cases hstep
    rw [hfetch] at hf
    cases hf
    exact .inr ⟨f, m, d, hg, hm, rfl⟩
  · exact .inl rfl

theorem of_mem_executions {n : Nat} {p : Processor} {c : Console} {x : Executed} (h : x ∈ executions n p c) :
    ∃ (q : Processor) (m : Machine), q.Fetches x.fetched ∧ x.fetched.effect = some m ∧
      x.next = (x.fetched.settle m).pc := by
  induction n generalizing p c with
  | zero => cases h
  | succ n ih =>
    rcases executions_cases n p c with hnone | ⟨f, m, d, hf, hm, hsome⟩
    · rw [hnone] at h
      cases h
    · rw [hsome] at h
      rcases List.mem_cons.mp h with rfl | h
      · exact ⟨p, m, hf, hm, rfl⟩
      · exact ih h

theorem pc_head_executions {n : Nat} {p : Processor} {c : Console} :
    ∀ x ∈ (executions n p c).head?, x.fetched.pc = p.pc := by
  intro x hx
  cases n with
  | zero => cases hx
  | succ n =>
    rcases executions_cases n p c with hnone | ⟨f, m, d, hf, -, hsome⟩
    · rw [hnone] at hx
      cases hx
    · rw [hsome] at hx
      cases hx
      exact hf.pc

theorem isChain_executions (n : Nat) (p : Processor) (c : Console) :
    (executions n p c).IsChain fun x y => y.fetched.pc = x.next := by
  induction n generalizing p c with
  | zero => exact List.isChain_nil
  | succ n ih =>
    rcases executions_cases n p c with hnone | ⟨f, m, d, -, -, hsome⟩
    · rw [hnone]
      exact List.isChain_nil
    · rw [hsome]
      exact List.isChain_cons.mpr ⟨pc_head_executions, ih _ _⟩

theorem run?_calls {n : Nat} {p q : Processor} {c d : Console} (h : run? n p c = some (q, d)) :
    (executions n p c).length = n ∧
      q.calls = (executions n p c).foldl (fun s x => if x.Falls then s else s.follow x) p.calls := by
  induction n generalizing p c with
  | zero =>
    cases h
    exact ⟨rfl, rfl⟩
  | succ n ih =>
    obtain ⟨f, m, e, -, hf, hm, hrun, hcons⟩ := run?_succ_cases h
    obtain ⟨hlength, hcalls⟩ := ih hrun
    rw [hcons, List.length_cons, hlength, List.foldl_cons, hcalls, Fetched.calls_settle hf hm]
    exact ⟨rfl, rfl⟩

/-- The calls of a program since it started are what is left of them when each call and each return that was
    executed is followed, except those that fall through. -/
theorem run?_calls_start (m : Memory) (mode : InputMode) (collapse : Bool) (c : Console) (n : Nat) {q : Processor}
    {d : Console} (h : run? n { start m with inputMode := mode, collapse := collapse } c = some (q, d)) :
    let xs := executions n { start m with inputMode := mode, collapse := collapse } c
    xs.length = n ∧
      q.calls = xs.foldl (fun s x => if x.Falls then s else s.follow x) { entry := m.entry } ∧
      ((∀ x ∈ xs, x.fetched.instruction.isCall ∨ x.fetched.instruction.isReturn → ¬x.Falls) →
        q.calls = xs.foldl CallStack.follow { entry := m.entry }) := by
  intro xs
  obtain ⟨hlength, hcalls⟩ := run?_calls h
  refine ⟨hlength, hcalls, fun hfalls => hcalls.trans (List.foldl_ext _ _ _ fun s x hx => ?_)⟩
  split
  · next hx' =>
    have hneither : ¬(x.fetched.instruction.isCall ∨ x.fetched.instruction.isReturn) := fun h => hfalls x hx h hx'
    rw [not_or] at hneither
    rw [CallStack.follow, if_neg hneither.1, if_neg hneither.2]
  · rfl

/-- A call, a call by what was called, and a return from that. -/
theorem run?_calls_start_twice :
    let m := (((Memory.zero.writeWords 0x4400 [0x12b0, 0x4410]).writeWords 0x4410 [0x12b0, 0x4420]).writeWord 0x4420
      0x4130).writeWord Memory.resetAddress 0x4400
    ∃ q d, run? 3 { start m with inputMode := .hex, collapse := false } {} = some (q, d) ∧
      q.calls = { entry := 0x4400, frames := [{ site := 0x4400, function := 0x4410 }] } := by
  intro m
  have hsome : (run? 3 { start m with inputMode := .hex, collapse := false } {}).isSome = true := by decide
  obtain ⟨⟨q, d⟩, hrun⟩ := Option.isSome_iff_exists.mp hsome
  obtain ⟨-, hcalls, -⟩ := run?_calls_start m .hex false {} 3 hrun
  exact ⟨q, d, hrun, hcalls.trans (by decide)⟩

/-- `call r5` at `0x4404`, where the register holds the address of the next word, is executed but not seen. -/
theorem run?_calls_unseen :
    let p := start ((Memory.zero.writeWords 0x4400 [0x4035, 0x4406, 0x1285]).writeWord Memory.resetAddress 0x4400)
    (run? 2 p {}).map (fun s => s.1.calls) = some { entry := 0x4400 } ∧
      (executions 2 p {}).foldl CallStack.follow { entry := 0x4400 } =
        { entry := 0x4400, frames := [{ site := 0x4404, function := 0x4406 }] } := by
  decide

end Processor
end MicroDebug

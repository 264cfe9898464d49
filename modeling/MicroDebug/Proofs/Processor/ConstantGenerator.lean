import MicroDebug.Proofs.Machine.ConstantGenerator
import MicroDebug.Proofs.Processor.Jumps
import MicroDebug.Trace.Tracer

/-! The word in the constant generator is not seen from outside. Two programs that differ in nothing else run alike,
    step by step, under a trace, and each keeps its word. -/

namespace MicroDebug

/-! ### Loops that count down -/

namespace Countdown

theorem apart_counting {m : Machine} {n : Memory} {a : UInt16} {w : Width} {y : Operand} {size : UInt16}
    (h : Decrements n a w y size) : (counting m w y).place.Apart := by
  have hwf := (Instruction.decode_eq_ok_iff.mp h.decode).1.operands
  exact m.apart_locate (hwf y (by simp [Operands.toList])) w

theorem find?_setCg (m : Machine) (v : UInt16) (a : UInt16) (i : Instruction) :
    find? (m.setCg v) a i = find? m a i := by
  refine Option.ext fun d => ?_
  simp only [find?_eq_some_iff, Machine.memory_setCg]
  refine and_congr_right fun _ => exists_congr fun w => exists_congr fun y => exists_congr fun size => ?_
  refine and_congr_right fun h => ?_
  have hy := (Instruction.decode_eq_ok_iff.mp h.decode).1.operands y (by simp [Operands.toList])
  rw [counting, counting, Machine.locate_setCg _ _ hy, Machine.load_setCg _ _ (m.apart_locate hy w)]

theorem run_setCg {d : Countdown} (hd : d.place.Apart) (m : Machine) (v next : UInt16) :
    d.run (m.setCg v) next = (d.run m next).setCg v := by
  simp only [run, Machine.store_setCg _ _ hd, Machine.setPc_setCg, Machine.setFlag_setCg]

end Countdown

/-! ### Traces -/

theorem Instruction.mem_of_mem_spelling {i : Instruction} {x : Operand} (h : x ∈ i.spelling.2) :
    x ∈ i.operands.toList := by
  rw [spelling] at h
  split at h
  · cases h
  · split at h
    · next hxs =>
      rw [hxs]
      split at h <;> simp_all [Operands.toList]
    · exact h

namespace Tracer

variable {m : Machine} {x : Operand}

/-- An operand that is shown with the value of its register is not the constant generator. -/
theorem operandText_setCg (hx : x.WellFormed) (hvalue : x.isValue = false) (v : UInt16) (w : Width) :
    operandText (m.setCg v) x w = operandText m x w := by
  have hslot : Registers.slot x.reg ≠ Registers.slot Register.cg := by
    refine mt (Registers.slot_eq_iff hx.reg_le (by decide)).mp fun hreg => ?_
    obtain ⟨mode, r, ext⟩ := x
    obtain rfl : r = Register.cg := hreg
    cases mode <;> cases hvalue
  simp only [operandText, Machine.peek_setCg _ _ hx, Machine.registers_setCg, Registers.get_setCg _ _ hslot]

/-- The operands of an instruction that is told of name registers that there are. -/
def Readable (e : Event) : Prop := ∀ pc i, e = .execute pc i → ∀ x ∈ i.operands.toList, x.WellFormed

theorem operationText_setCg {i : Instruction} (hi : ∀ x ∈ i.operands.toList, x.WellFormed) (v : UInt16) :
    operationText (m.setCg v) i = operationText m i := by
  have hvalues : (i.spelling.2.filter fun x => !x.isValue).map (operandText (m.setCg v) · i.width) =
      (i.spelling.2.filter fun x => !x.isValue).map (operandText m · i.width) := by
    refine List.map_congr_left fun x hx => ?_
    obtain ⟨hmem, hvalue⟩ := List.mem_filter.mp hx
    exact operandText_setCg (hi x (Instruction.mem_of_mem_spelling hmem)) (by simpa using hvalue) v i.width
  simp only [operationText, hvalues]

theorem eventLine_setCg {e : Event} (he : Readable e) (v : UInt16) : eventLine (m.setCg v) e = eventLine m e := by
  rcases e with ⟨pc, i⟩ | ⟨pc, remaining⟩
  · simp only [eventLine, eventText, operationText_setCg (he pc i rfl)]
  · rfl

/-- The watcher that writes a trace. -/
def watch {σ : Type} (write : σ → TraceLine → Except String Unit × σ) : Watcher (Tracer × σ) := fun s p e =>
  let (result, t, s) := s.1.observe write s.2 p.toMachine e
  (result, t, s)

end Tracer

/-! ### Fetching -/

namespace Processor

/-- The program with a word in the constant generator. -/
def setCg (p : Processor) (w : UInt16) : Processor := p.setRegister Register.cg w

def Fetched.setCg (f : Fetched) (w : UInt16) : Fetched := { f with processor := f.processor.setCg w }

end Processor

def Stopped.setCg (s : Stopped) (w : UInt16) : Stopped := { s with processor := s.processor.setCg w }

def Gate.Served.setCg (s : Gate.Served) (w : UInt16) : Gate.Served := { s with processor := s.processor.setCg w }

section

variable (p : Processor) (c : Console) (w : UInt16)

theorem Gate.fulfil_setCg (r : Request) :
    fulfil (p.setCg w) c r = (((fulfil p c r).1.map (·.setCg w)).mapError (·.setCg w), (fulfil p c r).2) := by
  have hmemory : (p.setCg w).memory = p.memory := rfl
  have hmode : (p.setCg w).inputMode = p.inputMode := rfl
  have hsp : (p.setCg w).registers.sp = p.registers.sp := p.registers.sp_setCg w
  cases r with
  | writeByte | unlock =>
    simp only [fulfil, hmemory, hsp]
    split <;> rfl
  | readLine =>
    simp only [fulfil, hmemory, hmode, hsp]
    split <;> rfl
  | refuse =>
    have hset : (p.setCg w).setRegister 15 0 = (p.setRegister 15 0).setCg w := by
      simp only [Processor.setRegister, Processor.setCg]
      exact congrArg (fun rs => { p with registers := rs }) (p.registers.set_setCg w (r := 15) (by decide) 0)
    simp only [fulfil, hset]
    rfl
  | refuseInMemory =>
    simp only [fulfil, hmemory, hsp]
    rfl

theorem Gate.serve_setCg :
    serve (p.setCg w) c = (((serve p c).1.map (·.setCg w)).mapError (·.setCg w), (serve p c).2) := by
  have hsr : (p.setCg w).registers.sr = p.registers.sr := p.registers.sr_setCg w
  simp only [serve, hsr]
  split
  · rfl
  · split
    · rfl
    · rw [fulfil_setCg]
      rcases fulfil p c _ with ⟨s | s, d⟩ <;> rfl

/-- The instruction that is read after the gate has been passed. -/
def Processor.readAfter (a : UInt16) (s : Gate.Served) : Except Stopped Fetched :=
  match Instruction.decode s.processor.memory a with
  | .error e => .error { reason := .fault (.decode e), processor := s.processor }
  | .ok i =>
    let q := s.processor
    .ok { processor := { q with registers := q.registers.setPc (a + 2), executed := q.executed + 1 }
          pc := a, instruction := i, readInput := s.readInput }

theorem Processor.fetch_eq : p.fetch c =
    if p.unlocked then (.error { reason := .unlocked, processor := p }, c)
    else if p.isHalted then (.error { reason := .halted, processor := p }, c)
    else
      match if p.pc = Gate.address then Gate.serve p c else (.ok { processor := p }, c) with
      | (.error s, c) => (.error s, c)
      | (.ok s, c) => (readAfter p.pc s, c) := by
  simp only [fetch]
  rcases (if p.pc = Gate.address then Gate.serve p c else (.ok { processor := p }, c)) with ⟨s | s, d⟩
  · rfl
  · simp only [readAfter]
    cases Instruction.decode s.processor.memory p.pc <;> rfl

theorem Processor.readAfter_setCg (a : UInt16) (s : Gate.Served) :
    readAfter a (s.setCg w) = ((readAfter a s).map (·.setCg w)).mapError (·.setCg w) := by
  simp only [readAfter, Gate.Served.setCg]
  rw [show (s.processor.setCg w).memory = s.processor.memory from rfl]
  cases Instruction.decode s.processor.memory a with
  | error e => rfl
  | ok i =>
    have hpc : (s.processor.setCg w).registers.setPc (a + 2) = (s.processor.registers.setPc (a + 2)).setCg w :=
      s.processor.registers.setPc_setCg w (a + 2)
    simp only [hpc]
    rfl

theorem Processor.fetch_setCg :
    (p.setCg w).fetch c = (((p.fetch c).1.map (·.setCg w)).mapError (·.setCg w), (p.fetch c).2) := by
  have hunlocked : (p.setCg w).unlocked = p.unlocked := rfl
  have hpc : (p.setCg w).pc = p.pc := p.registers.pc_setCg w
  have hhalted : (p.setCg w).isHalted = p.isHalted := by
    rw [isHalted, isHalted, show (p.setCg w).registers.sr = p.registers.sr from p.registers.sr_setCg w]
  have hgate : (if p.pc = Gate.address then Gate.serve (p.setCg w) c else (.ok { processor := p.setCg w }, c)) =
      (if p.pc = Gate.address then Gate.serve p c else (.ok { processor := p }, c)).map
        (fun r => (r.map (·.setCg w)).mapError (·.setCg w)) id := by
    split
    · exact Gate.serve_setCg p c w
    · rfl
  simp only [fetch_eq, hunlocked, hhalted, hpc, hgate]
  split
  · rfl
  split
  · rfl
  rcases (if p.pc = Gate.address then Gate.serve p c else (.ok { processor := p }, c)) with ⟨s | s, d⟩
  · rfl
  · exact congrArg (·, d) (readAfter_setCg w p.pc s)

end

/-! ### Steps -/

namespace Processor

namespace Fetched

variable {p : Processor} {f : Fetched} (hf : p.Fetches f) (w : UInt16)

theorem countdown?_setCg (f : Fetched) : (f.setCg w).countdown? = f.countdown? :=
  congrArg (fun d => if f.processor.collapse then d else none)
    (Countdown.find?_setCg f.processor.toMachine w f.pc f.instruction)

theorem event_setCg (f : Fetched) : (f.setCg w).event = f.event := by
  rw [event, countdown?_setCg, event]
  rfl

theorem settle_setCg (f : Fetched) (m : Machine) : (f.setCg w).settle (m.setCg w) = (f.settle m).setCg w := by
  have hflow : (f.setCg w).flow m.registers.pc = f.flow m.registers.pc := rfl
  simp only [settle, calls, Machine.registers_setCg, Registers.pc_setCg, Machine.setPc_setCg, hflow]
  cases f.flow m.registers.pc <;> rfl

include hf

theorem readable_event : Tracer.Readable f.event := by
  intro pc i hevent
  rw [event] at hevent
  split at hevent
  · cases hevent
  · cases hevent
    exact (Instruction.decode_eq_ok_iff.mp hf.decode).1.operands

theorem effect_setCg : (f.setCg w).effect = f.effect.map fun m => m.setCg w := by
  rw [effect, countdown?_setCg, effect]
  cases hd : f.countdown? with
  | some d =>
    -- the counter of the loop is an operand of the instruction before, which was read as well
    have hplace : d.place.Apart := by
      rw [countdown?] at hd
      split at hd
      · obtain ⟨-, v, y, size, h, rfl⟩ := Countdown.find?_eq_some_iff.mp hd
        exact Countdown.apart_counting h
      · cases hd
    exact congrArg some (Countdown.run_setCg hplace f.processor.toMachine w f.next)
  | none =>
    exact Machine.execute_setCg f.processor.toMachine w (Instruction.decode_eq_ok_iff.mp hf.decode).1.operands f.next

end Fetched

variable {σ : Type} (write : σ → TraceLine → Except String Unit × σ)

/-- A step under a trace does the same with any word in the constant generator, and leaves the word. -/
theorem stepWatched_setCg (s : Tracer × σ) (p : Processor) (c : Console) (w : UInt16) :
    (p.setCg w).stepWatched (Tracer.watch write) s c =
      { p.stepWatched (Tracer.watch write) s c with
        processor := (p.stepWatched (Tracer.watch write) s c).processor.setCg w } := by
  have hfetch' := p.fetch_setCg c w
  obtain ⟨stopped, d, hfetch, rfl, -, hstep⟩ | ⟨f, d, reason, t, hfetch, hf, hwatch, hstep⟩ |
    ⟨f, d, t, m, hfetch, hf, hwatch, hm, hstep⟩ := stepWatched_cases (Tracer.watch write) s p c
  · rw [hstep, stepWatched, hfetch', hfetch]
    rfl
  all_goals
    have htold : Tracer.watch write s (f.setCg w).processor (f.setCg w).event =
        Tracer.watch write s f.processor f.event := by
      have hline := Tracer.eventLine_setCg (m := f.processor.toMachine) (Fetched.readable_event hf) w
      rw [f.event_setCg w]
      simp only [Tracer.watch, Tracer.observe]
      rw [← hline]
      rfl
  · rw [hstep, stepWatched, hfetch', hfetch]
    simp only [Except.map, Except.mapError, htold, hwatch]
    rfl
  · rw [hstep, stepWatched, hfetch', hfetch]
    simp only [Except.map, Except.mapError, htold, hwatch, Fetched.effect_setCg hf, hm, Option.map_some,
      Fetched.settle_setCg, Machine.registers_setCg, Registers.pc_setCg]
    rfl

theorem get_cg_stepWatched (s : Tracer × σ) (p : Processor) (c : Console) :
    (p.stepWatched (Tracer.watch write) s c).processor.registers.get Register.cg = p.registers.get Register.cg := by
  have hself : p.setCg (p.registers.get Register.cg) = p :=
    congrArg (fun rs => { p with registers := rs }) p.registers.setCg_get_cg
  have hstep := stepWatched_setCg write s p c (p.registers.get Register.cg)
  rw [hself] at hstep
  rw [hstep]
  exact Registers.get_cg_setCg _ _

/-! ### Runs -/

/-- What steps one after another have come to, whatever each of them came to. -/
structure Course (σ : Type) where
  results : List (Except Stop StepInfo)
  processor : Processor
  console : Console
  watcher : σ

def course (watch : Watcher σ) : Nat → σ → Processor → Console → Course σ
  | 0, s, p, c => { results := [], processor := p, console := c, watcher := s }
  | n + 1, s, p, c =>
    let r := p.stepWatched watch s c
    let rest := course watch n r.watcher r.processor r.console
    { rest with results := r.result :: rest.results }

/-- With another word in the constant generator a program comes to the same under a trace, step by step, but for that
    word, which stays what it was. -/
theorem course_setRegister_cg (n : Nat) (s : Tracer × σ) (p : Processor) (c : Console) (w : UInt16) :
    let a := course (Tracer.watch write) n s p c
    let b := course (Tracer.watch write) n s (p.setRegister Register.cg w) c
    b.results = a.results ∧ b.console = a.console ∧ b.watcher = a.watcher ∧
      b.processor = a.processor.setRegister Register.cg w ∧
      a.processor.registers.get Register.cg = p.registers.get Register.cg ∧
      b.processor.registers.get Register.cg = w := by
  induction n generalizing s p c with
  | zero => exact ⟨rfl, rfl, rfl, rfl, rfl, Registers.get_cg_setCg _ _⟩
  | succ n ih =>
    have hstep : (p.setRegister Register.cg w).stepWatched (Tracer.watch write) s c = _ :=
      stepWatched_setCg write s p c w
    obtain ⟨hresults, hconsole, hwatcher, hprocessor, hget, hword⟩ :=
      ih (p.stepWatched (Tracer.watch write) s c).watcher (p.stepWatched (Tracer.watch write) s c).processor
        (p.stepWatched (Tracer.watch write) s c).console
    simp only [course, hstep]
    exact ⟨congrArg _ hresults, hconsole, hwatcher, hprocessor, hget.trans (get_cg_stepWatched write s p c), hword⟩

end Processor
end MicroDebug

import MicroDebug.Proofs.Instruction.Decoding
import MicroDebug.Proofs.Processor.Run

/-! A step executes an instruction or changes nothing. Whatever can stop a program stops it before anything has
    been changed: the gate changes the program only once the host has answered, and then an instruction lies there
    that can be read. What a step can come to is said once, for all that is proved of steps. -/

namespace MicroDebug

/-! ### The gate -/

namespace Gate

/-- What the gate leaves as it was, besides most of the registers and memory. -/
structure Kept (p q : Processor) : Prop where
  pc : q.pc = p.pc
  calls : q.calls = p.calls
  blockStart : q.blockStart = p.blockStart
  executed : q.executed = p.executed
  inputMode : q.inputMode = p.inputMode
  collapse : q.collapse = p.collapse

theorem Kept.refl (p : Processor) : Kept p p := ⟨rfl, rfl, rfl, rfl, rfl, rfl⟩

/-- The reasons for which the gate stops a program: it does not look at how the program stands, nor at operands. -/
def Stops : Stop → Prop
  | .halted | .unlocked | .fault (.decode _) | .fault .unsuitable => False
  | .endOfInput | .cancelled | .unreadable | .fault (.unknownRequest _) | .fault (.host _) => True

theorem Stops.ne_unsuitable {stop : Stop} (h : Stops stop) : stop ≠ .fault .unsuitable := by
  rintro rfl
  exact h

/-- A program that the gate stops is as it was. -/
def Sound (p : Processor) : Except Stopped Served → Prop
  | .error s => s.processor = p ∧ Stops s.reason
  | .ok served => Kept p served.processor

theorem stops_askFrom (mode : InputMode) (limit : UInt16) {c : Console} {replies : List Reply} {stop : Stop}
    (h : (askFrom mode limit c replies).1 = .error stop) : Stops stop := by
  induction replies generalizing c with
  | nil =>
    cases h
    trivial
  | cons r rest ih =>
    rw [askFrom] at h
    split at h
    case h_5 =>
      split at h
      · cases h
      · split at h
        · cases h
          trivial
        · exact ih h
    all_goals
      cases h
      trivial

theorem sound_fulfil (p : Processor) (c : Console) (r : Request) : Sound p (fulfil p c r).1 := by
  cases r with
  | writeByte =>
    simp only [fulfil]
    split
    · exact Kept.refl p
    · exact ⟨rfl, trivial⟩
  | readLine =>
    simp only [fulfil]
    split
    · exact ⟨rfl, rfl, rfl, rfl, rfl, rfl⟩
    · next hask => exact ⟨rfl, stops_askFrom _ _ (congrArg Prod.fst hask)⟩
  | refuse =>
    have hpc : (p.setRegister 15 0).pc = p.pc := (p.registers.get_set 15 Register.pc 0).trans (if_neg (by decide))
    exact ⟨hpc, rfl, rfl, rfl, rfl, rfl⟩
  | refuseInMemory => exact ⟨rfl, rfl, rfl, rfl, rfl, rfl⟩
  | unlock =>
    simp only [fulfil]
    split
    · exact ⟨rfl, rfl, rfl, rfl, rfl, rfl⟩
    · exact ⟨rfl, trivial⟩

theorem kept_leave {p : Processor} {s : Served} (h : Kept p s.processor) : Kept p (leave s).processor :=
  ⟨h.pc, h.calls, h.blockStart, h.executed, h.inputMode, h.collapse⟩

/-- The gate stops a program as it was, or leaves a return behind. -/
theorem serve_cases (p : Processor) (c : Console) :
    (∃ s d, serve p c = (.error s, d) ∧ s.processor = p ∧ Stops s.reason) ∨
    (∃ s d, serve p c = (.ok (leave s), d) ∧ Kept p s.processor) := by
  rw [serve]
  split
  · exact .inr ⟨_, _, rfl, Kept.refl p⟩
  · simp only
    split
    · exact .inl ⟨_, _, rfl, rfl, trivial⟩
    · next r hr =>
      have hsound := sound_fulfil p c r
      rcases hf : fulfil p c r with ⟨s | s, d⟩
      · rw [hf] at hsound
        exact .inl ⟨s, d, rfl, hsound⟩
      · rw [hf] at hsound
        exact .inr ⟨s, d, rfl, hsound⟩

/-- The instruction that is left at the gate. -/
def left : Instruction :=
  { operation := .binary .mov, width := .word
    operands := .two { mode := .autoincrement, reg := Register.sp } (Operand.ofRegister Register.pc), size := 2 }

theorem decode_leave (s : Served) : Instruction.decode (leave s).processor.memory address = .ok left := by
  have hword : (leave s).processor.memory.readWord address = returnWord := Memory.readWord_writeWord _ _ _
  rw [Instruction.decode_of_even rfl, hword]
  rfl

end Gate

/-! ### Fetching -/

namespace Processor

/-- What is known of an instruction that has been fetched. -/
structure Fetches (p : Processor) (f : Fetched) : Prop where
  locked : p.unlocked = false
  running : p.isHalted = false
  pc : f.pc = p.pc
  decode : Instruction.decode f.processor.memory f.pc = .ok f.instruction
  past : f.processor.registers.pc = f.pc + 2
  calls : f.processor.calls = p.calls
  blockStart : f.processor.blockStart = p.blockStart
  executed : f.processor.executed = p.executed + 1
  inputMode : f.processor.inputMode = p.inputMode
  collapse : f.processor.collapse = p.collapse

theorem fetches_of_kept {p q : Processor} {i : Instruction} (hlocked : p.unlocked = false)
    (hrunning : p.isHalted = false) (h : Gate.Kept p q) (hi : Instruction.decode q.memory p.pc = .ok i)
    (readInput : Bool) :
    p.Fetches
      { processor := { q with registers := q.registers.setPc (p.pc + 2), executed := q.executed + 1 }
        pc := p.pc, instruction := i, readInput := readInput } where
  locked := hlocked
  running := hrunning
  pc := rfl
  decode := hi
  past := (q.registers.get_set Register.pc Register.pc _).trans (if_pos rfl)
  calls := h.calls
  blockStart := h.blockStart
  executed := congrArg (· + 1) h.executed
  inputMode := h.inputMode
  collapse := h.collapse

/-- A program of which no instruction can be fetched is as it was. -/
theorem fetch_cases (p : Processor) (c : Console) :
    (∃ s d, p.fetch c = (.error s, d) ∧ s.processor = p ∧ s.reason ≠ .fault .unsuitable) ∨
    (∃ f d, p.fetch c = (.ok f, d) ∧ p.Fetches f) := by
  rw [fetch]
  split
  · exact .inl ⟨_, _, rfl, rfl, by simp⟩
  next hlocked =>
  split
  · exact .inl ⟨_, _, rfl, rfl, by simp⟩
  next hrunning =>
  rw [Bool.not_eq_true] at hlocked hrunning
  by_cases hgate : p.pc = Gate.address
  · rw [if_pos hgate]
    obtain ⟨s, d, hserve, hs⟩ | ⟨s, d, hserve, hs⟩ := Gate.serve_cases p c
    · rw [hserve]
      exact .inl ⟨s, d, rfl, hs.1, hs.2.ne_unsuitable⟩
    · -- the return that was left can be read, so nothing is undone here
      have hdecode := Gate.decode_leave s
      rw [← hgate] at hdecode
      simp only [hserve, hdecode]
      exact .inr ⟨_, _, rfl, fetches_of_kept hlocked hrunning (Gate.kept_leave hs) hdecode _⟩
  · rw [if_neg hgate]
    rcases hdecode : Instruction.decode p.memory p.pc with e | i
    · simp only [hdecode]
      exact .inl ⟨_, _, rfl, rfl, by simp⟩
    · simp only [hdecode]
      exact .inr ⟨_, _, rfl, fetches_of_kept hlocked hrunning (Gate.Kept.refl p) hdecode _⟩

/-- A program is only found to have ended if it had ended before. -/
theorem ended_of_fetch {p : Processor} {c d : Console} {s : Stopped} (h : p.fetch c = (.error s, d))
    (hreason : s.reason = .halted ∨ s.reason = .unlocked) : p.unlocked = true ∨ p.isHalted = true := by
  have hdecode : ∀ e, ¬(Stop.fault (.decode e) = .halted ∨ Stop.fault (.decode e) = .unlocked) := by simp
  by_contra hended
  rw [not_or, Bool.not_eq_true, Bool.not_eq_true] at hended
  simp only [fetch, hended.1, hended.2, Bool.false_eq_true, if_false] at h
  split at h
  · next t c' hgate =>
    cases h
    split at hgate
    · obtain ⟨stopped, c'', hserve, -, hstops⟩ | ⟨served, c'', hserve, -⟩ := Gate.serve_cases p c
      · cases hserve.symm.trans hgate
        rcases hreason with hreason | hreason <;> rw [hreason] at hstops <;> exact hstops
      · cases hserve.symm.trans hgate
    · cases hgate
  · split at h
    · cases h
      exact hdecode _ hreason
    · cases h

/-! ### Steps -/

theorem exists_execute (m : Machine) {i : Instruction} (h : i.operands.Suits i.operation) (next : UInt16) :
    ∃ n, m.execute i next = some n := by
  rcases Instruction.shape_of_suits h with
    ⟨op, width, x, size, rfl⟩ | ⟨c, width, d, size, rfl⟩ | ⟨op, width, x, y, size, rfl⟩
  · exact ⟨_, rfl⟩
  · exact ⟨_, rfl⟩
  · exact ⟨_, rfl⟩

/-- The operands of an instruction that was read suit its operation, so it has an effect. -/
theorem Fetches.exists_effect {p : Processor} {f : Fetched} (h : p.Fetches f) : ∃ m, f.effect = some m := by
  rw [Fetched.effect]
  split
  · exact ⟨_, rfl⟩
  · exact exists_execute _ (Instruction.suits_of_decode h.decode) _

variable {σ : Type} (watch : Watcher σ) (s : σ) (p : Processor) (c : Console)

/-- The watcher fails when it is told of the next instruction. -/
def Balks : Prop :=
  ∃ f, (p.fetch c).1 = .ok f ∧ ∃ reason, (watch s f.processor f.event).1 = .error reason

/-- All that a step can come to: the program stops as it was, the watcher fails, or an instruction takes effect. -/
theorem stepWatched_cases :
    (∃ stopped d, p.fetch c = (.error stopped, d) ∧ stopped.processor = p ∧ stopped.reason ≠ .fault .unsuitable ∧
      p.stepWatched watch s c =
        { result := .error stopped.reason, processor := p, console := d, watcher := s }) ∨
    (∃ f d reason t, p.fetch c = (.ok f, d) ∧ p.Fetches f ∧ watch s f.processor f.event = (.error reason, t) ∧
      p.stepWatched watch s c =
        { result := .error (.fault (.host reason)), processor := f.processor, console := d, watcher := t }) ∨
    ∃ f d t m, p.fetch c = (.ok f, d) ∧ p.Fetches f ∧ watch s f.processor f.event = (.ok (), t) ∧
      f.effect = some m ∧
      p.stepWatched watch s c =
        { result := .ok { pc := f.pc, flow := f.flow m.registers.pc, readInput := f.readInput }
          processor := f.settle m, console := d, watcher := t } := by
  obtain ⟨stopped, d, hfetch, hp, hreason⟩ | ⟨f, d, hfetch, hf⟩ := fetch_cases p c
  · refine .inl ⟨stopped, d, hfetch, hp, hreason, ?_⟩
    rw [stepWatched, hfetch, ← hp]
  · rcases hwatch : watch s f.processor f.event with ⟨reason | _, t⟩
    · refine .inr (.inl ⟨f, d, reason, t, hfetch, hf, hwatch, ?_⟩)
      simp only [stepWatched, hfetch, hwatch]
    · obtain ⟨m, hm⟩ := hf.exists_effect
      refine .inr (.inr ⟨f, d, t, m, hfetch, hf, hwatch, hm, ?_⟩)
      simp only [stepWatched, hfetch, hwatch, hm]

variable {watch s p c} in
theorem effect_of_stepWatched {info : StepInfo} (h : (p.stepWatched watch s c).result = .ok info) :
    ∃ f m, p.fetch c = (.ok f, (p.stepWatched watch s c).console) ∧ p.Fetches f ∧ f.effect = some m ∧
      (p.stepWatched watch s c).processor = f.settle m := by
  obtain ⟨stopped, d, -, -, -, hstep⟩ | ⟨f, d, reason, t, -, -, -, hstep⟩ | ⟨f, d, t, m, hfetch, hf, -, hm, hstep⟩ :=
    stepWatched_cases watch s p c
  · rw [hstep] at h
    cases h
  · rw [hstep] at h
    cases h
  · rw [hstep]
    exact ⟨f, m, hfetch, hf, hm, rfl⟩

/-- The operands of an instruction are never found not to suit its operation. -/
theorem stepWatched_suitable : (p.stepWatched watch s c).result ≠ .error (.fault .unsuitable) := by
  obtain ⟨stopped, d, hfetch, hp, hreason, h⟩ | ⟨f, d, reason, t, hfetch, hf, hwatch, h⟩ |
    ⟨f, d, t, m, hfetch, hf, hwatch, hm, h⟩ := stepWatched_cases watch s p c
  · rw [h]
    exact fun hresult => hreason (Except.error.inj hresult)
  · rw [h]
    exact nofun
  · rw [h]
    exact nofun

/-- A step that executes no instruction leaves the whole program as it was, unless it was the watcher that failed,
    and a step that executes one counts one more. -/
theorem stepWatched_unchanged_or_counted :
    (∀ stop, (p.stepWatched watch s c).result = .error stop → ¬Balks watch s p c →
      (p.stepWatched watch s c).processor = p) ∧
    ∀ info, (p.stepWatched watch s c).result = .ok info →
      (p.stepWatched watch s c).processor.executed = p.executed + 1 := by
  obtain ⟨stopped, d, hfetch, hp, hreason, h⟩ | ⟨f, d, reason, t, hfetch, hf, hwatch, h⟩ |
    ⟨f, d, t, m, hfetch, hf, hwatch, hm, h⟩ := stepWatched_cases watch s p c
  · rw [h]
    exact ⟨fun _ _ _ => rfl, fun _ hresult => (by cases hresult)⟩
  · rw [h]
    refine ⟨fun _ _ hbalks => absurd ?_ hbalks, fun _ hresult => (by cases hresult)⟩
    exact ⟨f, by rw [hfetch], reason, by rw [hwatch]⟩
  · rw [h]
    exact ⟨fun _ hresult _ => (by cases hresult), fun _ _ => hf.executed⟩

/-- A request for a line is made three times and cancelled the third time, and an instruction is executed. -/
theorem stepWatched_unchanged_or_counted_at_gate :
    let p : Processor := { Processor.start Memory.zero with
      registers := (Registers.zero.setPc Gate.address).set Register.sr 0x8200, inputMode := .hex }
    let c : Console :=
      { replies := [{ answer := .line "123" }, { answer := .line "zz" }, { answer := .cancelled }] }
    let q : Processor := Processor.start (Memory.zero.writeWord 0 0x4303)
    (p.step c).result = .error .cancelled ∧ (p.step c).processor = p ∧
      (q.step {}).result = .ok { pc := 0, flow := .sequential, readInput := false } ∧
      (q.step {}).processor.executed = 1 := by
  intro p c q
  have hcancelled : (p.step c).result = .error .cancelled := by decide
  have hexecuted : (q.step {}).result = .ok { pc := 0, flow := .sequential, readInput := false } := by
    decide
  have hpays : ¬Balks Watcher.none () p c := by
    rintro ⟨f, -, reason, hreason⟩
    cases hreason
  exact ⟨hcancelled, (stepWatched_unchanged_or_counted Watcher.none () p c).1 _ hcancelled hpays, hexecuted,
    (stepWatched_unchanged_or_counted Watcher.none () q {}).2 _ hexecuted⟩

end Processor
end MicroDebug

import MicroDebug.Processor.Step

/-! Runs as one step after another. Away from the gate a step is the instruction that is read at the program
    counter, and the console has no part in it. -/

namespace MicroDebug.Processor

/-! ### Steps one after another -/

/-- The state after a step, if an instruction was executed. -/
def step? (p : Processor) (c : Console) : Option (Processor × Console) :=
  match (p.step c).result with
  | .ok _ => some ((p.step c).processor, (p.step c).console)
  | .error _ => none

/-- The state after so many steps, if each executed an instruction. -/
def run? : Nat → Processor → Console → Option (Processor × Console)
  | 0, p, c => some (p, c)
  | n + 1, p, c => (p.step? c).bind fun s => run? n s.1 s.2

theorem run?_succ {n : Nat} {p q : Processor} {c d : Console} (h : p.step? c = some (q, d)) :
    run? (n + 1) p c = run? n q d := by
  rw [run?, h, Option.bind_some]

/-! ### A step away from the gate -/

/-- An instruction at the program counter that is about to take effect. -/
def fetched (p : Processor) (i : Instruction) : Fetched where
  processor := { p with registers := p.registers.setPc (p.pc + 2), executed := p.executed + 1 }
  pc := p.pc
  instruction := i
  readInput := false

/-- A program that can be stepped and is not at the gate. -/
structure Ready (p : Processor) : Prop where
  locked : p.unlocked = false
  running : p.isHalted = false
  away : p.pc ≠ Gate.address

section

variable {p : Processor} {i : Instruction} (hp : p.Ready) (hi : Instruction.decode p.memory p.pc = .ok i)
include hp hi

theorem fetch_of_decode (c : Console) : p.fetch c = (.ok (p.fetched i), c) := by
  rw [fetch, hp.locked, hp.running, if_neg Bool.false_ne_true, if_neg Bool.false_ne_true, if_neg hp.away]
  simp only [hi]
  rfl

theorem step?_of_decode {m : Machine} (hm : (p.fetched i).effect = some m) (c : Console) :
    p.step? c = some ((p.fetched i).settle m, c) := by
  simp only [step?, step, stepWatched, fetch_of_decode hp hi, Watcher.none, hm]

end

/-! ### What an instruction does, and how a step leaves it -/

variable (p : Processor) {i : Instruction} {m : Machine}

theorem countdown?_of_collapse (h : p.collapse = true) :
    (p.fetched i).countdown? =
      Countdown.find? { registers := p.registers.setPc (p.pc + 2), memory := p.memory } p.pc i := by
  rw [Fetched.countdown?, fetched, h]
  rfl

theorem countdown?_of_not_collapse (h : p.collapse = false) : (p.fetched i).countdown? = none := by
  rw [Fetched.countdown?, fetched, h]
  rfl

theorem effect_of_countdown?_eq_some {d : Countdown} (h : (p.fetched i).countdown? = some d) :
    (p.fetched i).effect =
      some (d.run { registers := p.registers.setPc (p.pc + 2), memory := p.memory } (p.pc + i.size)) := by
  rw [Fetched.effect, h]
  rfl

theorem effect_of_countdown?_eq_none (h : (p.fetched i).countdown? = none) :
    (p.fetched i).effect =
      Machine.execute { registers := p.registers.setPc (p.pc + 2), memory := p.memory } i (p.pc + i.size) := by
  rw [Fetched.effect, h]
  rfl

theorem settle_sequential (h : m.registers.pc = p.pc + 2) :
    (p.fetched i).settle m = { p with
      registers := m.registers.setPc (p.pc + i.size), memory := m.memory, executed := p.executed + 1 } := by
  have hflow : (p.fetched i).flow m.registers.pc = .sequential := if_pos h
  simp only [Fetched.settle, Fetched.calls, hflow, if_true]
  rfl

theorem settle_branch (h : m.registers.pc ≠ p.pc + 2) (hcall : i.isCall = false) (hreturn : i.isReturn = false) :
    (p.fetched i).settle m = { p with
      registers := m.registers, memory := m.memory, blockStart := m.registers.pc, executed := p.executed + 1 } := by
  have hflow : (p.fetched i).flow m.registers.pc = .branch := by
    rw [Fetched.flow, fetched, if_neg h, hcall, hreturn]
    rfl
  simp only [Fetched.settle, Fetched.calls, hflow, reduceCtorEq, if_false]
  rfl

end MicroDebug.Processor

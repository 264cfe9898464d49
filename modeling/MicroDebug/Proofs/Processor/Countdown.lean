import MicroDebug.Proofs.Processor.Run
import MicroDebug.Proofs.Register.Flags

/-! A loop that only counts down comes to the same by one step as by all of its turns. Each turn lowers the
    counter by one and leaves the loop where it is, and only the last result is zero. What the registers are
    after the loop depends on none of the turns in between. -/

namespace MicroDebug.Countdown

open Registers (slot)

/-! ### The loop in memory -/

/-- `add #-1` or `add.b #-1` to a register. -/
def decrement (w : Width) (r : Register) : Instruction :=
  { operation := .binary .add, width := w
    operands := .two { mode := .autoincrement, reg := Register.cg } (Operand.ofRegister r), size := 2 }

/-- `jnz $-2`. -/
def back : Instruction := { operation := .jump .notZero, width := .word, operands := .offset (-2), size := 2 }

/-- Memory holds a loop at `a` that counts the register down, apart from the gate. -/
structure Loop (m : Memory) (a : UInt16) (w : Width) (r : Register) : Prop where
  counter : r = Register.sp ∨ 4 ≤ r ∧ r < 16
  first : Instruction.decode m a = .ok (decrement w r)
  second : Instruction.decode m (a + 2) = .ok back
  off_gate : a ≠ 0x000e ∧ a ≠ 0x0010

/-- The value of the counter. -/
def value (w : Width) (r : Register) (rs : Registers) : Nat := (rs.get r &&& w.mask).toNat

/-- How often a loop turns that finds a value in its counter. -/
def turns (w : Width) (n : Nat) : Nat := if n = 0 then w.size else n

/-! ### Values of the counter -/

theorem value_lt (w : Width) (r : Register) (rs : Registers) : value w r rs < w.size := by
  rw [value, Width.toNat_and_mask]
  exact Nat.mod_lt _ (by cases w <;> decide)

theorem turns_pos (w : Width) (n : Nat) : 0 < turns w n := by
  rw [turns]
  split
  · cases w <;> decide
  · omega

theorem toNat_mask (w : Width) : w.mask.toNat + 1 = w.size := by cases w <;> rfl

theorem toNat_mask_lt (w : Width) : w.mask.toNat < w.size := by cases w <;> decide

/-- Before the last turn a turn leaves one less to go, and the counter is not zero. -/
theorem turns_pred {w : Width} {n k : Nat} (hn : n < w.size) (hk : turns w n = k + 2) :
    turns w ((n + w.mask.toNat) % w.size) = k + 1 ∧ (n + w.mask.toNat) % w.size ≠ 0 := by
  have hmask := toNat_mask w
  rw [turns] at hk
  split at hk
  · next h0 =>
    have hmod : (n + w.mask.toNat) % w.size = k + 1 := by
      rw [h0, Nat.zero_add, Nat.mod_eq_of_lt (toNat_mask_lt w)]
      omega
    rw [hmod]
    exact ⟨if_neg (by omega), by omega⟩
  · have hmod : (n + w.mask.toNat) % w.size = k + 1 := by
      rw [show n + w.mask.toNat = k + 1 + w.size by omega, Nat.add_mod_right, Nat.mod_eq_of_lt (by omega)]
    rw [hmod]
    exact ⟨if_neg (by omega), by omega⟩

/-- The last turn makes the counter zero. -/
theorem mod_eq_zero {w : Width} {n : Nat} (hn : turns w n = 1) : n + w.mask.toNat = w.size := by
  have hmask := toNat_mask w
  rw [turns] at hn
  split at hn
  · cases w <;> cases hn
  · omega

/-! ### Registers after a turn and after the loop -/

/-- The registers after a decrement, the program counter apart. -/
def lowered (w : Width) (r : Register) (rs : Registers) : Registers :=
  let sum := value w r rs + w.mask.toNat
  (rs.setResult w sum).set r (UInt16.ofNat sum &&& w.mask)

/-- The registers after a loop at `a`: the counter is zero, the flags are those of the last decrement, and the
    program goes on after the jump. -/
def finished (w : Width) (r : Register) (a : UInt16) (rs : Registers) : Registers :=
  ((rs.setResult w w.size).set r 0).setPc (a + 4)

/-- The counter is none of the registers that a turn changes otherwise. -/
structure Apart (r : Register) : Prop where
  pc : slot Register.pc ≠ slot r
  sr : slot Register.sr ≠ slot r
  ne_sr : r ≠ Register.sr
  ne_cg : r ≠ Register.cg

theorem apart_of_counter {r : Register} (h : r = Register.sp ∨ 4 ≤ r ∧ r < 16) : Apart r := by
  rcases h with rfl | ⟨hlow, hhigh⟩
  · constructor <;> decide
  · have hlow' : 4 ≤ r.toNat := hlow
    have hhigh' : r.toNat < 16 := hhigh
    have hslot : r.toNat % 16 = r.toNat := Nat.mod_eq_of_lt hhigh'
    constructor
    · simp only [slot, ne_eq, Fin.mk.injEq, hslot]
      change ¬0 = r.toNat
      omega
    · simp only [slot, ne_eq, Fin.mk.injEq, hslot]
      change ¬2 = r.toNat
      omega
    · rintro rfl
      exact absurd hlow' (by decide)
    · rintro rfl
      exact absurd hlow' (by decide)

/-- The registers agree but for what a turn changes. -/
structure Agree (r : Register) (rs qs : Registers) : Prop where
  get : ∀ q, slot Register.pc ≠ slot q → slot Register.sr ≠ slot q → slot r ≠ slot q → rs.get q = qs.get q
  rest : rs.rest = qs.rest

theorem agree_setPc (r : Register) (a : UInt16) (rs : Registers) : Agree r (rs.setPc a) rs where
  get := fun q hpc _ _ => by rw [Registers.setPc, Registers.get_set, if_neg hpc]
  rest := rs.rest_setPc a

theorem Agree.trans {r : Register} {rs qs os : Registers} (h : Agree r rs qs) (h' : Agree r qs os) :
    Agree r rs os where
  get := fun q hpc hsr hq => (h.get q hpc hsr hq).trans (h'.get q hpc hsr hq)
  rest := h.rest.trans h'.rest

theorem value_lowered (w : Width) (r : Register) (rs : Registers) :
    value w r (lowered w r rs) = (value w r rs + w.mask.toNat) % w.size := by
  rw [value, lowered, Registers.get_set, if_pos rfl, Width.toNat_and_mask, Width.toNat_and_mask, Nat.mod_mod,
    UInt16.toNat_ofNat']
  cases w
  · exact Nat.mod_mod _ _
  · exact Nat.mod_mod_of_dvd _ (by decide)

section

variable {r : Register} (hr : Apart r) (w : Width) (a : UInt16) (rs : Registers)
include hr

theorem value_setPc : value w r (rs.setPc a) = value w r rs := by
  rw [value, Registers.setPc, Registers.get_set, if_neg hr.pc, value]

theorem flag_lowered (f : Flag) :
    (lowered w r rs).flag f = (rs.setResult w (value w r rs + w.mask.toNat)).flag f := by
  rw [lowered, Registers.flag_set _ hr.sr.symm]

theorem pc_lowered : (lowered w r rs).pc = rs.pc := by
  rw [lowered, Registers.pc, Registers.get_set, if_neg hr.pc.symm, Registers.get_setResult _ _ _ (by decide),
    Registers.pc]

theorem agree_lowered : Agree r (lowered w r rs) rs where
  get := fun q _ hsr hq => by rw [lowered, Registers.get_set, if_neg hq, Registers.get_setResult _ _ _ hsr]
  rest := by rw [lowered, Registers.rest_set _ hr.sr.symm, Registers.rest_setResult]

/-- Registers that agree before a loop are the same after it. -/
theorem finished_congr {qs : Registers} (h : Agree r rs qs) : finished w r a rs = finished w r a qs := by
  refine Registers.ext_flags (fun q hq => ?_) (fun f => ?_) ?_
  · simp only [finished, Registers.setPc, Registers.get_set, Registers.get_setResult _ _ _ hq]
    split
    · rfl
    · next hpc =>
      split
      · rfl
      · next hrq => exact h.get q hpc hq hrq
  · simp only [finished, Registers.flag_setPc, Registers.flag_set _ hr.sr.symm, Registers.flag_setResult]
  · simp only [finished, Registers.rest_setPc, Registers.rest_set _ hr.sr.symm, Registers.rest_setResult, h.rest]

/-- Setting the flags of a last decrement leaves what it would leave, unless it was an overflow before. -/
theorem setFlags_eq_finished (h : rs.flag .overflow = false) :
    ((((rs.set r 0).setPc (a + 4)).setFlag .zero true).setFlag .negative false).setFlag .carry true =
      finished w r a rs := by
  refine Registers.ext_flags (fun q hq => ?_) (fun f => ?_) ?_
  · simp only [finished, Registers.get_setFlag _ hq, Registers.setPc, Registers.get_set,
      Registers.get_setResult _ _ _ hq]
  · simp only [finished, Registers.flag_setFlag, Registers.flag_setPc, Registers.flag_set _ hr.sr.symm,
      Registers.flag_setResult]
    cases f <;> cases w <;> first | rfl | exact h
  · simp only [finished, Registers.rest_setFlag, Registers.rest_setPc, Registers.rest_set _ hr.sr.symm,
      Registers.rest_setResult]

end

/-- The last decrement leaves what the loop leaves. -/
theorem setPc_lowered {w : Width} {r : Register} {rs : Registers} (h : value w r rs + w.mask.toNat = w.size)
    (a : UInt16) : (lowered w r rs).setPc (a + 4) = finished w r a rs := by
  have hzero : UInt16.ofNat w.size &&& w.mask = 0 := by cases w <;> rfl
  rw [lowered, h, hzero, finished]

/-! ### Steps of the loop -/

section

variable {p : Processor} {w : Width} {r : Register}

theorem locate_ofRegister (hr : Apart r) (m : Machine) :
    m.locate (Operand.ofRegister r) w = .register r := by
  have hliteral : (Operand.ofRegister r).literal? = none := by
    simp [Operand.literal?, Operand.ofRegister, hr.ne_sr, hr.ne_cg]
  rw [Machine.locate, hliteral]
  rfl

theorem execute_decrement (hr : Apart r) (m : Machine) (next : UInt16) :
    m.execute (decrement w r) next = some { m with registers := lowered w r m.registers } := by
  have hsource : m.fetchValue { mode := .autoincrement, reg := Register.cg } w = (w.mask, m) := by
    cases w <;> rfl
  have htarget : m.advance (Operand.ofRegister r) = m := rfl
  simp only [Machine.execute, decrement, Machine.executeBinary, hsource, locate_ofRegister hr, htarget,
    Machine.combine, Machine.storeSum, Machine.store, if_neg hr.ne_cg]
  rfl

theorem countdown?_decrement (p : Processor) : (p.fetched (decrement w r)).countdown? = none := by
  rw [Processor.Fetched.countdown?]
  split <;> rfl

/-- A decrement moves on to the jump, with loops run as one step or not. -/
theorem step?_decrement (hp : p.Ready) (hloop : Loop p.memory p.pc w r) (c : Console) :
    p.step? c = some ({ p with
      registers := (lowered w r (p.registers.setPc (p.pc + 2))).setPc (p.pc + 2)
      executed := p.executed + 1 }, c) := by
  have hr := apart_of_counter hloop.counter
  have heffect : (p.fetched (decrement w r)).effect = some
      { registers := lowered w r (p.registers.setPc (p.pc + 2)), memory := p.memory } := by
    rw [p.effect_of_countdown?_eq_none (countdown?_decrement p), execute_decrement hr]
  have hpc : (lowered w r (p.registers.setPc (p.pc + 2))).pc = p.pc + 2 := by
    rw [pc_lowered hr, Registers.pc_setPc]
  rw [Processor.step?_of_decode hp hloop.first heffect, p.settle_sequential hpc]
  rfl

theorem execute_back (m : Machine) (next : UInt16) :
    m.execute back next = some (if m.registers.flag .zero then m else m.setPc (m.registers.pc - 4)) := by
  have htarget : Instruction.jumpTarget (m.registers.pc - 2) (-2) = m.registers.pc - 4 := by
    rw [Instruction.jumpTarget]
    change m.registers.pc - 2 + 0xfffe = m.registers.pc - 4
    grind
  simp only [Machine.execute, back, Machine.holds, Machine.flag, htarget]
  cases m.registers.flag .zero <;> rfl

/-- The jump is taken while the counter is not zero. -/
theorem step?_back_taken (hp : p.Ready) (hback : Instruction.decode p.memory p.pc = .ok back)
    (hcollapse : p.collapse = false) (hzero : p.registers.flag .zero = false) (c : Console) :
    p.step? c = some ({ p with
      registers := p.registers.setPc (p.pc - 2), blockStart := p.pc - 2, executed := p.executed + 1 }, c) := by
  have htarget : p.pc + 2 - 4 = p.pc - 2 := by grind
  have hne : p.pc - 2 ≠ p.pc + 2 := by grind
  have heffect : (p.fetched back).effect = some
      { registers := p.registers.setPc (p.pc - 2), memory := p.memory } := by
    rw [p.effect_of_countdown?_eq_none (p.countdown?_of_not_collapse hcollapse), execute_back, Registers.flag_setPc,
      hzero, Registers.pc_setPc, htarget, Machine.setPc, Registers.setPc_setPc]
    rfl
  rw [Processor.step?_of_decode hp hback heffect, p.settle_branch (by rwa [Registers.pc_setPc]) rfl rfl,
    Registers.pc_setPc]

theorem step?_back_left (hp : p.Ready) (hback : Instruction.decode p.memory p.pc = .ok back)
    (hcollapse : p.collapse = false) (hzero : p.registers.flag .zero = true) (c : Console) :
    p.step? c = some ({ p with
      registers := p.registers.setPc (p.pc + 2), executed := p.executed + 1 }, c) := by
  have heffect : (p.fetched back).effect = some
      { registers := p.registers.setPc (p.pc + 2), memory := p.memory } := by
    rw [p.effect_of_countdown?_eq_none (p.countdown?_of_not_collapse hcollapse), execute_back, Registers.flag_setPc,
      hzero, if_pos rfl]
  rw [Processor.step?_of_decode hp hback heffect, p.settle_sequential (Registers.pc_setPc _ _),
    Registers.setPc_setPc]
  rfl

/-- The jump of a loop finds the counter, whatever it is. -/
theorem find?_back (hr : Apart r) {m : Machine} {a : UInt16}
    (hbefore : Instruction.decode m.memory (a - 2) = .ok (decrement w r)) :
    find? m a back = some { place := .register r, width := w, remaining := m.load (.register r) w } := by
  have hpc : r ≠ Register.pc := fun h => hr.pc (by rw [h])
  have hcloses : closes back = true := rfl
  have hsource : Operand.constant? (-1) = some { mode := .autoincrement, reg := Register.cg } := rfl
  simp only [find?, hcloses, if_true, hbefore, decrement, hsource]
  rw [if_pos ⟨trivial, fun h => hpc h.2⟩, locate_ofRegister hr]

theorem run_eq_finished (hr : Apart r) {rs : Registers} (h : rs.flag .overflow = false) (m : Memory)
    (a remaining : UInt16) :
    Countdown.run { place := .register r, width := w, remaining := remaining } { registers := rs, memory := m }
      (a + 4) = { registers := finished w r a rs, memory := m } := by
  rw [← setFlags_eq_finished hr w a rs h]
  simp only [Countdown.run, Machine.store, if_neg hr.ne_cg, UInt16.zero_and, Machine.setPc, Machine.setFlag]

/-- With loops run as one step the jump is where the loop is run to its end. -/
theorem step?_back_collapsed (hr : Apart r) (hp : p.Ready) (hback : Instruction.decode p.memory p.pc = .ok back)
    (hbefore : Instruction.decode p.memory (p.pc - 2) = .ok (decrement w r)) (hcollapse : p.collapse = true)
    (hoverflow : p.registers.flag .overflow = false) (c : Console) :
    p.step? c = some ({ p with
      registers := finished w r (p.pc - 2) p.registers, executed := p.executed + 1 }, c) := by
  have hnext : p.pc - 2 + 4 = p.pc + 2 := by grind
  have hpc : (finished w r (p.pc - 2) p.registers).pc = p.pc + 2 := by
    rw [finished, Registers.pc_setPc, hnext]
  have hoverflow' : (p.registers.setPc (p.pc + 2)).flag .overflow = false := by
    rw [Registers.flag_setPc, hoverflow]
  have hsize : p.pc + back.size = p.pc - 2 + 4 := by
    rw [hnext]
    rfl
  have heffect : (p.fetched back).effect = some
      { registers := finished w r (p.pc - 2) p.registers, memory := p.memory } := by
    rw [p.effect_of_countdown?_eq_some ((p.countdown?_of_collapse hcollapse).trans (find?_back hr hbefore)), hsize,
      run_eq_finished hr hoverflow', finished_congr hr w (p.pc - 2) _ (agree_setPc r (p.pc + 2) p.registers)]
  rw [Processor.step?_of_decode hp hback heffect, p.settle_sequential hpc, hsize]
  simp only [finished, Registers.setPc_setPc]

end

/-! ### Turns -/

theorem isHalted_of_rest_eq (p q : Processor) (h : p.registers.rest = q.registers.rest) :
    p.isHalted = q.isHalted := by
  have hsr : ∀ rs : Registers, rs.sr &&& Status.haltMask = rs.rest &&& Status.haltMask := fun rs => by
    rw [Registers.rest, UInt16.and_assoc]
    rfl
  rw [Processor.isHalted, Processor.isHalted, hsr, hsr, h]

/-- The state between the decrement and the jump. -/
def between (w : Width) (r : Register) (p : Processor) : Processor :=
  { p with
    registers := (lowered w r (p.registers.setPc (p.pc + 2))).setPc (p.pc + 2), executed := p.executed + 1 }

/-- The state after a turn that is not the last. -/
def turned (w : Width) (r : Register) (p : Processor) : Processor :=
  { p with
    registers := (lowered w r (p.registers.setPc (p.pc + 2))).setPc p.pc
    blockStart := p.pc, executed := p.executed + 2 }

/-- The state after the loop but for the number of executed instructions and the start of the block. -/
def left (w : Width) (r : Register) (p : Processor) (blockStart : UInt16) (executed : Nat) : Processor :=
  { p with registers := finished w r p.pc p.registers, blockStart := blockStart, executed := executed }

theorem pc_between (w : Width) (r : Register) (p : Processor) : (between w r p).pc = p.pc + 2 :=
  Registers.pc_setPc _ _

theorem pc_turned (w : Width) (r : Register) (p : Processor) : (turned w r p).pc = p.pc :=
  Registers.pc_setPc _ _

theorem pc_left (w : Width) (r : Register) (p : Processor) (b : UInt16) (n : Nat) :
    (left w r p b n).pc = p.pc + 4 :=
  Registers.pc_setPc _ _

/-- A program is at a loop that it can go through. -/
structure At (w : Width) (r : Register) (p : Processor) : Prop where
  loop : Loop p.memory p.pc w r
  locked : p.unlocked = false
  running : p.isHalted = false

namespace At

variable {p : Processor} {w : Width} {r : Register} (h : At w r p)
include h

theorem apart : Apart r := apart_of_counter h.loop.counter

theorem ready : p.Ready where
  locked := h.locked
  running := h.running
  away := h.loop.off_gate.2

theorem agree_lowered (a : UInt16) :
    Agree r ((lowered w r (p.registers.setPc (p.pc + 2))).setPc a) p.registers :=
  (agree_setPc r a _).trans ((Countdown.agree_lowered h.apart w _).trans (agree_setPc r _ _))

theorem value_turned : value w r (turned w r p).registers = (value w r p.registers + w.mask.toNat) % w.size := by
  rw [turned, value_setPc h.apart, value_lowered, value_setPc h.apart]

theorem turned : At w r (turned w r p) where
  loop := by
    rw [pc_turned]
    exact h.loop
  locked := h.locked
  running := (isHalted_of_rest_eq (Countdown.turned w r p) p (h.agree_lowered p.pc).rest).trans h.running

theorem finished_turned : finished w r p.pc (Countdown.turned w r p).registers = finished w r p.pc p.registers :=
  finished_congr h.apart w p.pc _ (h.agree_lowered p.pc)

theorem ready_between : (between w r p).Ready where
  locked := h.locked
  running := (isHalted_of_rest_eq (between w r p) p (h.agree_lowered (p.pc + 2)).rest).trans h.running
  away := by
    rw [pc_between]
    have hoff := h.loop.off_gate.1
    intro heq
    apply hoff
    rw [Gate.address] at heq
    grind

theorem back_between : Instruction.decode (between w r p).memory (between w r p).pc = .ok back := by
  rw [pc_between]
  exact h.loop.second

theorem flag_between (f : Flag) :
    (between w r p).registers.flag f =
      (p.registers.setResult w (value w r p.registers + w.mask.toNat)).flag f := by
  rw [between, Registers.flag_setPc, flag_lowered h.apart, value_setPc h.apart, Registers.flag_setResult,
    Registers.flag_setResult]

theorem step?_first (c : Console) : p.step? c = some (between w r p, c) := step?_decrement h.ready h.loop c

theorem step?_taken (hcollapse : p.collapse = false)
    (hvalue : (value w r p.registers + w.mask.toNat) % w.size ≠ 0) (c : Console) :
    (between w r p).step? c = some (Countdown.turned w r p, c) := by
  have hzero : (between w r p).registers.flag .zero = false := by
    rw [h.flag_between, Registers.flag_setResult]
    exact beq_false_of_ne hvalue
  have hpc : p.pc + 2 - 2 = p.pc := by grind
  rw [step?_back_taken h.ready_between h.back_between hcollapse hzero, pc_between, hpc]
  simp only [between, Registers.setPc_setPc]
  rfl

theorem step?_last (hcollapse : p.collapse = false) (hvalue : value w r p.registers + w.mask.toNat = w.size)
    (c : Console) :
    (between w r p).step? c = some (left w r p p.blockStart (p.executed + 2), c) := by
  have hzero : (between w r p).registers.flag .zero = true := by
    rw [h.flag_between, Registers.flag_setResult, hvalue, Nat.mod_self]
    rfl
  have hpc : p.pc + 2 + 2 = p.pc + 4 := by grind
  have hfinished : (lowered w r (p.registers.setPc (p.pc + 2))).setPc (p.pc + 4) = finished w r p.pc p.registers := by
    rw [setPc_lowered (by rwa [value_setPc h.apart]), finished_congr h.apart w p.pc _ (agree_setPc r _ _)]
  rw [step?_back_left h.ready_between h.back_between hcollapse hzero, pc_between, hpc]
  simp only [between, Registers.setPc_setPc, hfinished]
  rfl

theorem step?_collapsed (hcollapse : p.collapse = true) (c : Console) :
    (between w r p).step? c = some (left w r p p.blockStart (p.executed + 2), c) := by
  have hpc : p.pc + 2 - 2 = p.pc := by grind
  have hbefore : Instruction.decode (between w r p).memory ((between w r p).pc - 2) = .ok (decrement w r) := by
    rw [pc_between, hpc]
    exact h.loop.first
  have hoverflow : (between w r p).registers.flag .overflow = false := by
    rw [h.flag_between, Registers.flag_setResult]
  have hfinished : finished w r p.pc (between w r p).registers = finished w r p.pc p.registers :=
    finished_congr h.apart w p.pc _ (h.agree_lowered (p.pc + 2))
  rw [step?_back_collapsed h.apart h.ready_between h.back_between hbefore hcollapse hoverflow, pc_between, hpc,
    hfinished]
  rfl

end At

/-! ### Runs -/

section

variable {w : Width} {r : Register}

theorem left_turned {p : Processor} (h : At w r p) (b : UInt16) (n : Nat) :
    left w r (turned w r p) b n = left w r p b n := by
  rw [left, pc_turned, h.finished_turned]
  rfl

theorem run?_turn {p : Processor} (h : At w r p) (hcollapse : p.collapse = false)
    (hvalue : (value w r p.registers + w.mask.toNat) % w.size ≠ 0) (n : Nat) (c : Console) :
    p.run? (n + 2) c = (turned w r p).run? n c := by
  rw [Processor.run?_succ (h.step?_first c), Processor.run?_succ (h.step?_taken hcollapse hvalue c)]

/-- All turns of a loop, of which there is one less to go after each. -/
theorem run?_loop {n : Nat} {p : Processor} (h : At w r p) (hcollapse : p.collapse = false)
    (hn : turns w (value w r p.registers) = n + 1) (c : Console) :
    ∃ b, p.run? (2 * (n + 1)) c = some (left w r p b (p.executed + 2 * (n + 1)), c) := by
  -- the state after a turn is at the same loop, so only the number of turns changes
  induction n generalizing p with
  | zero =>
    refine ⟨p.blockStart, ?_⟩
    rw [Processor.run?_succ (h.step?_first c), Processor.run?_succ (h.step?_last hcollapse (mod_eq_zero hn) c)]
    rfl
  | succ n ih =>
    obtain ⟨hturns, hvalue⟩ := turns_pred (value_lt w r p.registers) hn
    rw [← h.value_turned] at hturns
    obtain ⟨b, hb⟩ := ih h.turned hcollapse hturns
    refine ⟨b, ?_⟩
    have hexecuted : (turned w r p).executed + 2 * (n + 1) = p.executed + 2 * (n + 1 + 1) := by
      change p.executed + 2 + 2 * (n + 1) = _
      omega
    rw [left_turned h, hexecuted] at hb
    exact (run?_turn h hcollapse hvalue (2 * (n + 1)) c).trans hb

theorem run?_lt_two {j : Nat} {p : Processor} (h : At w r p) (hj : j < 2) (c : Console) :
    ∃ q, p.run? j c = some (q, c) ∧ (q.pc = p.pc ∨ q.pc = p.pc + 2) := by
  obtain rfl | rfl : j = 0 ∨ j = 1 := by omega
  · exact ⟨p, rfl, .inl rfl⟩
  · exact ⟨between w r p, Processor.run?_succ (h.step?_first c), .inr (pc_between w r p)⟩

/-- Until then the program does not leave the loop. -/
theorem run?_inside {n j : Nat} {p : Processor} (h : At w r p) (hcollapse : p.collapse = false)
    (hn : turns w (value w r p.registers) = n + 1) (hj : j < 2 * (n + 1)) (c : Console) :
    ∃ q, p.run? j c = some (q, c) ∧ (q.pc = p.pc ∨ q.pc = p.pc + 2) := by
  induction n generalizing p j with
  | zero => exact run?_lt_two h hj c
  | succ n ih =>
    obtain ⟨hturns, hvalue⟩ := turns_pred (value_lt w r p.registers) hn
    rw [← h.value_turned] at hturns
    rcases Nat.lt_or_ge j 2 with hlt | hge
    · exact run?_lt_two h hlt c
    · obtain ⟨j, rfl⟩ := Nat.exists_eq_add_of_le' hge
      rw [run?_turn h hcollapse hvalue, ← pc_turned w r p]
      exact ih h.turned hcollapse hturns (by omega)

/-- A loop that runs as one step after its first decrement comes to the same as all of its turns, but for the
    number of executed instructions and the start of the block. -/
theorem run?_collapsed_eq {p : Processor} (h : At w r p) (c : Console) :
    ∃ fast slow, Processor.run? 2 { p with collapse := true } c = some (fast, c) ∧
      Processor.run? (2 * turns w (value w r p.registers)) { p with collapse := false } c = some (slow, c) ∧
      fast = { slow with executed := fast.executed, blockStart := fast.blockStart, collapse := true } ∧
      fast.pc = p.pc + 4 ∧
      ∀ j < 2 * turns w (value w r p.registers), ∃ q,
        Processor.run? j { p with collapse := false } c = some (q, c) ∧ (q.pc = p.pc ∨ q.pc = p.pc + 2) := by
  obtain ⟨n, hn⟩ : ∃ n, turns w (value w r p.registers) = n + 1 := Nat.exists_eq_add_one.mpr (turns_pos w _)
  have hfast : At w r { p with collapse := true } := ⟨h.loop, h.locked, h.running⟩
  have hslow : At w r { p with collapse := false } := ⟨h.loop, h.locked, h.running⟩
  have htwo : Processor.run? 2 { p with collapse := true } c =
      some (left w r { p with collapse := true } p.blockStart (p.executed + 2), c) := by
    rw [Processor.run?_succ (hfast.step?_first c), Processor.run?_succ (hfast.step?_collapsed rfl c), Processor.run?]
  obtain ⟨b, hb⟩ := run?_loop hslow rfl hn c
  rw [hn]
  exact ⟨_, _, htwo, hb, rfl, pc_left _ _ _ _ _, fun j hj => run?_inside hslow rfl hn hj c⟩

/-- A counter of a byte that is zero turns the loop 256 times. -/
theorem run?_collapsed_eq_from_zero :
    let p : Processor := { Processor.start (Memory.zero.writeWords 0x4400 [0x5375, 0x23fe]) with
      registers := Registers.zero.setPc 0x4400 }
    At .byte 5 p ∧ ∃ fast slow, Processor.run? 2 { p with collapse := true } {} = some (fast, {}) ∧
      Processor.run? 512 { p with collapse := false } {} = some (slow, {}) ∧
      fast.registers = slow.registers ∧ fast.pc = 0x4404 := by
  intro p
  have hat : At .byte 5 p :=
    { loop :=
        { counter := .inr (by decide)
          first := by decide +kernel
          second := by decide +kernel
          off_gate := by decide +kernel }
      locked := rfl
      running := by decide +kernel }
  have hturns : turns .byte (value .byte 5 p.registers) = 256 := by decide +kernel
  obtain ⟨fast, slow, hfast, hslow, heq, hpc, -⟩ := run?_collapsed_eq hat {}
  rw [hturns] at hslow
  refine ⟨hat, fast, slow, hfast, hslow, ?_, hpc⟩
  rw [heq]

end

end MicroDebug.Countdown

import MicroDebug.Proofs.Processor.ProgramCounter

/-! What jumps leave alone. A jump that is executed as a jump changes the program counter at most. One that runs a
    whole loop changes the counter of the loop and three flags, also if it would not be taken. The counter is no
    place in memory unless the decrement before the jump is so long that the jump is its second word. -/

namespace MicroDebug

namespace Registers

theorem setPc_self {rs : Registers} {w : UInt16} (h : rs.pc = w) : rs.setPc w = rs := by
  rw [← h]
  exact rs.set_get Register.pc

theorem setFlag_self {rs : Registers} {f : Flag} {on : Bool} (h : rs.flag f = on) : rs.setFlag f on = rs := by
  refine ext_flags (fun q hq => rs.get_setFlag hq f on) (fun g => ?_) (rs.rest_setFlag f on)
  rw [flag_setFlag]
  split
  · next hg => rw [← hg, h]
  · rfl

end Registers

/-! ### Decrements before a jump -/

namespace Countdown

/-- The word before `a` starts a decrement of `y`, which is not the program counter. -/
structure Decrements (m : Memory) (a : UInt16) (w : Width) (y : Operand) (size : UInt16) : Prop where
  decode : Instruction.decode m (a - 2) = .ok
    { operation := .binary .add, width := w
      operands := .two { mode := .autoincrement, reg := Register.cg } y, size := size }
  target : ¬(y.mode = .register ∧ y.reg = Register.pc)

/-- The loop that counts `y` down. -/
def counting (m : Machine) (w : Width) (y : Operand) : Countdown :=
  { place := m.locate y w, width := w, remaining := m.load (m.locate y w) w }

theorem find?_eq_some_iff {m : Machine} {a : UInt16} {i : Instruction} {d : Countdown} :
    find? m a i = some d ↔
      closes i = true ∧ ∃ w y size, Decrements m.memory a w y size ∧ d = counting m w y := by
  have hminus : Operand.constant? (-1) = some { mode := .autoincrement, reg := Register.cg } := rfl
  rw [find?]
  constructor
  · intro h
    split at h
    · next hcloses =>
      split at h
      · cases h
      · next before hbefore =>
        split at h
        · next x y hop hxs =>
          split at h
          · next hxy =>
            cases h
            obtain ⟨hx, hy⟩ := hxy
            obtain ⟨op, w, operands, size⟩ := before
            cases hop
            cases hxs
            cases hminus.symm.trans hx
            exact ⟨hcloses, w, y, size, ⟨hbefore, hy⟩, rfl⟩
          · cases h
        · cases h
    · cases h
  · rintro ⟨hcloses, w, y, size, ⟨hdecode, htarget⟩, rfl⟩
    simp only [hcloses, if_true, hdecode, hminus, htarget, not_false_eq_true, and_self]
    rfl

theorem locate_of_needsExtension {y : Operand} (hmode : y.mode = .indexed) (hreg : y.reg ≠ Register.cg) (n : Machine)
    (w : Width) : ∃ b, n.locate y w = .memory b := by
  by_cases hsr : y.reg = Register.sr
  · exact ⟨y.extension, by simp [Machine.locate, Operand.literal?, hmode, hsr]⟩
  · exact ⟨n.registers.get y.reg + y.extension, by simp [Machine.locate, Operand.literal?, hmode, hreg, hsr]⟩

theorem locate_of_not_needsExtension {y : Operand} (hmode : y.mode = .register ∨ y.mode = .indexed ∧ y.reg = Register.cg)
    (n : Machine) (w : Width) : (∃ r, n.locate y w = .register r) ∨ ∃ v, n.locate y w = .value v := by
  have hsr : Register.cg ≠ Register.sr := by decide
  rcases hmode with hmode | ⟨hmode, hreg⟩
  · by_cases hcg : y.reg = Register.cg
    · exact .inr ⟨_, by rw [Machine.locate, Operand.literal?, hcg, if_neg hsr, if_pos rfl, hmode]⟩
    · exact .inl ⟨y.reg, by simp [Machine.locate, Operand.literal?, hmode, hcg]⟩
  · exact .inr ⟨_, by rw [Machine.locate, Operand.literal?, hreg, if_neg hsr, if_pos rfl, hmode]⟩

section

variable {m : Memory} {a : UInt16} {w : Width} {y : Operand} {size : UInt16} (h : Decrements m a w y size)
include h

/-- A decrement is one word long and its counter is not in memory, or `a` is where its second word lies and its
    counter is in memory. -/
theorem Decrements.cases :
    (size = 2 ∧ ∀ n : Machine, (∃ r, n.locate y w = .register r) ∨ ∃ v, n.locate y w = .value v) ∨
    (size = 4 ∧ y.ext = some (m.readWord a) ∧ ∀ n : Machine, ∃ b, n.locate y w = .memory b) := by
  obtain ⟨hwf, -, v, rest, hencode, -, hholds⟩ := Instruction.decode_eq_ok_iff.mp h.decode
  have hsize := hwf.size _ hencode
  obtain ⟨bit, hbit, hwords⟩ := Option.map_eq_some_iff.mp hencode
  obtain ⟨-, rfl⟩ := List.cons.inj hwords
  have hmode : y.mode = .register ∨ y.mode = .indexed := by
    cases hy : y.mode <;> simp_all [Mode.targetBit?]
  have hnone : Operand.words { mode := .autoincrement, reg := Register.cg } = [] := rfl
  rw [hnone, List.nil_append] at hholds hsize
  by_cases hneeds : Operand.NeedsExtension y.mode y.reg
  · right
    obtain ⟨hindexed, hreg⟩ : y.mode = .indexed ∧ y.reg ≠ Register.cg := by
      rcases hneeds with h | ⟨h, -⟩
      · exact h
      · rcases hmode with hmode | hmode <;> cases hmode.symm.trans h
    have hwords : y.words = [y.extension] := if_pos hneeds
    obtain ⟨e, he⟩ := Option.isSome_iff_exists.mp ((hwf.operands y (by simp [Operands.toList])).ext_iff.mpr hneeds)
    have hword : m.readWord (a - 2 + 2) = y.extension := by
      rw [hwords] at hholds
      exact hholds.1
    have ha : a - 2 + 2 = a := by grind
    refine ⟨?_, ?_, fun n => locate_of_needsExtension hindexed hreg n w⟩
    · rw [hwords] at hsize
      exact UInt16.toNat_inj.mp hsize
    · rw [← ha, hword, Operand.extension, he]
      rfl
  · left
    have hwords : y.words = [] := if_neg hneeds
    refine ⟨?_, fun n => locate_of_not_needsExtension (hmode.imp_right fun hindexed => ⟨hindexed, ?_⟩) n w⟩
    · rw [hwords] at hsize
      exact UInt16.toNat_inj.mp hsize
    · by_contra hreg
      exact hneeds (.inl ⟨hindexed, hreg⟩)

end

/-- The loop has already been run: its counter is zero and the flags are those of its last decrement. -/
structure Spent (d : Countdown) (m : Machine) : Prop where
  counter : m.store d.place 0 d.width = m
  zero : m.flag .zero = true
  negative : m.flag .negative = false
  carry : m.flag .carry = true

theorem Spent.run {d : Countdown} {m : Machine} (h : d.Spent m) : d.run m m.registers.pc = m := by
  obtain ⟨registers, memory⟩ := m
  have hzero : registers.setFlag .zero true = registers := Registers.setFlag_self h.zero
  have hnegative : registers.setFlag .negative false = registers := Registers.setFlag_self h.negative
  have hcarry : registers.setFlag .carry true = registers := Registers.setFlag_self h.carry
  simp only [Countdown.run, h.counter, Machine.setPc, Machine.setFlag, Registers.setPc_self, hzero, hnegative, hcarry]

end Countdown

theorem Machine.holds_setPc (m : Machine) (a : UInt16) (cond : Condition) :
    (m.setPc a).holds cond = m.holds cond := by
  cases cond <;> simp only [Machine.holds, Machine.flag, Machine.setPc, Registers.flag_setPc]

namespace Processor

/-! ### A step at a jump -/

/-- Registers and memory while the instruction at the program counter takes effect. -/
def past (p : Processor) : Machine := { registers := p.registers.setPc (p.pc + 2), memory := p.memory }

theorem pc_past (p : Processor) : p.past.registers.pc = p.pc + 2 := Registers.pc_setPc _ _

theorem holds_past (p : Processor) (cond : Condition) : p.past.holds cond = p.holds cond :=
  p.toMachine.holds_setPc (p.pc + 2) cond

theorem effect_binary (p : Processor) (op : BinaryOp) (width : Width) (x y : Operand) (size : UInt16) :
    (p.fetched ⟨.binary op, width, .two x y, size⟩).effect = some (p.past.executeBinary op x y width) := by
  rw [p.effect_of_countdown?_eq_none (Fetched.countdown?_eq_none fun h => by cases h)]
  rfl

/-- The jump `i` at the program counter is where a loop that counts `y` down is run to its end. -/
structure Collapses (p : Processor) (i : Instruction) (w : Width) (y : Operand) (size : UInt16) : Prop
    extends Countdown.Decrements p.memory p.pc w y size where
  collapse : p.collapse = true
  closes : Countdown.closes i = true

theorem countdown?_eq_some_iff {p : Processor} {i : Instruction} {d : Countdown} :
    (p.fetched i).countdown? = some d ↔ ∃ w y size, p.Collapses i w y size ∧ d = Countdown.counting p.past w y := by
  cases hcollapse : p.collapse with
  | false =>
    rw [p.countdown?_of_not_collapse hcollapse]
    refine ⟨fun h => (by cases h), ?_⟩
    rintro ⟨w, y, size, h, -⟩
    cases hcollapse.symm.trans h.collapse
  | true =>
    rw [p.countdown?_of_collapse hcollapse, Countdown.find?_eq_some_iff]
    constructor
    · rintro ⟨hcloses, w, y, size, h, rfl⟩
      exact ⟨w, y, size, ⟨h, hcollapse, hcloses⟩, rfl⟩
    · rintro ⟨w, y, size, h, rfl⟩
      exact ⟨h.closes, w, y, size, h.toDecrements, rfl⟩

theorem memory_settle (f : Fetched) (m : Machine) : (f.settle m).memory = m.memory := by
  simp only [Fetched.settle]
  split <;> rfl

/-- A program that has ended is not stepped. -/
theorem stepWatched_of_ended {σ : Type} (watch : Watcher σ) (s : σ) (c : Console) {p : Processor}
    (h : p.unlocked = true ∨ p.isHalted = true) : (p.stepWatched watch s c).processor = p := by
  simp only [stepWatched, fetch]
  cases hunlocked : p.unlocked with
  | true => rfl
  | false =>
    have hrunning := h.resolve_left (by rw [hunlocked]; exact Bool.false_ne_true)
    rw [hrunning]
    rfl

section

variable {σ : Type} (watch : Watcher σ) (s : σ) (c : Console) {p : Processor} {i : Instruction}
  (hi : Instruction.decode p.memory p.pc = .ok i)
include hi

/-- The watcher fails when the instruction is fetched, or the instruction takes effect. -/
theorem stepWatched_of_decode (hp : p.Ready) :
    ((watch s (p.fetched i).processor (p.fetched i).event).1 ≠ .ok () ∧
      (p.stepWatched watch s c).processor = (p.fetched i).processor) ∨
    ((watch s (p.fetched i).processor (p.fetched i).event).1 = .ok () ∧ ∃ m, (p.fetched i).effect = some m ∧
      (p.stepWatched watch s c).processor = (p.fetched i).settle m) := by
  obtain ⟨stopped, d, hfetch, -⟩ | ⟨f, d, reason, t, hfetch, -, hwatch, h⟩ | ⟨f, d, t, m, hfetch, -, hwatch, hm, h⟩ :=
    stepWatched_cases watch s p c
  all_goals
    rw [fetch_of_decode hp hi] at hfetch
    cases hfetch
  · exact .inl ⟨by rw [hwatch]; exact nofun, by rw [h]⟩
  · exact .inr ⟨by rw [hwatch], m, hm, by rw [h]⟩

variable {cond : Condition} (hop : i.operation = .jump cond)
include hop

theorem size_of_jump : i.size = 2 := by
  obtain ⟨-, -, -, hread⟩ := Instruction.decode_eq_ok_iff_read.mp hi
  rw [hop] at hread
  exact (congrArg Prod.snd hread).symm

theorem settle_jump {m : Machine} (hpc : m.registers.pc = p.pc + 2) :
    (p.fetched i).settle m = { p with toMachine := m, executed := p.executed + 1 } := by
  rw [p.settle_sequential hpc, size_of_jump hi hop, Registers.setPc_self hpc]

/-- A jump that runs no loop is taken or does nothing. -/
theorem effect_jump (hloop : ∀ w y size, ¬p.Collapses i w y size) :
    ∃ target, (p.fetched i).effect = some (if p.holds cond then p.past.setPc target else p.past) := by
  have hnone : (p.fetched i).countdown? = none := by
    cases hd : (p.fetched i).countdown? with
    | none => rfl
    | some d =>
      obtain ⟨w, y, size, h, -⟩ := countdown?_eq_some_iff.mp hd
      exact absurd h (hloop w y size)
  obtain ⟨op, width, operands, size⟩ := i
  obtain rfl : op = .jump cond := hop
  have hsuits := Instruction.suits_of_decode hi
  rw [p.effect_of_countdown?_eq_none hnone]
  cases operands with
  | one x => exact absurd hsuits id
  | two x y => exact absurd hsuits id
  | offset d => exact ⟨_, by rw [← p.holds_past]; rfl⟩

theorem effect_collapsed {w : Width} {y : Operand} {size : UInt16} (h : p.Collapses i w y size) :
    (p.fetched i).effect = some ((Countdown.counting p.past w y).run p.past (p.pc + 2)) := by
  rw [p.effect_of_countdown?_eq_some (countdown?_eq_some_iff.mpr ⟨w, y, size, h, rfl⟩), size_of_jump hi hop]
  rfl

/-- A jump that is not taken moves the program counter on and does nothing else, unless it runs a loop that is still
    to be run. A loop that it runs sets the counter to zero, whatever the flags are. -/
theorem stepWatched_untaken (hrunning : p.isHalted = false) (haway : p.pc ≠ Gate.address)
    (huntaken : p.holds cond = false) :
    let q := (p.stepWatched watch s c).processor
    (p.unlocked = true → q = p) ∧
    (p.unlocked = false →
      ((∀ w y size, p.Collapses i w y size → (Countdown.counting p.past w y).Spent p.past) →
        q = { p with registers := p.registers.setPc (p.pc + 2), executed := p.executed + 1 }) ∧
      ∀ w y size, p.Collapses i w y size → (watch s (p.fetched i).processor (p.fetched i).event).1 = .ok () →
        q = { p with
          toMachine := (Countdown.counting p.past w y).run p.past (p.pc + 2), executed := p.executed + 1 }) := by
  intro q
  refine ⟨fun hunlocked => ?_, fun hlocked => ?_⟩
  · simp only [q, stepWatched, fetch, hunlocked, if_true]
  have hp : p.Ready := ⟨hlocked, hrunning, haway⟩
  refine ⟨fun hspent => ?_, fun w y size h hwatch => ?_⟩
  · have heffect : (p.fetched i).effect = some p.past := by
      by_cases hloop : ∃ w y size, p.Collapses i w y size
      · obtain ⟨w, y, size, h⟩ := hloop
        rw [effect_collapsed hi hop h, ← pc_past, (hspent w y size h).run]
      · obtain ⟨target, heffect⟩ := effect_jump hi hop fun w y size h => hloop ⟨w, y, size, h⟩
        rw [heffect, huntaken]
        rfl
    obtain ⟨-, hq⟩ | ⟨-, m, hm, hq⟩ := stepWatched_of_decode watch s c hi hp
    · exact hq
    · cases heffect.symm.trans hm
      exact hq.trans (settle_jump hi hop (pc_past p))
  · obtain ⟨hfails, -⟩ | ⟨-, m, hm, hq⟩ := stepWatched_of_decode watch s c hi hp
    · exact absurd hwatch hfails
    · cases (effect_collapsed hi hop h).symm.trans hm
      exact hq.trans (settle_jump hi hop (Countdown.pc_run _ _ _))

theorem memory_effect_jump (hshort : ∀ w y, ¬p.Collapses i w y 4) {m : Machine} (hm : (p.fetched i).effect = some m) :
    m.memory = p.memory := by
  by_cases hloop : ∃ w y size, p.Collapses i w y size
  · obtain ⟨w, y, size, h⟩ := hloop
    cases (effect_collapsed hi hop h).symm.trans hm
    change (p.past.store (p.past.locate y w) 0 w).memory = p.memory
    obtain ⟨-, hplace⟩ | ⟨rfl, -⟩ := h.toDecrements.cases
    · obtain ⟨r, hr⟩ | ⟨v, hv⟩ := hplace p.past
      · rw [hr, Machine.store]
        split <;> rfl
      · rw [hv]
        rfl
    · exact absurd h (hshort w y)
  · obtain ⟨target, heffect⟩ := effect_jump hi hop fun w y size h => hloop ⟨w, y, size, h⟩
    cases heffect.symm.trans hm
    split <;> rfl

/-- A jump leaves memory as it is, unless it runs a loop whose decrement reads the jump as its second word. The
    counter of such a loop is in memory and is set to zero. -/
theorem memory_stepWatched_jump (haway : p.pc ≠ Gate.address) :
    let q := (p.stepWatched watch s c).processor
    ((∀ w y, ¬p.Collapses i w y 4) → q.memory = p.memory) ∧
      ∀ w y, p.Collapses i w y 4 → y.ext = some (p.memory.readWord p.pc) ∧
        ∃ a, p.past.locate y w = .memory a ∧
          (p.unlocked = false → p.isHalted = false →
            (watch s (p.fetched i).processor (p.fetched i).event).1 = .ok () →
            q.memory = (p.past.store (.memory a) 0 w).memory) := by
  intro q
  refine ⟨fun hshort => ?_, fun w y h => ?_⟩
  · by_cases hended : p.unlocked = true ∨ p.isHalted = true
    · exact congrArg (fun p : Processor => p.memory) (stepWatched_of_ended watch s c hended)
    · rw [not_or, Bool.not_eq_true, Bool.not_eq_true] at hended
      obtain ⟨-, hq⟩ | ⟨-, m, hm, hq⟩ := stepWatched_of_decode watch s c hi ⟨hended.1, hended.2, haway⟩
      · simp only [q, hq]
        rfl
      · simp only [q, hq, memory_settle]
        exact memory_effect_jump hi hop hshort hm
  · obtain ⟨hsize, -⟩ | ⟨-, hext, hplace⟩ := h.toDecrements.cases
    · cases hsize
    · obtain ⟨a, ha⟩ := hplace p.past
      refine ⟨hext, a, ha, fun hlocked hrunning hwatch => ?_⟩
      obtain ⟨hfails, -⟩ | ⟨-, m, hm, hq⟩ := stepWatched_of_decode watch s c hi ⟨hlocked, hrunning, haway⟩
      · exact absurd hwatch hfails
      · cases (effect_collapsed hi hop h).symm.trans hm
        simp only [q, hq, memory_settle, ← ha]
        rfl

end

/-- `jnz $-2` after `add #-1, r5`, which has made the register zero. -/
theorem stepWatched_untaken_spent :
    let p : Processor := { start (Memory.zero.writeWords 0x4400 [0x5335, 0x23fe]) with
      registers := (Registers.zero.setPc 0x4402).set Register.sr 0x0003 }
    p.collapse = true ∧ p.isHalted = false ∧ p.pc ≠ Gate.address ∧
      Instruction.decode p.memory p.pc = .ok ⟨.jump .notZero, .word, .offset (-2), 2⟩ ∧ p.holds .notZero = false ∧
      (p.step {}).processor = { p with registers := p.registers.setPc (p.pc + 2), executed := p.executed + 1 } := by
  intro p
  have hrunning : p.isHalted = false := by decide +kernel
  have haway : p.pc ≠ Gate.address := by decide +kernel
  have hi : Instruction.decode p.memory p.pc = .ok ⟨.jump .notZero, .word, .offset (-2), 2⟩ := by decide +kernel
  have huntaken : p.holds .notZero = false := by decide +kernel
  have hbefore : Instruction.decode p.memory (p.pc - 2) =
      .ok ⟨.binary .add, .word, .two ⟨.autoincrement, Register.cg, none⟩ (Operand.ofRegister 5), 2⟩ := by
    decide +kernel
  have hplace : p.past.locate (Operand.ofRegister 5) .word = .register 5 := by decide +kernel
  have hzero : p.past.registers.set 5 (0 &&& Width.word.mask) = p.past.registers := by decide +kernel
  have hcounter : p.past.store (p.past.locate (Operand.ofRegister 5) .word) 0 .word = p.past := by
    rw [hplace, Machine.store, if_neg (by decide), hzero]
  refine ⟨rfl, hrunning, haway, hi, huntaken, ?_⟩
  obtain ⟨-, h⟩ := stepWatched_untaken Watcher.none () {} hi rfl hrunning haway huntaken
  refine (h rfl).1 fun w y size hloop => ?_
  cases hloop.decode.symm.trans hbefore
  exact ⟨hcounter, by decide +kernel, by decide +kernel, by decide +kernel⟩

/-- With the zero flag set but three in the register the same jump is not taken, and the register is set to zero. -/
theorem stepWatched_untaken_unspent :
    let p : Processor := { start (Memory.zero.writeWords 0x4400 [0x5335, 0x23fe]) with
      registers := ((Registers.zero.setPc 0x4402).set 5 3).set Register.sr 0x0002 }
    p.unlocked = false ∧ p.isHalted = false ∧ p.pc ≠ Gate.address ∧
      Instruction.decode p.memory p.pc = .ok ⟨.jump .notZero, .word, .offset (-2), 2⟩ ∧ p.holds .notZero = false ∧
      p.registers.get 5 = 3 ∧ (p.step {}).processor.registers.get 5 = 0 ∧
      p.registers.sr = 0x0002 ∧ (p.step {}).processor.registers.sr = 0x0003 := by
  decide +kernel

/-- `jnz $-2` after `add #-1, r5` runs the loop without writing memory. -/
theorem memory_stepWatched_jump_collapsed :
    let p : Processor := { start (Memory.zero.writeWords 0x4400 [0x5335, 0x23fe]) with
      registers := (Registers.zero.setPc 0x4402).set 5 3 }
    p.collapse = true ∧ p.pc ≠ Gate.address ∧
      Instruction.decode p.memory p.pc = .ok ⟨.jump .notZero, .word, .offset (-2), 2⟩ ∧
      (p.step {}).processor.registers.get 5 = 0 ∧ (p.step {}).processor.memory = p.memory := by
  intro p
  have haway : p.pc ≠ Gate.address := by decide +kernel
  have hi : Instruction.decode p.memory p.pc = .ok ⟨.jump .notZero, .word, .offset (-2), 2⟩ := by decide +kernel
  have hbefore : Instruction.decode p.memory (p.pc - 2) =
      .ok ⟨.binary .add, .word, .two ⟨.autoincrement, Register.cg, none⟩ (Operand.ofRegister 5), 2⟩ := by
    decide +kernel
  refine ⟨rfl, haway, hi, by decide +kernel, ?_⟩
  refine (memory_stepWatched_jump Watcher.none () {} hi rfl haway).1 fun w y hloop => ?_
  cases hloop.decode.symm.trans hbefore

/-- `add #-1, &0x23fe` has the jump for its second word, and a step at the jump sets the word at `0x23fe` to zero. -/
theorem memory_stepWatched_jump_overlapped :
    let p : Processor := { start ((Memory.zero.writeWords 0x4400 [0x53b2, 0x23fe]).writeWord 0x23fe 0x1234) with
      registers := Registers.zero.setPc 0x4402 }
    p.pc ≠ Gate.address ∧ Instruction.decode p.memory p.pc = .ok ⟨.jump .notZero, .word, .offset (-2), 2⟩ ∧
      p.memory.readWord 0x23fe = 0x1234 ∧ (p.step {}).processor.memory.readWord 0x23fe = 0 := by
  decide +kernel

end Processor
end MicroDebug

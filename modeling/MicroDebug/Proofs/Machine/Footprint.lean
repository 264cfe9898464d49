import MicroDebug.Proofs.Machine.Stores

/-! What an instruction may change. An operation sets some flags and stores at most one value, in its last operand;
    besides, the registers of operands move on, and a push or a call puts a word on the stack. Everything else stays as
    it is, and so do the bits of the status register that are no flags. -/

namespace MicroDebug

open Registers (slot)

/-! ### What an instruction names -/

namespace Operation

/-- Whether the operation stores a value in its last operand. -/
def writes : Operation → Bool
  | .binary .cmp | .binary .bit | .unary .push | .unary .call | .unary .reti | .jump _ => false
  | .binary _ | .unary _ => true

/-- Whether the operation puts a word on the stack. -/
def pushes : Operation → Bool
  | .unary .push | .unary .call => true
  | _ => false

/-- The flags that the operation may set or clear. -/
def flags : Operation → List Flag
  | .binary .mov | .binary .bic | .binary .bis => []
  | .binary .dadd => [.carry, .negative]
  | .binary _ | .unary .sxt => Flag.all
  | .unary .rrc => [.carry, .zero, .negative]
  | .unary .rra => [.zero, .negative]
  | .unary _ | .jump _ => []

end Operation

namespace Instruction

/-- The operand that the instruction stores a value in. -/
def target? (i : Instruction) : Option Operand :=
  if i.operation.writes then i.operands.toList.getLast? else none

/-- The instruction stores a value in a register. -/
def Targets (i : Instruction) (r : Register) : Prop := i.target? = some (Operand.ofRegister r)

instance (i : Instruction) (r : Register) : Decidable (i.Targets r) := inferInstanceAs (Decidable (_ = _))

/-- The instruction moves a register on that it reads memory at. A return from an interrupt uses no operand. -/
def MovesOn (i : Instruction) (r : Register) : Prop :=
  i.operation ≠ .unary .reti ∧
    ∃ x ∈ i.operands.toList, x.mode = .autoincrement ∧ x.literal? = none ∧ x.reg = r

instance (i : Instruction) (r : Register) : Decidable (i.MovesOn r) := inferInstanceAs (Decidable (_ ∧ _))

/-- The instruction may change a register, besides the program counter and the status register. -/
def Changes (i : Instruction) (r : Register) : Prop :=
  i.Targets r ∨ i.MovesOn r ∨ i.operation.pushes ∧ r = Register.sp

instance (i : Instruction) (r : Register) : Decidable (i.Changes r) := inferInstanceAs (Decidable (_ ∨ _))

end Instruction

/-- The addresses of the bytes that a value takes at a place. -/
def Place.addresses : Place → Width → List UInt16
  | .memory a, .byte => [a]
  | .memory a, .word => [a, a + 1]
  | .register _, _ | .value _, _ => []

namespace Machine

/-- The place that an instruction stores a value in, which is found once the register of its source has moved on. -/
def targetPlace? (m : Machine) (i : Instruction) : Option Place :=
  if i.operation.writes then
    match i.operands with
    | .one x => some (m.locate x i.width)
    | .two x y => some ((m.advance x).locate y i.width)
    | .offset _ => none
  else none

/-- The addresses of the bytes in memory that an instruction may change. -/
def reached (m : Machine) (i : Instruction) : List UInt16 :=
  if i.operation.pushes then [m.registers.sp - 2, m.registers.sp - 1]
  else ((m.targetPlace? i).map (·.addresses i.width)).getD []

/-- The second machine is the first but for what an instruction may change. -/
structure ChangedBy (i : Instruction) (m n : Machine) : Prop where
  memory : ∀ a ∉ m.reached i, n.memory.readByte a = m.memory.readByte a
  get : ∀ r ≤ 15, r ≠ Register.pc → r ≠ Register.sr → ¬i.Changes r → n.registers.get r = m.registers.get r
  rest : ¬i.Targets Register.sr → n.registers.rest = m.registers.rest
  flag : ¬i.Targets Register.sr → ∀ f ∉ i.operation.flags, n.flag f = m.flag f

end Machine

theorem Operand.WellFormed.eq_ofRegister {x : Operand} (hx : x.WellFormed) (h : x.mode = .register) :
    x = ofRegister x.reg := by
  obtain ⟨mode, r, ext⟩ := x
  obtain rfl : mode = .register := h
  have hnone : ext = none := by
    rw [← Option.not_isSome_iff_eq_none, hx.ext_iff]
    simp [Operand.NeedsExtension]
  rw [hnone]
  rfl

namespace Machine

/-! ### Stores -/

section

variable (m : Machine) (p : Place) (v : UInt16) (width : Width)

theorem readByte_store {a : UInt16} (h : a ∉ p.addresses width) :
    (m.store p v width).memory.readByte a = m.memory.readByte a := by
  cases p with
  | register r =>
    simp only [store]
    split <;> rfl
  | memory b =>
    cases width with
    | word =>
      simp only [Place.addresses, List.mem_cons, List.not_mem_nil, or_false, not_or] at h
      exact Memory.readByte_writeWord_of_ne _ _ (Ne.symm h.1) (Ne.symm h.2)
    | byte =>
      simp only [Place.addresses, List.mem_cons, List.not_mem_nil, or_false] at h
      simp only [store, Memory.readByte_writeByte, if_neg (Ne.symm h)]
  | value w => rfl

theorem get_store {q : Register} (h : ∀ r, p = .register r → slot r ≠ slot q) :
    (m.store p v width).registers.get q = m.registers.get q := by
  cases p with
  | register r =>
    simp only [store]
    split
    · rfl
    · exact (m.registers.get_set r q _).trans (if_neg (h r rfl))
  | memory a => cases width <;> rfl
  | value w => rfl

end

theorem flag_congr {m n : Machine} (h : n.registers.sr = m.registers.sr) (f : Flag) : n.flag f = m.flag f := by
  rw [flag, Registers.flag, h, flag, Registers.flag]

section

variable (m : Machine) {p : Place} (hp : ∀ r, p = .register r → slot r ≠ slot Register.sr) (v : UInt16) (width : Width)
include hp

theorem flag_store (f : Flag) : (m.store p v width).flag f = m.flag f := flag_congr (m.get_store p v width hp) f

theorem rest_store : (m.store p v width).registers.rest = m.registers.rest :=
  congrArg (· &&& Flag.restMask) (m.get_store p v width hp)

end

/-! ### One change after another -/

namespace ChangedBy

variable {i : Instruction} {m n : Machine}

theorem refl (i : Instruction) (m : Machine) : ChangedBy i m m :=
  ⟨fun _ _ => rfl, fun _ _ _ _ _ => rfl, fun _ => rfl, fun _ _ _ => rfl⟩

variable (h : ChangedBy i m n)
include h

theorem setFlag {f : Flag} (hf : f ∈ i.operation.flags) (on : Bool) : ChangedBy i m (n.setFlag f on) where
  memory := h.memory
  get := fun r hr hpc hsr hi => by
    have hslot : slot Register.sr ≠ slot r := mt (Registers.slot_eq_iff (by decide) hr).mp (Ne.symm hsr)
    exact (n.registers.get_setFlag hslot f on).trans (h.get r hr hpc hsr hi)
  rest := fun hi => (n.registers.rest_setFlag f on).trans (h.rest hi)
  flag := fun hi g hg => by
    have hne : f ≠ g := fun hfg => hg (hfg ▸ hf)
    exact ((n.registers.flag_setFlag f g on).trans (if_neg hne)).trans (h.flag hi g hg)

theorem setResult (hi : i.operation.flags = Flag.all) (width : Width) (result : Nat) :
    ChangedBy i m (n.setResult width result) := by
  have hmem : ∀ f, f ∈ i.operation.flags := fun f => by
    rw [hi]
    cases f <;> decide
  exact (((h.setFlag (hmem .negative) _).setFlag (hmem .zero) _).setFlag (hmem .carry) _).setFlag (hmem .overflow) _

theorem setPc (w : UInt16) : ChangedBy i m (n.setPc w) where
  memory := h.memory
  get := fun r hr hpc hsr hi => by
    have hslot : slot Register.pc ≠ slot r := mt (Registers.slot_eq_iff (by decide) hr).mp (Ne.symm hpc)
    exact ((n.registers.get_set Register.pc r w).trans (if_neg hslot)).trans (h.get r hr hpc hsr hi)
  rest := fun hi => (n.registers.rest_setPc w).trans (h.rest hi)
  flag := fun hi f hf => (n.registers.flag_setPc w f).trans (h.flag hi f hf)

theorem advance {x : Operand} (hx : x.WellFormed) (hmem : x ∈ i.operands.toList) (hop : i.operation ≠ .unary .reti) :
    ChangedBy i m (n.advance x) where
  memory := fun a ha => by rw [memory_advance, h.memory a ha]
  get := fun r hr hpc hsr hi => by
    rw [← h.get r hr hpc hsr hi, Machine.advance]
    split
    · next hmoves =>
      obtain ⟨hmode, hliteral, -, -⟩ := of_moves hmoves
      have hne : x.reg ≠ r := fun hreg => hi (.inr (.inl ⟨hop, x, hmem, hmode, hliteral, hreg⟩))
      exact (n.registers.get_set x.reg r _).trans (if_neg (mt (Registers.slot_eq_iff hx.reg_le hr).mp hne))
    · rfl
  rest := fun hi => by
    have hsr : (n.advance x).registers.sr = n.registers.sr := get_advance hx (.inr rfl) n
    rw [Registers.rest, hsr, ← Registers.rest, h.rest hi]
  flag := fun hi f hf => (flag_advance hx n f).trans (h.flag hi f hf)

/-- A store in the target changes what the instruction may change. -/
theorem store {p : Place} (hplace : m.targetPlace? i = some p) (hp : ∀ r, p = .register r → r ≤ 15 ∧ i.Targets r)
    (v : UInt16) : ChangedBy i m (n.store p v i.width) := by
  have hpushes : i.operation.pushes = false := by
    obtain ⟨op, width, operands, size⟩ := i
    cases op with
    | unary op => cases op <;> first | rfl | cases hplace
    | jump c | binary op => rfl
  have hsr : ¬i.Targets Register.sr → (n.store p v i.width).registers.sr = n.registers.sr := fun hi =>
    n.get_store p v i.width fun r hr => by
      obtain ⟨hle, htargets⟩ := hp r hr
      exact mt (Registers.slot_eq_iff hle (by decide)).mp fun hsr => hi (hsr ▸ htargets)
  refine ⟨fun a ha => ?_, fun r hr hpc hsr hi => ?_, fun hi => ?_, fun hi f hf => ?_⟩
  · have ha' : a ∉ p.addresses i.width := by
      simpa only [reached, hpushes, hplace, Bool.false_eq_true, if_false, Option.map_some, Option.getD_some] using ha
    exact (n.readByte_store p v i.width ha').trans (h.memory a ha)
  · refine (n.get_store p v i.width fun q hq => ?_).trans (h.get r hr hpc hsr hi)
    obtain ⟨hle, htargets⟩ := hp q hq
    exact mt (Registers.slot_eq_iff hle hr).mp fun hqr => hi (.inl (hqr ▸ htargets))
  · rw [Registers.rest, hsr hi, ← Registers.rest, h.rest hi]
  · exact (flag_congr (hsr hi) f).trans (h.flag hi f hf)

theorem push (hi : i.operation.pushes = true) (v : UInt16) :
    ChangedBy i m { n with memory := n.memory.writeWord (m.registers.sp - 2) v } where
  memory := fun a ha => by
    have hnext : m.registers.sp - 2 + 1 = m.registers.sp - 1 := by grind
    simp only [reached, hi, if_true, List.mem_cons, List.not_mem_nil, or_false, not_or] at ha
    rw [← h.memory a (by simp [reached, hi, ha])]
    exact Memory.readByte_writeWord_of_ne _ _ (Ne.symm ha.1) (by rw [hnext]; exact Ne.symm ha.2)
  get := h.get
  rest := h.rest
  flag := h.flag

theorem reserve (hi : i.operation.pushes = true) : ChangedBy i m n.reserve where
  memory := h.memory
  get := fun r hr hpc hsr hr' => by
    have hne : Register.sp ≠ r := fun hsp => hr' (.inr (.inr ⟨hi, hsp.symm⟩))
    have hslot : slot Register.sp ≠ slot r := mt (Registers.slot_eq_iff (by decide) hr).mp hne
    exact ((n.registers.get_set Register.sp r _).trans (if_neg hslot)).trans (h.get r hr hpc hsr hr')
  rest := fun ht => (n.registers.rest_set (by decide) _).trans (h.rest ht)
  flag := fun ht f hf => (n.registers.flag_set (by decide) _ f).trans (h.flag ht f hf)

end ChangedBy

/-! ### Instructions -/

section

variable (m : Machine) {width : Width} {x y : Operand} (size next : UInt16)

theorem targets_of_locate {i : Instruction} {n : Machine} (hy : y.WellFormed) (hi : i.target? = some y) {r : Register}
    (h : n.locate y width = .register r) : r ≤ 15 ∧ i.Targets r := by
  obtain ⟨hmode, rfl⟩ := locate_eq_register h
  refine ⟨hy.reg_le, ?_⟩
  rw [Instruction.Targets, hi]
  exact congrArg some (hy.eq_ofRegister hmode)

theorem changedBy_executeJump (c : Condition) (d : Int16) : ChangedBy ⟨.jump c, width, .offset d, size⟩ m
    (if m.holds c then m.setPc (Instruction.jumpTarget (m.registers.pc - 2) d) else m) := by
  split
  · exact (ChangedBy.refl _ m).setPc _
  · exact ChangedBy.refl _ m

theorem changedBy_executeUnary (op : UnaryOp) (hx : x.WellFormed) :
    ChangedBy ⟨.unary op, width, .one x, size⟩ m (m.executeUnary op x width next) := by
  have hmem : x ∈ (Operands.one x).toList := List.mem_singleton_self x
  have hrefl := ChangedBy.refl ⟨.unary op, width, .one x, size⟩ m
  have hflags {f : Flag} (h : f ∈ (Operation.unary op).flags) :
      f ∈ (Instruction.mk (.unary op) width (.one x) size).operation.flags := h
  have hsp : m.reserve.registers.sp = m.registers.sp - 2 :=
    (m.registers.get_set Register.sp Register.sp _).trans (if_pos rfl)
  cases op with
  | rrc =>
    have h := hrefl.advance hx hmem nofun
    exact (((h.setFlag (hflags (by decide)) _).setFlag (hflags (by decide)) _).setFlag (hflags (by decide)) _).store rfl
      (fun _ => targets_of_locate hx rfl) _
  | swpb => exact (hrefl.advance hx hmem nofun).store rfl (fun _ => targets_of_locate hx rfl) _
  | rra =>
    have h := hrefl.advance hx hmem nofun
    exact ((h.setFlag (hflags (by decide)) _).setFlag (hflags (by decide)) _).store rfl
      (fun _ => targets_of_locate hx rfl) _
  | sxt =>
    have h := hrefl.advance hx hmem nofun
    exact ((h.setResult rfl _ _).setFlag (hflags (by decide)) _).store rfl (fun _ => targets_of_locate hx rfl) _
  -- room is made on the stack before the operand is read, so the word goes below the pointer that `m` has
  | push =>
    have h := ((hrefl.reserve rfl).advance hx hmem nofun).push rfl ((m.reserve.fetchValue x width).1)
    rwa [← hsp] at h
  | call =>
    have h := (hrefl.reserve rfl).push rfl next
    rw [← hsp] at h
    exact (h.advance hx hmem nofun).setPc _
  | reti => exact hrefl

theorem changedBy_combine {i : Instruction} {m n : Machine} {op : BinaryOp} {p : Place} (h : ChangedBy i m n)
    (hop : i.operation = .binary op) (hplace : i.operation.writes = true → m.targetPlace? i = some p)
    (hp : i.operation.writes = true → ∀ r, p = .register r → r ≤ 15 ∧ i.Targets r) (source : UInt16) :
    ChangedBy i m (n.combine op source p i.width) := by
  have hflags : i.operation.flags = (Operation.binary op).flags := by rw [hop]
  rw [hop] at hplace hp
  cases op with
  | mov | bic | bis => exact h.store (hplace rfl) (hp rfl) _
  | add | addc | subc | sub => exact (h.setResult hflags _ _).store (hplace rfl) (hp rfl) _
  | cmp | bit => exact h.setResult hflags _ _
  | dadd =>
    have hcarry : Flag.carry ∈ i.operation.flags := by
      rw [hflags]
      decide
    have hnegative : Flag.negative ∈ i.operation.flags := by
      rw [hflags]
      decide
    refine ChangedBy.store ?_ (hplace rfl) (hp rfl) _
    split
    · exact (h.setFlag hcarry _).setFlag hnegative _
    · exact h.setFlag hcarry _
  | xor | and =>
    have hcarry : Flag.carry ∈ i.operation.flags := by
      rw [hflags]
      decide
    exact ((h.setResult hflags _ _).setFlag hcarry _).store (hplace rfl) (hp rfl) _

theorem changedBy_executeBinary (op : BinaryOp) (hx : x.WellFormed) (hy : y.WellFormed) :
    ChangedBy ⟨.binary op, width, .two x y, size⟩ m (m.executeBinary op x y width) := by
  have hxmem : x ∈ (Operands.two x y).toList := by simp [Operands.toList]
  have hymem : y ∈ (Operands.two x y).toList := by simp [Operands.toList]
  have hne : Operation.binary op ≠ .unary .reti := by simp
  have h := ((ChangedBy.refl ⟨.binary op, width, .two x y, size⟩ m).advance hx hxmem hne).advance hy hymem hne
  refine changedBy_combine h rfl (fun hwrites => if_pos hwrites) (fun hwrites r hr => ?_) _
  exact targets_of_locate hy (if_pos hwrites) hr

end

/-- An instruction changes at most what it names. -/
theorem changedBy_execute {m n : Machine} {i : Instruction} {next : UInt16}
    (hi : ∀ x ∈ i.operands.toList, x.WellFormed) (hs : i.operands.Suits i.operation) (h : m.execute i next = some n) :
    ChangedBy i m n := by
  rcases Instruction.shape_of_suits hs with
    ⟨op, width, x, size, rfl⟩ | ⟨c, width, d, size, rfl⟩ | ⟨op, width, x, y, size, rfl⟩
  · cases h
    exact m.changedBy_executeUnary size next op (hi x (List.mem_singleton_self x))
  · cases h
    exact m.changedBy_executeJump size c d
  · cases h
    exact m.changedBy_executeBinary size op (hi x (by simp [Operands.toList])) (hi y (by simp [Operands.toList]))

end Machine
end MicroDebug

import MicroDebug.Proofs.Processor.Footprint
import MicroDebug.Proofs.Processor.GateCalls

/-! The status register as a control word. The bit that halts and the bit that lets the gate serve lie beside the
    flags, and an instruction that sets flags keeps them. The lowest bit of the number of the requested service is the
    overflow flag itself, so an instruction that clears the flag makes the number even. -/

namespace MicroDebug

open Registers (slot)

/-! ### The fields of the status register -/

namespace Status

theorem request_eq (w : UInt16) :
    request w = request (w &&& Flag.restMask) ||| request (w &&& Flag.overflow.mask) := by
  apply UInt8.toBitVec_inj.mp
  ext i hi
  simp only [request, Flag.restMask, Flag.mask]
  interval_cases i <;> simp

theorem request_and_even (w : UInt16) : request w &&& 0x7e = request (w &&& Flag.restMask) := by
  apply UInt8.toBitVec_inj.mp
  ext i hi
  simp only [request, Flag.restMask]
  interval_cases i <;> simp

end Status

namespace Registers

variable {rs qs : Registers}

theorem sr_and_of_rest {mask : UInt16} (hmask : Flag.restMask &&& mask = mask) (h : qs.rest = rs.rest) :
    qs.sr &&& mask = rs.sr &&& mask := by
  rw [← hmask, ← UInt16.and_assoc, ← UInt16.and_assoc]
  exact congrArg (· &&& mask) h

theorem request_of_rest (h : qs.rest = rs.rest) (hflag : qs.flag .overflow = rs.flag .overflow) :
    Status.request qs.sr = Status.request rs.sr := by
  rw [Status.request_eq, sr_and_mask, hflag, ← sr_and_mask, ← rest, h]
  exact (Status.request_eq rs.sr).symm

theorem request_of_cleared (h : qs.rest = rs.rest) (hflag : qs.flag .overflow = false) :
    Status.request qs.sr = Status.request rs.sr &&& 0x7e := by
  rw [Status.request_eq, sr_and_mask, hflag, ← rest, h, Status.request_and_even]
  exact UInt8.or_zero

end Registers

/-! ### The overflow flag -/

namespace Machine

theorem overflow_setResult (m : Machine) (width : Width) (result : Nat) :
    (m.setResult width result).flag .overflow = false :=
  m.registers.flag_setResult width result .overflow

theorem overflow_storeBits (m : Machine) {p : Place} (hp : ∀ r, p = .register r → slot r ≠ slot Register.sr)
    (v : UInt16) (width : Width) : (m.storeBits p v width).flag .overflow = false := by
  have hcarry (on : Bool) : ((m.setResult width v.toNat).setFlag .carry on).flag .overflow = false :=
    (Registers.flag_setFlag _ _ _ on).trans (m.overflow_setResult width v.toNat)
  exact (flag_store _ hp v width .overflow).trans (hcarry _)

/-- An operation that has to do with the overflow flag clears it. -/
theorem overflow_combine (m : Machine) {op : BinaryOp} (hop : Flag.overflow ∈ (Operation.binary op).flags) {p : Place}
    (hp : (Operation.binary op).writes = true → ∀ r, p = .register r → slot r ≠ slot Register.sr) (source : UInt16)
    (width : Width) : (m.combine op source p width).flag .overflow = false := by
  cases op with
  | mov | bic | bis | dadd => simp [Operation.flags] at hop
  | add | addc | subc | sub => exact (flag_store _ (hp rfl) _ width .overflow).trans (m.overflow_setResult width _)
  | cmp | bit => exact m.overflow_setResult width _
  | xor | and => exact m.overflow_storeBits (hp rfl) _ width

theorem overflow_execute {m n : Machine} {i : Instruction} {next : UInt16}
    (hi : ∀ x ∈ i.operands.toList, x.WellFormed) (hs : i.operands.Suits i.operation)
    (hflag : Flag.overflow ∈ i.operation.flags) (ht : ¬i.Targets Register.sr) (h : m.execute i next = some n) :
    n.flag .overflow = false := by
  have hplace {x : Operand} (hx : x.WellFormed) (htarget : i.target? = some x) (k : Machine) :
      ∀ r, k.locate x i.width = .register r → slot r ≠ slot Register.sr := fun r hr => by
    obtain ⟨hle, hreg⟩ := targets_of_locate hx htarget hr
    exact mt (Registers.slot_eq_iff hle (by decide)).mp fun hsr => ht (hsr ▸ hreg)
  rcases Instruction.shape_of_suits hs with
    ⟨op, width, x, size, rfl⟩ | ⟨c, width, d, size, rfl⟩ | ⟨op, width, x, y, size, rfl⟩
  · obtain rfl : op = .sxt := by cases op <;> simp [Operation.flags] at hflag ⊢
    cases h
    exact overflow_storeBits _ (hplace (hi x (List.mem_singleton_self x)) rfl m) _ width
  · cases hflag
  · cases h
    have hy := hi y (by simp [Operands.toList])
    exact overflow_combine _ hflag (fun hwrites => hplace hy (if_pos hwrites) _) _ width

end Machine

/-! ### One instruction -/

namespace Processor

/-- The instruction stores a value in the status register, or runs a loop that counts it down. -/
def Fetched.TargetsStatus (f : Fetched) : Prop :=
  match f.countdown? with
  | some d => d.place = .register Register.sr
  | none => f.instruction.Targets Register.sr

instance (f : Fetched) : Decidable f.TargetsStatus := by
  unfold Fetched.TargetsStatus
  split <;> infer_instance

/-- The instruction clears the overflow flag, as arithmetic does. -/
def Fetched.ClearsOverflow (f : Fetched) : Prop :=
  f.countdown? = none ∧ Flag.overflow ∈ f.instruction.operation.flags

instance (f : Fetched) : Decidable f.ClearsOverflow := inferInstanceAs (Decidable (_ ∧ _))

theorem sr_fetch {p : Processor} {f : Fetched} {c d : Console} (h : p.fetch c = (.ok f, d)) :
    f.processor.registers.sr = p.registers.sr := by
  have hserved (s : Gate.Served) (e : Console)
      (hs : (if p.pc = Gate.address then Gate.serve p c else (.ok { processor := p }, c)) = (.ok s, e)) :
      s.processor.registers.sr = p.registers.sr := by
    split at hs
    · obtain ⟨-, hregisters, -⟩ := Gate.serve_ok hs
      rw [hregisters]
      split
      · exact p.registers.sr_set (by decide) 0
      · rfl
    · cases hs
      rfl
  rw [fetch] at h
  split at h
  · cases h
  split at h
  · cases h
  split at h
  · cases h
  · next s e hs =>
    split at h
    · cases h
    · cases h
      exact (Registers.sr_set _ (by decide) _).trans (hserved s d hs)

namespace Fetched

variable {p : Processor} {f : Fetched} {m : Machine}

theorem status_run {d : Countdown} (hd : f.countdown? = some d) (hplace : d.place ≠ .register Register.sr)
    (k : Machine) (next : UInt16) :
    (d.run k next).registers.rest = k.registers.rest ∧ (d.run k next).flag .overflow = k.flag .overflow := by
  obtain ⟨w, y, size, hdecrements, rfl⟩ : ∃ w y size,
      Countdown.Decrements f.processor.memory f.pc w y size ∧ d = Countdown.counting f.processor.toMachine w y := by
    rw [countdown?] at hd
    split at hd
    · exact (Countdown.find?_eq_some_iff.mp hd).2
    · cases hd
  have hy : y.WellFormed :=
    (Instruction.decode_eq_ok_iff.mp hdecrements.decode).1.operands y (by simp [Operands.toList])
  have hslot : ∀ r, f.processor.toMachine.locate y w = .register r → slot r ≠ slot Register.sr := fun r hr => by
    obtain ⟨-, rfl⟩ := Machine.locate_eq_register hr
    exact mt (Registers.slot_eq_iff hy.reg_le (by decide)).mp fun hsr => hplace (hr.trans (congrArg Place.register hsr))
  constructor
  · simp only [Countdown.run, Machine.setFlag, Machine.setPc, Registers.rest_setFlag, Registers.rest_setPc]
    exact Machine.rest_store k hslot 0 w
  · simp only [Countdown.run, Machine.setFlag, Machine.setPc, Machine.flag, Registers.flag_setFlag, reduceCtorEq,
      if_false, Registers.flag_setPc]
    exact Machine.flag_store k hslot 0 w .overflow

/-- An instruction that stores nothing in the status register keeps all of it but the flags, and the overflow flag too
    unless it clears it. -/
theorem status_effect (hf : p.Fetches f) (hm : f.effect = some m) (ht : ¬f.TargetsStatus) :
    m.registers.rest = f.processor.registers.rest ∧
      m.flag .overflow = if f.ClearsOverflow then false else f.processor.flag .overflow := by
  rw [effect] at hm
  rw [TargetsStatus] at ht
  -- the instruction of a loop that is run is its jump, which says nothing of what the loop stores
  cases hd : f.countdown? with
  | some d =>
    rw [hd] at hm ht
    cases hm
    rw [if_neg fun hclears => by cases hd.symm.trans hclears.1]
    exact status_run hd ht _ _
  | none =>
    rw [hd] at hm ht
    have hwf := (Instruction.decode_eq_ok_iff.mp hf.decode).1.operands
    have hsuits := Instruction.suits_of_decode hf.decode
    have hchanged := Machine.changedBy_execute hwf hsuits hm
    refine ⟨hchanged.rest ht, ?_⟩
    split
    · next hclears => exact Machine.overflow_execute hwf hsuits hclears.2 ht hm
    · next hclears => exact hchanged.flag ht .overflow fun hflag => hclears ⟨hd, hflag⟩

theorem sr_settle (f : Fetched) (m : Machine) : (f.settle m).registers.sr = m.registers.sr := by
  simp only [settle]
  split
  · exact m.registers.sr_set (by decide) _
  · rfl

theorem status_settle {c d : Console} (hfetch : p.fetch c = (.ok f, d)) (hf : p.Fetches f) (hm : f.effect = some m)
    (ht : ¬f.TargetsStatus) :
    (f.settle m).registers.rest = p.registers.rest ∧
      (f.settle m).registers.flag .overflow = if f.ClearsOverflow then false else p.registers.flag .overflow := by
  obtain ⟨hrest, hflag⟩ := status_effect hf hm ht
  have hsr := sr_fetch hfetch
  constructor
  · rw [Registers.rest, sr_settle, ← Registers.rest, hrest, Registers.rest, hsr, ← Registers.rest]
  · have hbefore : f.processor.flag .overflow = p.registers.flag .overflow := by
      rw [Machine.flag, Registers.flag, hsr, Registers.flag]
    rw [Registers.flag, sr_settle, ← Registers.flag, ← Machine.flag, hflag, hbefore]

end Fetched

/-! ### Runs -/

/-- Along instructions that store nothing in the status register the bits that are no flags stay, and the overflow
    flag stays until it is cleared. -/
theorem run?_status {n : Nat} {p q : Processor} {c d : Console} (h : run? n p c = some (q, d))
    (ht : ∀ x ∈ executions n p c, ¬x.fetched.TargetsStatus) :
    q.registers.rest = p.registers.rest ∧
      q.registers.flag .overflow =
        if ∃ x ∈ executions n p c, x.fetched.ClearsOverflow then false else p.registers.flag .overflow := by
  induction n generalizing p c with
  | zero =>
    cases h
    simp [executions]
  | succ n ih =>
    obtain ⟨f, m, e, hfetch, hf, hm, hrun, hcons⟩ := run?_succ_cases h
    simp only [hcons, List.forall_mem_cons] at ht
    obtain ⟨hrest, hflag⟩ := Fetched.status_settle hfetch hf hm ht.1
    obtain ⟨hrest', hflag'⟩ := ih hrun ht.2
    refine ⟨hrest'.trans hrest, ?_⟩
    have hclears : (∃ x ∈ executions (n + 1) p c, x.fetched.ClearsOverflow) ↔
        (∃ x ∈ executions n (f.settle m) e, x.fetched.ClearsOverflow) ∨ f.ClearsOverflow := by
      rw [hcons, List.exists_mem_cons_iff, or_comm]
    simp only [hflag', hflag, hclears, ite_or]

/-- Instructions that store nothing in the status register keep the halt bit, the bit that lets the gate serve and the
    number of the requested service but for its lowest bit, which is lost once an instruction clears the overflow
    flag. -/
theorem run?_request {n : Nat} {p q : Processor} {c d : Console} (h : run? n p c = some (q, d))
    (ht : ∀ x ∈ executions n p c, ¬x.fetched.TargetsStatus) :
    q.registers.sr &&& Status.haltMask = p.registers.sr &&& Status.haltMask ∧
      q.registers.sr &&& Status.gateMask = p.registers.sr &&& Status.gateMask ∧
      Status.request q.registers.sr =
        if ∃ x ∈ executions n p c, x.fetched.ClearsOverflow then Status.request p.registers.sr &&& 0x7e
        else Status.request p.registers.sr := by
  obtain ⟨hrest, hflag⟩ := run?_status h ht
  refine ⟨Registers.sr_and_of_rest (by decide) hrest, Registers.sr_and_of_rest (by decide) hrest, ?_⟩
  split at hflag
  · next hclears => exact (Registers.request_of_cleared hrest hflag).trans (if_pos hclears).symm
  · next hclears => exact (Registers.request_of_rest hrest hflag).trans (if_neg hclears).symm

/-- `xor r5, r6` and `add #1, r5` in a program that is about to ask for a line. -/
theorem run?_request_line :
    let p : Processor := { start (Memory.zero.writeWords 0x4400 [0xe506, 0x5315]) with
      registers := (Registers.zero.setPc 0x4400).set Register.sr 0x8200 }
    (∀ x ∈ executions 2 p {}, ¬x.fetched.TargetsStatus) ∧
      ∃ q d, run? 2 p {} = some (q, d) ∧ Status.request q.registers.sr = 0x02 := by
  intro p
  have hsome : (run? 2 p {}).isSome = true := by decide +kernel
  have ht : ∀ x ∈ executions 2 p {}, ¬x.fetched.TargetsStatus := by decide +kernel
  obtain ⟨⟨q, d⟩, hrun⟩ := Option.isSome_iff_exists.mp hsome
  obtain ⟨-, -, hrequest⟩ := run?_request hrun ht
  refine ⟨ht, q, d, hrun, hrequest.trans ?_⟩
  decide +kernel

/-- `add #1, r5` in a program that is about to unlock the door. It asks for another service then. -/
theorem request_step?_add :
    let p : Processor := { start (Memory.zero.writeWord 0x4400 0x5315) with
      registers := (Registers.zero.setPc 0x4400).set Register.sr 0xff00 }
    (∀ x ∈ executions 1 p {}, ¬x.fetched.TargetsStatus) ∧
      Gate.Request.ofNumber? (Status.request p.registers.sr) = some .unlock ∧
      (p.step? {}).map (fun s => Gate.Request.ofNumber? (Status.request s.1.registers.sr)) = some (some .refuse) := by
  decide +kernel

end Processor
end MicroDebug

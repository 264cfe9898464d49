import MicroDebug.Instruction.Listing
import MicroDebug.Proofs.Instruction.RoundTrip
import MicroDebug.Proofs.Processor.Jumps
import MicroDebug.Proofs.Processor.Calls

/-! Where the instructions of a straight line of code begin. A program that is not redirected goes from each instruction
    to the next one in memory, also past a jump that is not taken and a loop that is run to its end. A listing goes
    from line to line in the same way, so it shows what is executed as long as the program leaves its own code alone. -/

namespace MicroDebug

/-! ### Listings -/

namespace Listing

open Processor (Executed)

/-- The line that a listing has for an instruction that is executed. -/
def lineOf (x : Executed) : UInt16 × String := (x.fetched.pc, x.fetched.instruction.text x.fetched.pc false)

theorem size_pos_of_decode {m : Memory} {a : UInt16} {i : Instruction} (hi : Instruction.decode m a = .ok i) :
    0 < i.size.toNat := by
  obtain ⟨k, hk⟩ := Instruction.exists_size_eq hi
  omega

theorem linesFrom_of_decode {m : Memory} {limit fuel : Nat} {block : Bool} {a : UInt16} {i : Instruction}
    (hi : Instruction.decode m a = .ok i) (hlimit : a.toNat < limit) :
    linesFrom m limit block (fuel + 1) a.toNat = (a, i.text a block) ::
      if block && endsBlock i then [] else linesFrom m limit block fuel (a.toNat + i.size.toNat) := by
  rw [linesFrom, if_pos ⟨hlimit, a.toNat_lt⟩]
  simp only [UInt16.ofNat_toNat, hi]

/-- A listing follows instructions that lie one after another in memory. -/
theorem take_linesFrom {m : Memory} {limit : Nat} {xs : List Executed}
    (hdecode : ∀ x ∈ xs, Instruction.decode m x.fetched.pc = .ok x.fetched.instruction)
    (hlimit : ∀ x ∈ xs, x.fetched.pc.toNat < limit)
    (hnext : xs.IsChain fun x y => y.fetched.pc = x.fetched.next)
    (hascends : xs.IsChain fun x y => x.fetched.pc < y.fetched.pc) {fuel a : Nat}
    (ha : ∀ x ∈ xs.head?, x.fetched.pc.toNat = a) (hfuel : Memory.size ≤ fuel + a) :
    (linesFrom m limit false fuel a).take xs.length = xs.map lineOf := by
  induction xs generalizing fuel a with
  | nil => rfl
  | cons x xs ih =>
    obtain rfl : x.fetched.pc.toNat = a := ha x rfl
    rw [List.forall_mem_cons] at hdecode hlimit
    rw [List.isChain_cons] at hnext hascends
    have hsize := size_pos_of_decode hdecode.1
    obtain ⟨fuel, rfl⟩ : ∃ k, fuel = k + 1 := Nat.exists_eq_add_one.mpr (by
      have := x.fetched.pc.toNat_lt
      rw [Memory.size] at hfuel
      omega)
    rw [linesFrom_of_decode hdecode.1 hlimit.1, Bool.false_and, if_neg Bool.false_ne_true, List.length_cons,
      List.take_succ_cons, List.map_cons]
    refine congrArg _ (ih hdecode.2 hlimit.2 hnext.2 hascends.2 (fun y hy => ?_) (by omega))
    -- the next address is above this one, so adding the size has not wrapped
    have hlt := hascends.1 y hy
    rw [UInt16.lt_iff_toNat_lt, hnext.1 y hy, Processor.Fetched.next, UInt16.toNat_add] at hlt
    rw [hnext.1 y hy, Processor.Fetched.next, UInt16.toNat_add]
    have := x.fetched.pc.toNat_lt
    have := x.fetched.instruction.size.toNat_lt
    omega

end Listing

namespace Processor

/-! ### Straight lines -/

/-- How the instruction is left, once it has taken effect. -/
def Fetched.flow? (f : Fetched) : Option Flow := f.effect.map fun m => f.flow m.registers.pc

/-- The addresses of the bytes of the instruction. -/
def Executed.code (x : Executed) : List UInt16 :=
  (List.range x.fetched.instruction.size.toNat).map fun k => x.fetched.pc + UInt16.ofNat k

/-- The instruction leaves the byte at an address as it was. -/
def Executed.Spares (x : Executed) (a : UInt16) : Prop :=
  x.fetched.effect.map (fun m => m.memory.readByte a) = some (x.fetched.processor.memory.readByte a)

instance (x : Executed) (a : UInt16) : Decidable (x.Spares a) := inferInstanceAs (Decidable (_ = _))

theorem flow?_of_stepWatched {σ : Type} {watch : Watcher σ} {s : σ} {p : Processor} {c : Console} {info : StepInfo}
    (h : (p.stepWatched watch s c).result = .ok info) :
    ∃ f, (p.fetch c).1 = .ok f ∧ f.pc = info.pc ∧ f.flow? = some info.flow := by
  obtain ⟨stopped, d, -, -, -, hstep⟩ | ⟨f, d, reason, t, -, -, -, hstep⟩ | ⟨f, d, t, m, hfetch, -, -, hm, hstep⟩ :=
    stepWatched_cases watch s p c
  · rw [hstep] at h
    cases h
  · rw [hstep] at h
    cases h
  · rw [hstep] at h
    cases h
    exact ⟨f, by rw [hfetch], rfl, by rw [Fetched.flow?, hm, Option.map_some]⟩

/-- An instruction that does not redirect the program leads to the one after it in memory. -/
theorem Executed.next_of_sequential {n : Nat} {p : Processor} {c : Console} {x : Executed} (hx : x ∈ executions n p c)
    (h : x.fetched.flow? = some .sequential) : x.next = x.fetched.next := by
  obtain ⟨q, m, hf, hm, hnext⟩ := of_mem_executions hx
  rw [Fetched.flow?, hm, Option.map_some, Option.some.injEq, Fetched.flow_eq_sequential_iff] at h
  rw [hnext, Fetched.pc_settle, if_pos h]

theorem memory_of_fetch {p : Processor} {f : Fetched} {c d : Console} (hfetch : p.fetch c = (.ok f, d))
    (hf : p.Fetches f) (haway : f.pc ≠ Gate.address) : f.processor.memory = p.memory := by
  rw [hf.pc] at haway
  obtain ⟨i, -, rfl⟩ := hf.eq_fetched hfetch haway
  rfl

/-- A byte that every instruction of a run spares is the same throughout the run. -/
theorem readByte_run? {n : Nat} {p q : Processor} {c d : Console} {a : UInt16} (h : run? n p c = some (q, d))
    (haway : ∀ x ∈ executions n p c, x.fetched.pc ≠ Gate.address) (hspares : ∀ x ∈ executions n p c, x.Spares a) :
    q.memory.readByte a = p.memory.readByte a ∧
      ∀ x ∈ executions n p c, x.fetched.processor.memory.readByte a = p.memory.readByte a := by
  induction n generalizing p c with
  | zero =>
    cases h
    exact ⟨rfl, fun _ hx => absurd hx List.not_mem_nil⟩
  | succ n ih =>
    obtain ⟨f, m, e, hfetch, hf, hm, hrun, hcons⟩ := run?_succ_cases h
    simp only [hcons, List.forall_mem_cons] at haway hspares ⊢
    have hmemory := memory_of_fetch hfetch hf haway.1
    have hspared : m.memory.readByte a = p.memory.readByte a := by
      have hfirst := hspares.1
      rw [Executed.Spares, hm, Option.map_some, Option.some.injEq] at hfirst
      rw [hfirst, hmemory]
    obtain ⟨hend, hrest⟩ := ih hrun haway.2 hspares.2
    rw [memory_settle, hspared] at hend hrest
    exact ⟨hend, by rw [hmemory], hrest⟩

/-- A listing from the program counter of a run that is not redirected starts with the instructions that are executed,
    each at its address, as long as none of them changes their code and no address wraps. -/
theorem run?_listing {n : Nat} {p q : Processor} {c d : Console} (h : run? n p c = some (q, d))
    (hflow : ∀ x ∈ executions n p c, x.fetched.flow? = some .sequential)
    (haway : ∀ x ∈ executions n p c, x.fetched.pc ≠ Gate.address)
    (hspares : ∀ x ∈ executions n p c, ∀ y ∈ executions n p c, ∀ a ∈ y.code, x.Spares a)
    (hascends : (executions n p c).IsChain fun x y => x.fetched.pc < y.fetched.pc) {limit : Nat}
    (hlimit : ∀ x ∈ (executions n p c).getLast?, x.fetched.pc.toNat < limit) {m : Memory}
    (hm : m = p.memory ∨ m = q.memory) :
    (executions n p c).length = n ∧
      (Listing.lines m p.pc limit false).take n = (executions n p c).map Listing.lineOf := by
  have hlength := (run?_calls h).1
  refine ⟨hlength, ?_⟩
  have hdecode : ∀ x ∈ executions n p c, Instruction.decode m x.fetched.pc = .ok x.fetched.instruction := by
    intro x hx
    obtain ⟨r, k, hf, -, -⟩ := of_mem_executions hx
    refine Instruction.decode_congr hf.decode fun j hj => ?_
    have ha : x.fetched.pc + UInt16.ofNat j ∈ x.code := List.mem_map.mpr ⟨j, List.mem_range.mpr hj, rfl⟩
    obtain ⟨hend, hduring⟩ := readByte_run? h haway fun y hy => hspares y hy x hx _ ha
    rw [hduring x hx]
    rcases hm with rfl | rfl
    · rfl
    · exact hend
  have hbelow : ∀ x ∈ executions n p c, x.fetched.pc.toNat < limit := by
    refine hascends.backwards_induction (·.fetched.pc.toNat < limit) _ (fun x y hlt hy => ?_) fun hne => ?_
    · exact Nat.lt_trans (UInt16.lt_iff_toNat_lt.mp hlt) hy
    · exact hlimit _ (List.getLast?_eq_some_getLast hne)
  have hnext : (executions n p c).IsChain fun x y => y.fetched.pc = x.fetched.next :=
    (isChain_executions n p c).imp_of_mem_imp fun x y hx _ hy =>
      hy.trans (Executed.next_of_sequential hx (hflow x hx))
  have hhead : ∀ x ∈ (executions n p c).head?, x.fetched.pc.toNat = p.pc.toNat := fun x hx =>
    congrArg UInt16.toNat (pc_head_executions x hx)
  have htake := Listing.take_linesFrom hdecode hbelow hnext hascends hhead (Nat.le_add_right _ _)
  rwa [hlength] at htake

/-- Five instructions: a move of a constant, a decrement, the jump that closes its loop, a jump to the next instruction,
    and a move to the program counter of the address past its own first word. -/
theorem run?_listing_five :
    let p := start ((Memory.zero.writeWords 0x4400 [0x4035, 0x0003, 0x5335, 0x23fe, 0x2000, 0x4030, 0x440c]).writeWord
      Memory.resetAddress 0x4400)
    let xs := executions 5 p {}
    (∀ x ∈ xs, x.fetched.flow? = some .sequential) ∧ (∀ x ∈ xs, x.fetched.pc ≠ Gate.address) ∧
      (∀ x ∈ xs, ∀ y ∈ xs, ∀ a ∈ y.code, x.Spares a) ∧ (xs.IsChain fun x y => x.fetched.pc < y.fetched.pc) ∧
      (∃ x ∈ xs, x.fetched.countdown?.isSome) ∧ (∀ x ∈ xs.getLast?, x.fetched.pc.toNat < 0x440b) ∧
      ((Listing.lines p.memory p.pc 0x440b false).take 5).map Prod.fst = [0x4400, 0x4404, 0x4406, 0x4408, 0x440a] := by
  intro p xs
  have hsome : (run? 5 p {}).isSome = true := by decide +kernel
  have hflow : ∀ x ∈ xs, x.fetched.flow? = some .sequential := by decide +kernel
  have haway : ∀ x ∈ xs, x.fetched.pc ≠ Gate.address := by decide +kernel
  -- a check by `all` looks at the bytes of the code only, not at each address
  have hall : ∀ x ∈ xs, ∀ y ∈ xs, y.code.all (x.Spares ·) := by decide +kernel
  have hspares : ∀ x ∈ xs, ∀ y ∈ xs, ∀ a ∈ y.code, x.Spares a := fun x hx y hy a ha =>
    of_decide_eq_true (List.all_eq_true.mp (hall x hx y hy) a ha)
  have hascends : xs.IsChain fun x y => x.fetched.pc < y.fetched.pc := by decide +kernel
  have hlimit : ∀ x ∈ xs.getLast?, x.fetched.pc.toNat < 0x440b := by decide +kernel
  have hcollapsed : ∃ x ∈ xs, x.fetched.countdown?.isSome := by decide +kernel
  obtain ⟨⟨q, d⟩, hrun⟩ := Option.isSome_iff_exists.mp hsome
  obtain ⟨-, hlines⟩ := run?_listing hrun hflow haway hspares hascends hlimit (.inl rfl)
  refine ⟨hflow, haway, hspares, hascends, hcollapsed, hlimit, ?_⟩
  rw [hlines]
  decide +kernel

end Processor
end MicroDebug

import MicroDebug.Proofs.Instruction.RoundTrip
import MicroDebug.Proofs.Machine.Limbs
import MicroDebug.Proofs.Processor.Countdown
import MicroDebug.Proofs.Processor.ProgramCounter
import Mathlib.Data.List.Chain

/-! Sums of numbers of any length. A chain of additions with carry, or of subtractions with borrow, goes through two
    numbers limb by limb, and the carry flag hands on what does not fit. Each step leaves alone all that the later steps
    read, so the chain comes to the sum or the difference of the two whole numbers. -/

namespace MicroDebug

open Registers (slot)

/-- The place is the register with which an operand finds its own. -/
def Place.Finds : Place → Operand → Prop
  | .register r, x => x.mode ≠ .register ∧ x.literal? = none ∧ x.reg = r
  | _, _ => False

instance (y : Place) (x : Operand) : Decidable (y.Finds x) :=
  match y with
  | .register r => inferInstanceAs (Decidable (x.mode ≠ .register ∧ x.literal? = none ∧ x.reg = r))
  | .memory _ | .value _ => inferInstanceAs (Decidable False)

theorem Place.Finds.ne_sr {x : Operand} {r : Register} (h : (Place.register r).Finds x) : r ≠ Register.sr := by
  obtain ⟨mode, reg, ext⟩ := x
  obtain ⟨hmode, hliteral, rfl⟩ := h
  rintro rfl
  cases mode with
  | register => exact hmode rfl
  | indexed | indirect | autoincrement => cases hliteral

/-- An instruction in memory that adds or subtracts one limb. -/
structure Limb where
  address : UInt16
  op : BinaryOp
  source : Operand
  target : Operand
  /-- The number of bytes of the instruction. -/
  size : UInt16

namespace Limb

variable (l : Limb) (width : Width) (p : Processor)

def instruction : Instruction := ⟨.binary l.op, width, .two l.source l.target, l.size⟩

/-- The addresses of the bytes of the instruction. -/
def code : List UInt16 := (List.range l.size.toNat).map fun k => l.address + UInt16.ofNat k

/-- What the instruction works on. -/
def machine : Machine := { registers := p.registers.setPc (l.address + 2), memory := p.memory }

def sourcePlace : Place := (l.machine p).locate l.source width

def targetPlace : Place := (l.machine p).locate l.target width

/-- The program counter is all that is different there. -/
theorem load_machine {x : Place} (hx : x.Stays) : (l.machine p).load x width = p.toMachine.load x width :=
  Machine.load_congr (fun r hr => Registers.get_setPc _ (hx r hr).1 (hx r hr).2.1 _) fun _ _ => rfl

end Limb

namespace Processor

/-- The number that lies in places, the lowest limb first. -/
def number (p : Processor) (width : Width) (places : List Place) : Nat :=
  Nat.ofDigits width.size (places.map fun x => (p.toMachine.load x width).toNat)

/-- Instructions lie in memory one after another from the program counter on, and the targets are apart from each
    other, from the sources, from the instructions and from the registers with which operands find their places. -/
structure Chain (width : Width) (p : Processor) (ls : List Limb) : Prop where
  locked : p.unlocked = false
  running : p.isHalted = false
  head : ∀ l ∈ ls.head?, p.pc = l.address
  next : ls.IsChain fun l k => k.address = l.address + l.size
  away : ∀ l ∈ ls, l.address ≠ Gate.address
  decode : ∀ l ∈ ls, Instruction.decode p.memory l.address = .ok (l.instruction width)
  still : ∀ l ∈ ls, Machine.moves l.source = false ∧ Machine.moves l.target = false
  holds : ∀ l ∈ ls, (l.targetPlace width p).Holds
  stays : ∀ l ∈ ls, (l.sourcePlace width p).Stays
  code : ∀ l ∈ ls, ∀ k ∈ ls, (l.targetPlace width p).Misses width k.code
  finds : ∀ l ∈ ls, ∀ k ∈ ls, ¬(l.targetPlace width p).Finds k.source ∧ ¬(l.targetPlace width p).Finds k.target
  targets : ls.Pairwise fun l k => (l.targetPlace width p).Disjoint width (k.targetPlace width p)
  sources : ∀ l ∈ ls, ∀ k ∈ ls, (l.targetPlace width p).Disjoint width (k.sourcePlace width p)

/-! ### One limb -/

/-- One instruction has put a digit of a sum into its target and the rest into the carry flag. -/
structure Added (l : Limb) (width : Width) (sum : Nat) (p q : Processor) : Prop where
  unlocked : q.unlocked = p.unlocked
  pc : q.pc = l.address + l.size
  rest : q.registers.rest = p.registers.rest
  get : ∀ r ≤ 15, r ≠ Register.pc → r ≠ Register.sr → l.targetPlace width p ≠ .register r →
    q.registers.get r = p.registers.get r
  memory : ∀ a ∉ (l.targetPlace width p).addresses width, q.memory.readByte a = p.memory.readByte a
  digit : (q.toMachine.load (l.targetPlace width p) width).toNat = sum % width.size
  carry : q.toMachine.flag .carry = (sum / width.size % 2 == 1)

theorem step?_limb {l : Limb} {width : Width} {sum : Nat} {p : Processor} (hp : p.Ready) (hpc : p.pc = l.address)
    (hi : Instruction.decode p.memory l.address = .ok (l.instruction width))
    (hstill : Machine.moves l.source = false ∧ Machine.moves l.target = false) (hholds : (l.targetPlace width p).Holds)
    (hsum : (l.machine p).combine l.op ((l.machine p).peek l.source width) (l.targetPlace width p) width =
      (l.machine p).storeSum (l.targetPlace width p) sum width) (c : Console) :
    ∃ q, p.step? c = some (q, c) ∧ Added l width sum p q := by
  rw [← hpc] at hi
  have hmachine : l.machine p = { registers := p.registers.setPc (p.pc + 2), memory := p.memory } := by
    rw [Limb.machine, hpc]
  have hnone : (p.fetched (l.instruction width)).countdown? = none := Fetched.countdown?_eq_none nofun
  have heffect : (p.fetched (l.instruction width)).effect =
      some ((l.machine p).storeSum (l.targetPlace width p) sum width) := by
    rw [p.effect_of_countdown?_eq_none hnone, ← hmachine, ← hsum, Limb.targetPlace,
      ← Machine.executeBinary_of_still _ _ hstill.1 hstill.2]
    rfl
  have hpast : ((l.machine p).storeSum (l.targetPlace width p) sum width).registers.pc = p.pc + 2 := by
    rw [Machine.pc_storeSum _ hholds, hmachine]
    exact Registers.pc_setPc _ _
  refine ⟨_, step?_of_decode hp hi heffect c, ?_⟩
  rw [p.settle_sequential hpast]
  exact
    { unlocked := rfl
      pc := by
        rw [← hpc]
        exact Registers.pc_setPc _ _
      rest := (Registers.rest_setPc _ _).trans
        ((Machine.rest_storeSum _ hholds _ _).trans (p.registers.rest_setPc _))
      get := fun r hr hne hsr htarget => by
        refine (Registers.get_setPc _ hr hne _).trans
          (((l.machine p).get_storeSum (fun q hq => ?_) ?_ sum width).trans (Registers.get_setPc _ hr hne _))
        · exact mt (Registers.slot_eq_iff (hholds.stays q hq).1 hr).mp fun hqr => htarget (hqr ▸ hq)
        · exact mt (Registers.slot_eq_iff (by decide) hr).mp (Ne.symm hsr)
      memory := fun a ha => Machine.readByte_storeSum _ ha sum
      digit := by
        refine Eq.trans (congrArg UInt16.toNat ?_) (Machine.toNat_load_storeSum (l.machine p) hholds sum width)
        exact Machine.load_congr (fun r hr => Registers.get_setPc _ (hholds.stays r hr).1 (hholds.stays r hr).2.1 _)
          fun _ _ => rfl
      carry := (Registers.flag_setPc _ _ _).trans (Machine.carry_storeSum _ hholds sum width) }

/-! ### The limbs above -/

namespace Added

variable {l : Limb} {width : Width} {sum : Nat} {p q : Processor} (h : Added l width sum p q)
include h

/-- What is apart from the target is as it was. -/
theorem load {x : Place} (hx : x.Stays) (hdisjoint : (l.targetPlace width p).Disjoint width x) :
    q.toMachine.load x width = p.toMachine.load x width := by
  refine Machine.load_congr (fun r hr => ?_) fun a ha => h.memory a fun hmem => ?_
  · obtain ⟨hle, hpc, hsr⟩ := hx r hr
    refine h.get r hle hpc hsr fun htarget => ?_
    rw [htarget, hr] at hdisjoint
    exact hdisjoint rfl
  · cases x with
    | register r => cases ha
    | value w => cases ha
    | memory b =>
      cases htarget : l.targetPlace width p with
      | register r =>
        rw [htarget] at hmem
        cases hmem
      | value w =>
        rw [htarget] at hmem
        cases hmem
      | memory c =>
        rw [htarget] at hmem hdisjoint
        exact hdisjoint a hmem ha

/-- Operands whose registers are not the target name the same places. -/
theorem locate {x : Operand} (hx : x.WellFormed) (hne : ¬(l.targetPlace width p).Finds x) (k : Limb) :
    (k.machine q).locate x width = (k.machine p).locate x width := by
  have hget (r : Register) (hr : (Place.register r).Finds x) :
      (k.machine q).registers.get r = (k.machine p).registers.get r := by
    have hle : r ≤ 15 := hr.2.2 ▸ hx.reg_le
    by_cases hpc : r = Register.pc
    · subst hpc
      exact (Registers.pc_setPc _ _).trans (Registers.pc_setPc _ _).symm
    · refine (Registers.get_setPc _ hle hpc _).trans (Eq.trans ?_ (Registers.get_setPc _ hle hpc _).symm)
      exact h.get r hle hpc hr.ne_sr fun htarget => hne (htarget ▸ hr)
  cases hliteral : x.literal? with
  | some value => cases value <;> simp only [Machine.locate, hliteral]
  | none =>
    cases hmode : x.mode with
    | register => simp only [Machine.locate, hliteral, hmode]
    | indexed | indirect | autoincrement =>
      have hnot : x.mode ≠ .register := by
        rw [hmode]
        decide
      simp only [Machine.locate, hliteral, hmode, hget x.reg ⟨hnot, hliteral, rfl⟩]

theorem decode {a : UInt16} {i : Instruction} (hi : Instruction.decode p.memory a = .ok i)
    (hcode : ∀ k < i.size.toNat, a + UInt16.ofNat k ∉ (l.targetPlace width p).addresses width) :
    Instruction.decode q.memory a = .ok i :=
  Instruction.decode_congr hi fun k hk => h.memory _ (hcode k hk)

end Added

/-- After one limb the program is about to go through the others, which lie where they lay. -/
theorem Chain.tail {l : Limb} {ls : List Limb} {width : Width} {sum : Nat} {p q : Processor}
    (h : Chain width p (l :: ls)) (hadded : Added l width sum p q) :
    Chain width q ls ∧ ∀ k ∈ ls, k.sourcePlace width q = k.sourcePlace width p ∧
      k.targetPlace width q = k.targetPlace width p := by
  have hdecode := List.forall_mem_cons.mp h.decode
  have hnext := List.isChain_cons.mp h.next
  have hplaces : ∀ k ∈ ls, k.sourcePlace width q = k.sourcePlace width p ∧
      k.targetPlace width q = k.targetPlace width p := by
    intro k hk
    have hwf := (Instruction.decode_eq_ok_iff.mp (hdecode.2 k hk)).1.operands
    obtain ⟨hsource, htarget⟩ := h.finds l List.mem_cons_self k (List.mem_cons_of_mem _ hk)
    exact ⟨hadded.locate (hwf _ List.mem_cons_self) hsource k,
      hadded.locate (hwf _ (List.mem_cons_of_mem _ List.mem_cons_self)) htarget k⟩
  refine ⟨?_, hplaces⟩
  exact
    { locked := hadded.unlocked.trans h.locked
      running := (Countdown.isHalted_of_rest_eq q p hadded.rest).trans h.running
      head := fun k hk => hadded.pc.trans (hnext.1 k hk).symm
      next := hnext.2
      away := fun k hk => h.away k (List.mem_cons_of_mem _ hk)
      decode := fun k hk => hadded.decode (hdecode.2 k hk) fun i hi =>
        h.code l List.mem_cons_self k (List.mem_cons_of_mem _ hk) _ (List.mem_map.mpr ⟨i, List.mem_range.mpr hi, rfl⟩)
      still := fun k hk => h.still k (List.mem_cons_of_mem _ hk)
      holds := fun k hk => by
        rw [(hplaces k hk).2]
        exact h.holds k (List.mem_cons_of_mem _ hk)
      stays := fun k hk => by
        rw [(hplaces k hk).1]
        exact h.stays k (List.mem_cons_of_mem _ hk)
      code := fun k hk j hj => by
        rw [(hplaces k hk).2]
        exact h.code k (List.mem_cons_of_mem _ hk) j (List.mem_cons_of_mem _ hj)
      finds := fun k hk j hj => by
        rw [(hplaces k hk).2]
        exact h.finds k (List.mem_cons_of_mem _ hk) j (List.mem_cons_of_mem _ hj)
      targets := by
        refine (List.pairwise_cons.mp h.targets).2.imp_of_mem fun hk hj hdisjoint => ?_
        rw [(hplaces _ hk).2, (hplaces _ hj).2]
        exact hdisjoint
      sources := fun k hk j hj => by
        rw [(hplaces k hk).2, (hplaces j hj).1]
        exact h.sources k (List.mem_cons_of_mem _ hk) j (List.mem_cons_of_mem _ hj) }

/-! ### Chains -/

/-- The places that the limbs of the source are read from, in the state in which the chain begins. -/
def sourcePlaces (width : Width) (p : Processor) (ls : List Limb) : List Place := ls.map (·.sourcePlace width p)

def targetPlaces (width : Width) (p : Processor) (ls : List Limb) : List Place := ls.map (·.targetPlace width p)

/-- The number that is added for the number in the sources. -/
def addend (width : Width) (subtract : Bool) (p : Processor) (places : List Place) : Nat :=
  Nat.ofDigits width.size (places.map fun x => width.addend subtract (p.toMachine.load x width))

/-- A chain has put the sum of two numbers and a carry into its targets and the carry flag, and nothing else has
    changed that a later limb could read. -/
structure Summed (width : Width) (subtract : Bool) (carry : Bool) (ls : List Limb) (p q : Processor) : Prop where
  sum : p.number width (targetPlaces width p ls) + p.addend width subtract (sourcePlaces width p ls) + carry.toNat =
    q.number width (targetPlaces width p ls) + width.size ^ ls.length * (q.toMachine.flag .carry).toNat
  load : ∀ x : Place, x.Stays → (∀ l ∈ ls, (l.targetPlace width p).Disjoint width x) →
    q.toMachine.load x width = p.toMachine.load x width

theorem addend_cons (p : Processor) (width : Width) (subtract : Bool) (x : Place) (places : List Place) :
    p.addend width subtract (x :: places) =
      width.addend subtract (p.toMachine.load x width) + width.size * p.addend width subtract places :=
  Nat.ofDigits_cons

theorem number_cons (p : Processor) (width : Width) (x : Place) (places : List Place) :
    p.number width (x :: places) = (p.toMachine.load x width).toNat + width.size * p.number width places :=
  p.addend_cons width false x places

theorem addend_congr {width : Width} {p q : Processor} {places : List Place} (subtract : Bool)
    (h : ∀ x ∈ places, q.toMachine.load x width = p.toMachine.load x width) :
    q.addend width subtract places = p.addend width subtract places :=
  congrArg (Nat.ofDigits width.size) (List.map_congr_left fun x hx => by rw [h x hx])

theorem number_congr {width : Width} {p q : Processor} {places : List Place}
    (h : ∀ x ∈ places, q.toMachine.load x width = p.toMachine.load x width) :
    q.number width places = p.number width places :=
  addend_congr false h

/-- Two numbers and a carry are added from the lowest digits on. -/
theorem add_digits (b d n a m c : Nat) :
    d + b * n + (a + b * m) + c = (d + a + c) % b + b * (n + m + (d + a + c) / b) :=
  calc
    _ = d + a + c + b * (n + m) := by ring
    _ = b * ((d + a + c) / b) + (d + a + c) % b + b * (n + m) := by rw [Nat.div_add_mod]
    _ = _ := by ring

theorem toNat_carry {sum size : Nat} (h : sum < 2 * size) : (sum / size % 2 == 1).toNat = sum / size := by
  have hquotient : sum / size < 2 := Nat.div_lt_of_lt_mul (by rwa [Nat.mul_comm])
  obtain hzero | hone := Nat.le_one_iff_eq_zero_or_eq_one.mp (Nat.le_of_lt_succ hquotient)
  · rw [hzero]
    rfl
  · rw [hone]
    rfl

/-- A limb and the limbs above it come to one sum: what each of them has put away stays where it is. -/
theorem summed_cons {l : Limb} {ls : List Limb} {width : Width} {subtract carry : Bool} {p q r : Processor}
    (h : Chain width p (l :: ls))
    (hadded : Added l width ((p.toMachine.load (l.targetPlace width p) width).toNat +
      width.addend subtract (p.toMachine.load (l.sourcePlace width p) width) + carry.toNat) p q)
    (hsummed : Summed width subtract (q.toMachine.flag .carry) ls q r) : Summed width subtract carry (l :: ls) p r := by
  obtain ⟨-, hplaces⟩ := h.tail hadded
  have hsources : sourcePlaces width q ls = sourcePlaces width p ls := List.map_congr_left fun k hk => (hplaces k hk).1
  have htargets : targetPlaces width q ls = targetPlaces width p ls := List.map_congr_left fun k hk => (hplaces k hk).2
  obtain ⟨hholds, hholds'⟩ := List.forall_mem_cons.mp h.holds
  obtain ⟨hdisjoint, -⟩ := List.pairwise_cons.mp h.targets
  obtain ⟨hsum, hload⟩ := hsummed
  have hload' {x : Place} (hx : x.Stays) (hapart : ∀ k ∈ ls, (k.targetPlace width p).Disjoint width x) :
      r.toMachine.load x width = q.toMachine.load x width :=
    hload x hx fun k hk => (hplaces k hk).2 ▸ hapart k hk
  refine ⟨?_, fun x hx hapart => ?_⟩
  · -- the sources and the other targets are not touched by the first limb, nor is its target by the others
    have hnumber : q.number width (targetPlaces width p ls) = p.number width (targetPlaces width p ls) := by
      refine number_congr fun x hx => ?_
      obtain ⟨k, hk, rfl⟩ := List.mem_map.mp hx
      exact hadded.load (hholds' k hk).stays (hdisjoint k hk)
    have haddend : q.addend width subtract (sourcePlaces width p ls) =
        p.addend width subtract (sourcePlaces width p ls) := by
      refine addend_congr subtract fun x hx => ?_
      obtain ⟨k, hk, rfl⟩ := List.mem_map.mp hx
      exact hadded.load (h.stays k (List.mem_cons_of_mem _ hk))
        (h.sources l List.mem_cons_self k (List.mem_cons_of_mem _ hk))
    have hdigit := congrArg UInt16.toNat (hload' hholds.stays fun k hk => (hdisjoint k hk).symm)
    rw [hadded.digit] at hdigit
    have hd : (p.toMachine.load (l.targetPlace width p) width).toNat < width.size := Machine.toNat_load_lt _ _ _ _
    have ha : width.addend subtract (p.toMachine.load (l.sourcePlace width p) width) < width.size :=
      Width.addend_lt_size (Machine.toNat_load_lt _ _ _ _) subtract
    have hc : carry.toNat ≤ 1 := carry.toNat_le
    rw [hsources, htargets, hnumber, haddend, hadded.carry, toNat_carry (by omega)] at hsum
    simp only [targetPlaces, sourcePlaces, List.map_cons, List.length_cons] at hsum ⊢
    rw [number_cons, number_cons, addend_cons, hdigit, add_digits, hsum]
    ring
  · rw [List.forall_mem_cons] at hapart
    exact (hload' hx hapart.2).trans (hadded.load hx hapart.1)

/-! ### Runs -/

/-- The first limb of a chain is added as its operation asks, with the carry that comes in. -/
theorem Chain.step?_head {l : Limb} {ls : List Limb} {width : Width} {subtract carry : Bool} {p : Processor}
    (h : Chain width p (l :: ls))
    (hop : (l.op = .lowLimb subtract ∧ carry = subtract) ∨
      (l.op = .highLimb subtract ∧ carry = p.toMachine.flag .carry)) (c : Console) :
    ∃ q, p.step? c = some (q, c) ∧ Added l width ((p.toMachine.load (l.targetPlace width p) width).toNat +
      width.addend subtract (p.toMachine.load (l.sourcePlace width p) width) + carry.toNat) p q := by
  have hpc : p.pc = l.address := h.head l rfl
  have hholds := h.holds l List.mem_cons_self
  have hsource : (l.machine p).peek l.source width = p.toMachine.load (l.sourcePlace width p) width :=
    l.load_machine width p (h.stays l List.mem_cons_self)
  have htarget := l.load_machine width p hholds.stays
  have hflag : (l.machine p).flag .carry = p.toMachine.flag .carry := Registers.flag_setPc _ _ _
  refine step?_limb ⟨h.locked, h.running, ?_⟩ hpc (h.decode l List.mem_cons_self) (h.still l List.mem_cons_self)
    hholds ?_ c
  · rw [hpc]
    exact h.away l List.mem_cons_self
  · obtain ⟨hop, rfl⟩ | ⟨hop, rfl⟩ := hop
    · rw [hop, Machine.combine_lowLimb, hsource, htarget]
    · rw [hop, Machine.combine_highLimb, hsource, htarget, hflag]

/-- Limbs that are added with the carry flag come to one sum. -/
theorem run?_highLimbs {width : Width} {subtract : Bool} {ls : List Limb} {p : Processor} (h : Chain width p ls)
    (hop : ∀ l ∈ ls, l.op = .highLimb subtract) (c : Console) :
    ∃ q, run? ls.length p c = some (q, c) ∧ Summed width subtract (p.toMachine.flag .carry) ls p q := by
  induction ls generalizing p with
  | nil => exact ⟨p, rfl, by simp [number, addend, targetPlaces, sourcePlaces], fun _ _ _ => rfl⟩
  | cons l ls ih =>
    rw [List.forall_mem_cons] at hop
    obtain ⟨q, hstep, hadded⟩ := h.step?_head (.inr ⟨hop.1, rfl⟩) c
    obtain ⟨r, hrun, hsummed⟩ := ih (h.tail hadded).1 hop.2
    exact ⟨r, (run?_succ hstep).trans hrun, summed_cons h hadded hsummed⟩

/-- A first limb without the carry flag makes them a sum, or a difference, of its own. -/
theorem run?_limbs {width : Width} {subtract : Bool} {l : Limb} {ls : List Limb} {p : Processor}
    (h : Chain width p (l :: ls)) (hlow : l.op = .lowLimb subtract) (hhigh : ∀ k ∈ ls, k.op = .highLimb subtract)
    (c : Console) :
    ∃ q, run? (ls.length + 1) p c = some (q, c) ∧ Summed width subtract subtract (l :: ls) p q := by
  obtain ⟨q, hstep, hadded⟩ := h.step?_head (.inl ⟨hlow, rfl⟩) c
  obtain ⟨r, hrun, hsummed⟩ := run?_highLimbs (h.tail hadded).1 hhigh c
  exact ⟨r, (run?_succ hstep).trans hrun, summed_cons h hadded hsummed⟩

/-! ### Whole numbers -/

/-- A sum that has been cut in two, what fits and a carry. -/
theorem cut_sum {sum digits size : Nat} {carry : Bool} (h : sum = digits + size * carry.toNat)
    (hdigits : digits < size) : digits = sum % size ∧ carry = decide (size ≤ sum) := by
  cases carry with
  | false =>
    rw [Bool.toNat_false, Nat.mul_zero, Nat.add_zero] at h
    subst h
    exact ⟨(Nat.mod_eq_of_lt hdigits).symm, (decide_eq_false (Nat.not_le.mpr hdigits)).symm⟩
  | true =>
    rw [Bool.toNat_true, Nat.mul_one] at h
    subst h
    exact ⟨by rw [Nat.add_mod_right, Nat.mod_eq_of_lt hdigits], (decide_eq_true (Nat.le_add_left _ _)).symm⟩

theorem number_lt {p : Processor} {width : Width} {places : List Place}
    (h : ∀ x ∈ places, (p.toMachine.load x width).toNat < width.size) :
    p.number width places < width.size ^ places.length := by
  refine (Nat.ofDigits_lt_base_pow_length width.one_lt_size ?_).trans_eq (by rw [List.length_map])
  exact List.forall_mem_map.mpr h

/-- A subtraction adds the complement of the source, and one. -/
theorem addend_add_number {p : Processor} {width : Width} {places : List Place}
    (h : ∀ x ∈ places, (p.toMachine.load x width).toNat < width.size) :
    p.addend width true places + p.number width places + 1 = width.size ^ places.length := by
  have hdigits := ofDigits_complement (List.forall_mem_map.mpr h)
  rw [List.map_map, List.length_map] at hdigits
  refine Eq.trans (congrArg (fun n => Nat.ofDigits width.size n + p.number width places + 1) ?_) hdigits
  refine List.map_congr_left fun x _ => ?_
  rw [Width.addend, if_pos rfl, Machine.complement, Width.toNat_mask]
  rfl

/-- A chain of additions puts the sum of two numbers of any length into the targets and what does not fit into the
    carry flag; a chain of subtractions puts the difference there, and sets the flag when nothing was borrowed. -/
theorem run?_carryChain {width : Width} {subtract : Bool} {l : Limb} {ls : List Limb} {p : Processor}
    (h : Chain width p (l :: ls)) (hlow : l.op = .lowLimb subtract) (hhigh : ∀ k ∈ ls, k.op = .highLimb subtract)
    (c : Console) :
    let target := p.number width (targetPlaces width p (l :: ls))
    let source := p.number width (sourcePlaces width p (l :: ls))
    let size := width.size ^ (ls.length + 1)
    ∃ q, run? (ls.length + 1) p c = some (q, c) ∧
      q.number width (targetPlaces width p (l :: ls)) =
        (if subtract then target + size - source else target + source) % size ∧
      q.toMachine.flag .carry = if subtract then decide (source ≤ target) else decide (size ≤ target + source) := by
  intro target source size
  obtain ⟨q, hrun, hsum, -⟩ := run?_limbs h hlow hhigh c
  refine ⟨q, hrun, ?_⟩
  have hlt (n : Processor) (place : Limb → Operand) :
      n.number width ((l :: ls).map fun k => (k.machine p).locate (place k) width) < size := by
    refine (number_lt ?_).trans_eq (by rw [List.length_map, List.length_cons])
    exact List.forall_mem_map.mpr fun k _ => Machine.toNat_load_lt _ _ _ _
  have hsource : source < size := hlt p Limb.source
  have hresult : q.number width (targetPlaces width p (l :: ls)) < size := hlt q Limb.target
  obtain ⟨hmod, hcarry⟩ := cut_sum (show _ = _ + size * _ from hsum) hresult
  cases subtract with
  | false => exact ⟨hmod, hcarry⟩
  | true =>
    have hcomplement : p.addend width true (sourcePlaces width p (l :: ls)) + source + 1 = size := by
      refine (addend_add_number (List.forall_mem_map.mpr fun k _ => Machine.toNat_load_lt _ _ _ _)).trans ?_
      rw [List.length_map, List.length_cons]
    have hdifference : target + p.addend width true (sourcePlaces width p (l :: ls)) + true.toNat =
        target + size - source := by
      rw [Bool.toNat_true]
      omega
    rw [hdifference] at hmod hcarry
    refine ⟨hmod, hcarry.trans (decide_eq_decide.mpr ?_)⟩
    omega

/-- The borrow of a difference of forty-eight bits goes through a register, memory at a register and memory at an
    address. -/
theorem run?_carryChain_borrow :
    let p : Processor := { start (Memory.zero.writeWords 0x4400 [0x8a0c, 0x78a2, 0x2000, 0x7399, 0x0002]) with
      registers := ((((Registers.zero.setPc 0x4400).set 8 0x2020).set 9 0x2010).set 10 1).set 12 0
      memory := (Memory.zero.writeWords 0x4400 [0x8a0c, 0x78a2, 0x2000, 0x7399, 0x0002]).writeWord 0x2012 5 }
    let ls : List Limb := [
      ⟨0x4402, .subc, ⟨.indirect, 8, none⟩, .absolute 0x2000, 4⟩,
      ⟨0x4406, .subc, ⟨.indexed, Register.cg, none⟩, ⟨.indexed, 9, some 2⟩, 4⟩]
    let l : Limb := ⟨0x4400, .sub, .ofRegister 10, .ofRegister 12, 2⟩
    Chain .word p (l :: ls) ∧ l.op = .lowLimb true ∧ (∀ k ∈ ls, k.op = .highLimb true) ∧
      p.number .word (targetPlaces .word p (l :: ls)) = 0x5_0000_0000 ∧
      p.number .word (sourcePlaces .word p (l :: ls)) = 0x1_0000_0001 ∧
      ∃ q, run? 3 p {} = some (q, {}) ∧ q.number .word (targetPlaces .word p (l :: ls)) = 0x3_ffff_ffff ∧
        q.toMachine.flag .carry = true := by
  intro p ls l
  have hchain : Chain .word p (l :: ls) :=
    { locked := rfl
      running := by decide +kernel
      head := by decide +kernel
      next := by decide +kernel
      away := by decide +kernel
      decode := by decide +kernel
      still := by decide +kernel
      holds := by decide +kernel
      stays := by decide +kernel
      code := by decide +kernel
      finds := by decide +kernel
      targets := by decide +kernel
      sources := by decide +kernel }
  have htarget : p.number .word (targetPlaces .word p (l :: ls)) = 0x5_0000_0000 := by decide +kernel
  have hsource : p.number .word (sourcePlaces .word p (l :: ls)) = 0x1_0000_0001 := by decide +kernel
  have hlow : l.op = .lowLimb true := rfl
  have hhigh : ∀ k ∈ ls, k.op = .highLimb true := by decide +kernel
  obtain ⟨q, hrun, hresult, hcarry⟩ := run?_carryChain hchain hlow hhigh {}
  rw [htarget, hsource] at hresult hcarry
  exact ⟨hchain, hlow, hhigh, htarget, hsource, q, hrun, hresult.trans (by decide +kernel),
    hcarry.trans (by decide +kernel)⟩

end Processor
end MicroDebug

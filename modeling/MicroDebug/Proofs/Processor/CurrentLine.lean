import MicroDebug.Debugger.View
import MicroDebug.Proofs.Processor.StraightLine
import Mathlib.Data.List.DropRight

/-! Whether the code that is shown at a prompt has a line for the program counter. A listing begins where the straight
    line of code was entered, and what was executed since then leads from there to the program counter. The listing goes
    the same way, but it ends after a return and after a jump that is always taken. A step takes such an instruction for
    one that did not redirect the program if it led to the next word, and then the listing stops short of the program
    counter. -/

namespace MicroDebug

open Processor (Executed)

/-! ### Listings -/

/-- Instructions that lie one after another from one address to another. -/
def Leads : UInt16 → List Executed → UInt16 → Prop
  | a, [], b => a = b
  | a, x :: xs, b => x.fetched.pc = a ∧ Leads x.fetched.next xs b

/-- How many bytes instructions take up. -/
def extent (xs : List Executed) : Nat := (xs.map fun x => x.fetched.instruction.size.toNat).sum

theorem Leads.concat {a b : UInt16} {xs : List Executed} {x : Executed} (h : Leads a xs b) (hx : x.fetched.pc = b) :
    Leads a (xs ++ [x]) x.fetched.next := by
  induction xs generalizing a with
  | nil => exact ⟨hx.trans h.symm, rfl⟩
  | cons y ys ih => exact ⟨h.1, ih h.2⟩

theorem extent_cons (x : Executed) (xs : List Executed) :
    extent (x :: xs) = x.fetched.instruction.size.toNat + extent xs := List.sum_cons

theorem Leads.toNat_eq {a b : UInt16} {xs : List Executed} (h : Leads a xs b) :
    b.toNat = (a.toNat + extent xs) % Memory.size := by
  induction xs generalizing a with
  | nil =>
    obtain rfl : a = b := h
    exact (Nat.mod_eq_of_lt a.toNat_lt).symm
  | cons x xs ih =>
    obtain ⟨rfl, h⟩ := h
    rw [ih h, Processor.Fetched.next, UInt16.toNat_add, extent_cons, ← Nat.add_assoc]
    exact Nat.mod_add_mod _ _ _

namespace Listing

/-- Some of the instructions at an address, from the first on, end at another one, and none of these ends a listing.
    Addresses do not wrap. -/
def Reaches (a : Nat) (xs : List Executed) (b : Nat) : Prop :=
  ∃ ys, ys <+: xs ∧ a + extent ys = b ∧ ∀ y ∈ ys, endsBlock y.fetched.instruction = false

theorem reaches_self (a : Nat) (xs : List Executed) : Reaches a xs a := ⟨[], List.nil_prefix, rfl, List.forall_mem_nil _⟩

theorem not_reaches_of_lt {a b : Nat} {xs : List Executed} (h : b < a) : ¬Reaches a xs b := by
  rintro ⟨ys, -, hextent, -⟩
  omega

theorem reaches_cons_iff {a b : Nat} {x : Executed} {xs : List Executed} (hne : a ≠ b) :
    Reaches a (x :: xs) b ↔
      endsBlock x.fetched.instruction = false ∧ Reaches (a + x.fetched.instruction.size.toNat) xs b := by
  constructor
  · rintro ⟨ys, hprefix, hextent, hgoes⟩
    cases ys with
    | nil => exact absurd hextent hne
    | cons y ys =>
      obtain ⟨rfl, htail⟩ := List.cons_prefix_cons.mp hprefix
      rw [List.forall_mem_cons] at hgoes
      rw [extent_cons, ← Nat.add_assoc] at hextent
      exact ⟨hgoes.1, ys, htail, hextent, hgoes.2⟩
  · rintro ⟨hgoes, ys, hprefix, hextent, hrest⟩
    refine ⟨x :: ys, List.cons_prefix_cons.mpr ⟨rfl, hprefix⟩, ?_, List.forall_mem_cons.mpr ⟨hgoes, hrest⟩⟩
    rw [extent_cons, ← Nat.add_assoc, hextent]

theorem exists_line_self (m : Memory) {limit fuel : Nat} {a : UInt16} (hlimit : a.toNat < limit) (block : Bool) :
    ∃ line ∈ linesFrom m limit block (fuel + 1) a.toNat, line.1 = a := by
  rw [linesFrom, if_pos ⟨hlimit, a.toNat_lt⟩]
  cases hi : Instruction.decode m a with
  | error e =>
    simp only [UInt16.ofNat_toNat, hi]
    exact ⟨_, List.mem_singleton_self _, rfl⟩
  | ok i =>
    simp only [UInt16.ofNat_toNat, hi]
    exact ⟨_, List.mem_cons_self .., rfl⟩

theorem not_exists_line_nil (a : UInt16) : ¬∃ line ∈ ([] : List (UInt16 × String)), line.1 = a :=
  fun ⟨_, h, _⟩ => absurd h List.not_mem_nil

theorem linesFrom_eq_nil {m : Memory} {limit fuel a : Nat} {block : Bool} (h : limit ≤ a ∨ Memory.size ≤ a) :
    linesFrom m limit block fuel a = [] := by
  cases fuel with
  | zero => rfl
  | succ fuel => exact if_neg (by omega)

/-- A listing that begins where instructions lie has a line at the address they lead to exactly if it gets there along
    them. -/
theorem exists_line_iff {m : Memory} {limit : Nat} {xs : List Executed} {a b : UInt16} (hleads : Leads a xs b)
    (hdecode : ∀ x ∈ xs, Instruction.decode m x.fetched.pc = .ok x.fetched.instruction) (hlimit : b.toNat < limit)
    {fuel : Nat} (hfuel : b.toNat < fuel + a.toNat) :
    (∃ line ∈ linesFrom m limit true fuel a.toNat, line.1 = b) ↔ Reaches a.toNat xs b.toNat := by
  induction xs generalizing a fuel with
  | nil =>
    obtain rfl : a = b := hleads
    obtain ⟨k, rfl⟩ : ∃ k, fuel = k + 1 := Nat.exists_eq_add_one.mpr (by omega)
    exact iff_of_true (exists_line_self m hlimit true) (reaches_self _ _)
  | cons x xs ih =>
    obtain ⟨rfl, hleads⟩ := hleads
    rw [List.forall_mem_cons] at hdecode
    have hsize := size_pos_of_decode hdecode.1
    cases fuel with
    | zero => exact iff_of_false (not_exists_line_nil b) (not_reaches_of_lt (by omega))
    | succ fuel =>
      by_cases heq : x.fetched.pc = b
      · subst heq
        exact iff_of_true (exists_line_self m hlimit true) (reaches_self _ _)
      by_cases hfrom : x.fetched.pc.toNat < limit
      · rw [linesFrom_of_decode hdecode.1 hfrom, Bool.true_and, List.exists_mem_cons_iff,
          reaches_cons_iff (mt UInt16.toNat_inj.mp heq), or_iff_right heq]
        cases hends : endsBlock x.fetched.instruction with
        | true => exact iff_of_false (not_exists_line_nil b) fun h => Bool.true_eq_false.mp h.1
        | false =>
          rw [if_neg Bool.false_ne_true, and_iff_right rfl]
          by_cases hwraps : x.fetched.pc.toNat + x.fetched.instruction.size.toNat < Memory.size
          · have hnext : x.fetched.next.toNat = x.fetched.pc.toNat + x.fetched.instruction.size.toNat := by
              rw [Processor.Fetched.next, UInt16.toNat_add]
              exact Nat.mod_eq_of_lt hwraps
            rw [← hnext]
            exact ih hleads hdecode.2 (by omega)
          · -- a listing ends at the last address, where the program goes on at the first one
            have hb : b.toNat < Memory.size := b.toNat_lt
            rw [linesFrom_eq_nil (.inr (Nat.not_lt.mp hwraps))]
            exact iff_of_false (not_exists_line_nil b) (not_reaches_of_lt (by omega))
      · rw [linesFrom_eq_nil (.inl (Nat.not_lt.mp hfrom))]
        exact iff_of_false (not_exists_line_nil b) (not_reaches_of_lt (by omega))

end Listing

namespace Processor

/-! ### Runs -/

/-- Runs of steps with the instructions that they executed. Each step has a console of its own, and some may stop
    without an instruction. -/
inductive Runs (p : Processor) : List Executed → Processor → Prop where
  | refl : Runs p [] p
  | step {xs : List Executed} {q : Processor} (h : Runs p xs q) (c : Console) :
    Runs p (xs ++ executions 1 q c) (q.step c).processor

/-- The latest instructions that did not redirect the program. -/
def straight (xs : List Executed) : List Executed := xs.rtakeWhile fun x => x.fetched.flow? = some .sequential

theorem straight_concat_of_sequential {xs : List Executed} {x : Executed} (h : x.fetched.flow? = some .sequential) :
    straight (xs ++ [x]) = straight xs ++ [x] :=
  List.rtakeWhile_concat_pos _ _ _ (decide_eq_true h)

theorem straight_concat_of_ne {xs : List Executed} {x : Executed} (h : x.fetched.flow? ≠ some .sequential) :
    straight (xs ++ [x]) = [] :=
  List.rtakeWhile_concat_neg _ _ _ (mt of_decide_eq_true h)

theorem mem_straight {xs : List Executed} {x : Executed} (h : x ∈ straight xs) :
    x ∈ xs ∧ x.fetched.flow? = some .sequential := by
  have hflow : decide (x.fetched.flow? = some .sequential) = true :=
    List.mem_rtakeWhile_imp (p := fun x : Executed => decide (x.fetched.flow? = some .sequential)) h
  exact ⟨(List.rtakeWhile_suffix _ _).subset h, of_decide_eq_true hflow⟩

theorem step_cases (p : Processor) (c : Console) :
    ((p.step c).processor = p ∧ executions 1 p c = []) ∨
    ∃ f m, p.Fetches f ∧ f.effect = some m ∧ (p.step c).processor = f.settle m ∧
      executions 1 p c = [{ fetched := f, next := (f.settle m).pc }] := by
  obtain ⟨stopped, d, hfetch, -, -, hstep⟩ | ⟨f, d, reason, t, -, -, hwatch, -⟩ |
    ⟨f, d, t, m, hfetch, hf, -, hm, hstep⟩ := stepWatched_cases Watcher.none () p c
  · refine .inl ⟨by rw [step, hstep], ?_⟩
    rw [executions, hfetch]
  · cases hwatch
  · refine .inr ⟨f, m, hf, hm, by rw [step, hstep], ?_⟩
    simp only [executions, hfetch, step?, step, hstep]

/-- What holds at the start of a run and is kept by each instruction holds at the end of it. -/
theorem Runs.induction {p q : Processor} {xs : List Executed} (h : Runs p xs q) {P : List Executed → Processor → Prop}
    (hstart : P [] p)
    (hkept : ∀ ys r f m, P ys r → r.Fetches f → f.effect = some m →
      P (ys ++ [{ fetched := f, next := (f.settle m).pc }]) (f.settle m)) : P xs q := by
  induction h with
  | refl => exact hstart
  | step h c ih =>
    rename_i ys r
    obtain ⟨hsame, hnone⟩ | ⟨f, m, hf, hm, hsettle, hsome⟩ := r.step_cases c
    · rwa [hsame, hnone, List.append_nil]
    · rw [hsettle, hsome]
      exact hkept _ _ _ _ ih hf hm

theorem Runs.decode {p q : Processor} {xs : List Executed} (h : Runs p xs q) : ∀ x ∈ xs,
    Instruction.decode x.fetched.processor.memory x.fetched.pc = .ok x.fetched.instruction := by
  refine h.induction (P := fun xs _ => ∀ x ∈ xs,
    Instruction.decode x.fetched.processor.memory x.fetched.pc = .ok x.fetched.instruction)
    (List.forall_mem_nil _) fun ys r f m hys hf _ => ?_
  rw [List.forall_mem_append, List.forall_mem_singleton]
  exact ⟨hys, hf.decode⟩

/-- The latest straight line leads from where it was entered to the program counter. -/
theorem Runs.leads {p q : Processor} {xs : List Executed} (h : Runs p xs q) (hstart : p.blockStart = p.pc) :
    Leads q.blockStart (straight xs) q.pc := by
  refine h.induction (P := fun xs q => Leads q.blockStart (straight xs) q.pc) hstart fun ys r f m hleads hf hm => ?_
  have hflow : f.flow? = some (f.flow m.registers.pc) := by rw [Fetched.flow?, hm, Option.map_some]
  have hpc := Fetched.pc_settle f m
  by_cases hsequential : f.flow m.registers.pc = .sequential
  · rw [if_pos ((f.flow_eq_sequential_iff _).mp hsequential)] at hpc
    have hblock : (f.settle m).blockStart = r.blockStart := (if_pos hsequential).trans hf.blockStart
    rw [straight_concat_of_sequential (hflow.trans (congrArg some hsequential)), hblock, hpc]
    exact hleads.concat hf.pc
  · rw [if_neg (mt (f.flow_eq_sequential_iff _).mpr hsequential)] at hpc
    have hblock : (f.settle m).blockStart = m.registers.pc := if_neg hsequential
    rw [straight_concat_of_ne (hflow ▸ mt Option.some.inj hsequential), hblock, hpc]
    rfl

theorem Runs.append_run? {n : Nat} {o p q : Processor} {xs : List Executed} {c d : Console} (h : Runs o xs p)
    (hrun : run? n p c = some (q, d)) : Runs o (xs ++ executions n p c) q := by
  induction n generalizing p c xs with
  | zero =>
    cases hrun
    rwa [executions, List.append_nil]
  | succ n ih =>
    rw [run?, Option.bind_eq_some_iff] at hrun
    obtain ⟨⟨r, e⟩, hstep, hrest⟩ := hrun
    obtain ⟨f, m, hfetch, -, -, rfl⟩ := step?_cases hstep
    have hone : executions (n + 1) p c = executions 1 p c ++ executions n (f.settle m) e := by
      simp only [executions, hfetch, hstep, List.cons_append, List.nil_append]
    have hprocessor : (p.step c).processor = f.settle m := by
      rw [step?] at hstep
      split at hstep
      · exact congrArg Prod.fst (Option.some.inj hstep)
      · cases hstep
    rw [hone, ← List.append_assoc]
    exact ih (hprocessor ▸ h.step c) hrest

/-! ### The lines that are shown -/

/-- The lines of the code around the program counter. -/
def shownCode (p : Processor) : List (UInt16 × String) :=
  Listing.lines p.memory (min p.blockStart p.pc) (p.pc.toNat + View.codeWindow) true

theorem currentCode_eq (p : Processor) (colours : Bool) :
    View.currentCode p colours = String.join (p.shownCode.map fun row =>
      (if row.1 = p.pc then View.paint colours .green (View.codeRow row) else View.codeRow row) ++ "\n") := rfl

/-- The code that is shown has a line for the program counter exactly if the program has gone on below where the straight
    line was entered, or if a listing gets there along what was executed since then. So it has one if all returns and
    all jumps that are always taken redirect the program, unless a straight line takes up all of memory. -/
theorem Runs.shown_iff {m : Memory} {mode : InputMode} {collapse : Bool} {xs : List Executed} {q : Processor}
    (h : Runs { start m with inputMode := mode, collapse := collapse } xs q)
    (hkept : ∀ x ∈ straight xs, ∀ a ∈ x.code, q.memory.readByte a = x.fetched.processor.memory.readByte a) :
    ((∃ line ∈ q.shownCode, line.1 = q.pc) ↔
      q.pc < q.blockStart ∨ Listing.Reaches q.blockStart.toNat (straight xs) q.pc.toNat) ∧
    ((∀ x ∈ xs, Listing.endsBlock x.fetched.instruction = true → x.fetched.flow? ≠ some .sequential) →
      extent (straight xs) < Memory.size → ∃ line ∈ q.shownCode, line.1 = q.pc) := by
  have hleads : Leads q.blockStart (straight xs) q.pc := h.leads (Registers.pc_setPc _ _).symm
  have hdecode : ∀ x ∈ straight xs, Instruction.decode q.memory x.fetched.pc = .ok x.fetched.instruction := by
    intro x hx
    refine Instruction.decode_congr (h.decode x (mem_straight hx).1) fun k hk => ?_
    exact hkept x hx _ (List.mem_map.mpr ⟨k, List.mem_range.mpr hk, rfl⟩)
  have hlimit : q.pc.toNat < q.pc.toNat + View.codeWindow := Nat.lt_add_of_pos_right (by decide)
  have hfuel : q.pc.toNat < Memory.size := q.pc.toNat_lt
  have hiff : (∃ line ∈ q.shownCode, line.1 = q.pc) ↔
      q.pc < q.blockStart ∨ Listing.Reaches q.blockStart.toNat (straight xs) q.pc.toNat := by
    by_cases hbelow : q.pc < q.blockStart
    · have hstart : min q.blockStart q.pc = q.pc := if_neg (UInt16.not_le.mpr hbelow)
      rw [shownCode, hstart]
      exact iff_of_true (Listing.exists_line_self q.memory hlimit true) (.inl hbelow)
    · have hstart : min q.blockStart q.pc = q.blockStart := if_pos (UInt16.not_lt.mp hbelow)
      rw [shownCode, hstart, or_iff_right hbelow]
      exact Listing.exists_line_iff hleads hdecode hlimit (by omega)
  refine ⟨hiff, fun hredirects hextent => hiff.mpr ?_⟩
  by_cases hbelow : q.pc < q.blockStart
  · exact .inl hbelow
  · refine .inr ⟨straight xs, List.prefix_rfl, ?_, fun x hx => ?_⟩
    · have hpc := hleads.toNat_eq
      rw [UInt16.lt_iff_toNat_lt] at hbelow
      rw [Memory.size] at hpc hextent
      omega
    · obtain ⟨hmem, hflow⟩ := mem_straight hx
      exact Bool.eq_false_iff.mpr fun hends => hredirects x hmem hends hflow

/-- A decrement after a jump that led back to it, with one more jump to come. -/
theorem Runs.shown_iff_loop :
    let p : Processor :=
      { start ((Memory.zero.writeWords 0x4400 [0x4035, 0x0003, 0x5335, 0x23fe]).writeWord Memory.resetAddress 0x4400) with
        inputMode := .hex, collapse := false }
    let xs := executions 4 p {}
    ∃ q d, run? 4 p {} = some (q, d) ∧ Runs p xs q ∧
      (∀ x ∈ straight xs, ∀ a ∈ x.code, q.memory.readByte a = x.fetched.processor.memory.readByte a) ∧
      (∀ x ∈ xs, Listing.endsBlock x.fetched.instruction = true → x.fetched.flow? ≠ some .sequential) ∧
      extent (straight xs) < Memory.size ∧ q.blockStart = 0x4404 ∧ q.pc = 0x4406 ∧
      ∃ line ∈ q.shownCode, line.1 = q.pc := by
  intro p xs
  have hsome : (run? 4 p {}).isSome = true := by decide +kernel
  have hend : ∀ s ∈ run? 4 p {}, s.1.blockStart = 0x4404 ∧ s.1.pc = 0x4406 ∧ ∀ x ∈ straight xs,
      x.code.all fun a => s.1.memory.readByte a = x.fetched.processor.memory.readByte a := by
    decide +kernel
  have hredirects : ∀ x ∈ xs, Listing.endsBlock x.fetched.instruction = true → x.fetched.flow? ≠ some .sequential := by
    decide +kernel
  have hextent : extent (straight xs) < Memory.size := by decide +kernel
  obtain ⟨⟨q, d⟩, hrun⟩ := Option.isSome_iff_exists.mp hsome
  obtain ⟨hblock, hpc, hall⟩ := hend (q, d) hrun
  have hruns : Runs p xs q := Runs.refl.append_run? hrun
  have hkept : ∀ x ∈ straight xs, ∀ a ∈ x.code, q.memory.readByte a = x.fetched.processor.memory.readByte a :=
    fun x hx a ha => of_decide_eq_true (List.all_eq_true.mp (hall x hx) a ha)
  exact ⟨q, d, hrun, hruns, hkept, hredirects, hextent, hblock, hpc, (hruns.shown_iff hkept).2 hredirects hextent⟩

/-- After `jmp $+2`, which leaves all memory as it was, the listing ends with the jump. -/
theorem Runs.not_shown_after_jump :
    let p := start ((Memory.zero.writeWord 0x4400 0x3c00).writeWord Memory.resetAddress 0x4400)
    let q := (p.step {}).processor
    Runs p (executions 1 p {}) q ∧ (∀ x ∈ executions 1 p {}, x.code.all (x.Spares ·)) ∧
      (executions 1 p {}).length = 1 ∧ q.pc = 0x4402 ∧ ¬∃ line ∈ q.shownCode, line.1 = q.pc := by
  intro p q
  refine ⟨Runs.refl.step {}, ?_⟩
  decide +kernel

end Processor

end MicroDebug

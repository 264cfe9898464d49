import MicroDebug.Instruction.Listing
import MicroDebug.Proofs.Instruction.Decoding
import MicroDebug.Proofs.Text.Hex
import Mathlib.Data.List.Chain

/-! What a listing of a stretch of memory shows. It walks from each address past the instruction there, or past one word
    where there is none. Every address of the walk has a row of its own but for those of zero words, which have one star
    for each run of them. -/

namespace MicroDebug.Listing

/-! ### Walks and their rows -/

/-- The number of bytes from an address to the next one: the size of the instruction, or a word where the word is zero
    or there is no instruction. -/
def stride (m : Memory) (a : UInt16) : Nat :=
  match Instruction.decode m a with
  | .error _ => 2
  | .ok i => if m.readWord a = 0 then 2 else i.size.toNat

/-- The addresses are all that are walked over from the first on up to the end. -/
inductive Walks (m : Memory) (stop : Nat) : Nat → List UInt16 → Prop
  | done {a : Nat} (h : stop ≤ a) : Walks m stop a []
  | step {a : UInt16} {as : List UInt16} (h : a.toNat < stop) (hrest : Walks m stop (a.toNat + stride m a) as) :
      Walks m stop a.toNat (a :: as)

/-- The row of an address: the instruction there, or that there is none. -/
def row (m : Memory) (a : UInt16) : String :=
  Hex.word a ++ ": " ++
    match Instruction.decode m a with
    | .error _ => "Failed to disassemble."
    | .ok i => i.text a false

/-- The rows are those of the addresses in order, with one star for each run of zero words that is as long as can be. -/
inductive Shows (m : Memory) : List UInt16 → List String → Prop
  | nil : Shows m [] []
  | zeros {run as : List UInt16} {rows : List String} (hrun : run ≠ []) (hzero : ∀ a ∈ run, m.readWord a = 0)
      (hnext : ∀ a ∈ as.head?, m.readWord a ≠ 0) (h : Shows m as rows) : Shows m (run ++ as) ("*" :: rows)
  | line {a : UInt16} {as : List UInt16} {rows : List String} (hword : m.readWord a ≠ 0) (h : Shows m as rows) :
      Shows m (a :: as) (row m a :: rows)

/-! ### Steps -/

variable {m : Memory} {stop : Nat}

theorem exists_stride_eq (m : Memory) (a : UInt16) : ∃ k, stride m a = 2 * (k + 1) := by
  unfold stride
  cases hi : Instruction.decode m a with
  | error e => exact ⟨0, rfl⟩
  | ok i =>
    by_cases hword : m.readWord a = 0
    · exact ⟨0, if_pos hword⟩
    · obtain ⟨k, hk⟩ := Instruction.exists_size_eq hi
      exact ⟨k, (if_neg hword).trans hk⟩

theorem stride_of_zero {a : UInt16} (h : m.readWord a = 0) : stride m a = 2 := by
  unfold stride
  cases Instruction.decode m a with
  | error e => rfl
  | ok i => exact if_pos h

/-- Only past an instruction a walk goes on by more than a word. -/
theorem exists_instruction {a : UInt16} (h : stride m a ≠ 2) :
    ∃ i, Instruction.decode m a = .ok i ∧ m.readWord a ≠ 0 ∧ stride m a = i.size.toNat := by
  have hword : m.readWord a ≠ 0 := fun hword => h (stride_of_zero hword)
  unfold stride at h ⊢
  cases hi : Instruction.decode m a with
  | error e =>
    rw [hi] at h
    exact absurd rfl h
  | ok i => exact ⟨i, rfl, hword, if_neg hword⟩

theorem size_line {a : UInt16} (h : m.readWord a ≠ 0) : (line m a).1.toNat = stride m a := by
  unfold line stride
  cases Instruction.decode m a with
  | error e => rfl
  | ok i => exact (if_neg h).symm

theorem row_eq (m : Memory) (a : UInt16) : row m a = Hex.word a ++ ": " ++ (line m a).2 := by
  unfold row line
  cases Instruction.decode m a <;> rfl

theorem row_ne_star (m : Memory) (a : UInt16) : row m a ≠ "*" := by
  intro h
  have hlength := congrArg (fun text => text.toList.length) h
  simp [row, Hex.word, Hex.padded, Hex.length_paddedDigits_word] at hlength
  omega

theorem rowsFrom_of_le {fuel a : Nat} (hidden : Bool) (h : stop ≤ a) : rowsFrom m stop fuel a hidden = [] := by
  cases fuel with
  | zero => rfl
  | succ fuel => exact if_neg (Nat.not_lt_of_le h)

theorem rowsFrom_of_zero {fuel : Nat} {a : UInt16} (hidden : Bool) (h : a.toNat < stop) (hword : m.readWord a = 0) :
    rowsFrom m stop (fuel + 1) a.toNat hidden =
      (if hidden then id else ("*" :: ·)) (rowsFrom m stop fuel (a.toNat + stride m a) true) := by
  rw [rowsFrom, if_pos h, stride_of_zero hword]
  simp only [UInt16.ofNat_toNat, if_pos hword]

theorem rowsFrom_of_ne_zero {fuel : Nat} {a : UInt16} (hidden : Bool) (h : a.toNat < stop) (hword : m.readWord a ≠ 0) :
    rowsFrom m stop (fuel + 1) a.toNat hidden = row m a :: rowsFrom m stop fuel (a.toNat + stride m a) false := by
  rw [rowsFrom, if_pos h]
  simp only [UInt16.ofNat_toNat, if_neg hword, size_line hword, row_eq]

theorem exists_toNat_eq {a : Nat} (ha : a < stop) (hstop : stop ≤ Memory.size) : ∃ pc : UInt16, pc.toNat = a :=
  ⟨UInt16.ofNat a, UInt16.toNat_ofNat_of_lt (Nat.lt_of_lt_of_le ha hstop)⟩

/-- However many more steps are allowed, the rows are the same. -/
theorem rowsFrom_add (hstop : stop ≤ Memory.size) {fuel a : Nat} (hfuel : stop ≤ a + fuel) (hidden : Bool) (more : Nat) :
    rowsFrom m stop (fuel + more) a hidden = rowsFrom m stop fuel a hidden := by
  induction fuel generalizing a hidden with
  | zero => rw [rowsFrom_of_le hidden (show stop ≤ a from hfuel), rowsFrom_of_le hidden (show stop ≤ a from hfuel)]
  | succ fuel ih =>
    rcases Nat.lt_or_ge a stop with ha | ha
    · obtain ⟨pc, rfl⟩ := exists_toNat_eq ha hstop
      obtain ⟨k, hk⟩ := exists_stride_eq m pc
      have hnext : stop ≤ pc.toNat + stride m pc + fuel := by omega
      rw [Nat.add_right_comm]
      by_cases hword : m.readWord pc = 0
      · rw [rowsFrom_of_zero hidden ha hword, rowsFrom_of_zero hidden ha hword, ih hnext]
      · rw [rowsFrom_of_ne_zero hidden ha hword, rowsFrom_of_ne_zero hidden ha hword, ih hnext]
    · rw [rowsFrom_of_le hidden ha, rowsFrom_of_le hidden ha]

/-! ### The walk of a listing -/

/-- Whether the word at an address is zero. -/
def zeroAt (m : Memory) (a : UInt16) : Bool := m.readWord a == 0

theorem zeroAt_iff {a : UInt16} : zeroAt m a = true ↔ m.readWord a = 0 := beq_iff_eq

/-- A star stands for a zero word and all zero words that come right after it. -/
theorem shows_star {a : UInt16} {as : List UInt16} {rows : List String} (ha : m.readWord a = 0)
    (h : Shows m (as.dropWhile (zeroAt m)) rows) : Shows m (a :: as) ("*" :: rows) := by
  have hzero : ∀ b ∈ a :: as.takeWhile (zeroAt m), m.readWord b = 0 := by
    rw [List.forall_mem_cons]
    exact ⟨ha, fun b hb => zeroAt_iff.mp (List.all_eq_true.mp List.all_takeWhile b hb)⟩
  have hnext : ∀ b ∈ (as.dropWhile (zeroAt m)).head?, m.readWord b ≠ 0 := by
    intro b hb hword
    have hhead := List.head?_dropWhile_not (zeroAt m) as
    rw [Option.mem_def.mp hb] at hhead
    exact absurd (zeroAt_iff.mpr hword) (by simpa using hhead)
  have hshows := Shows.zeros (List.cons_ne_nil _ _) hzero hnext h
  rwa [List.cons_append, List.takeWhile_append_dropWhile] at hshows

/-- From any address the rows are those of the walk from there. Where a star has been shown before, the zero words that
    come first have none. -/
theorem exists_walk (hstop : stop ≤ Memory.size) {fuel a : Nat} (hfuel : stop ≤ a + fuel) :
    ∃ as, Walks m stop a as ∧ Shows m as (rowsFrom m stop fuel a false) ∧
      Shows m (as.dropWhile (zeroAt m)) (rowsFrom m stop fuel a true) := by
  induction fuel generalizing a with
  | zero => exact ⟨[], .done hfuel, .nil, .nil⟩
  | succ fuel ih =>
    rcases Nat.lt_or_ge a stop with ha | ha
    · obtain ⟨pc, rfl⟩ := exists_toNat_eq ha hstop
      obtain ⟨k, hk⟩ := exists_stride_eq m pc
      obtain ⟨as, hwalks, hshown, hhidden⟩ := ih (a := pc.toNat + stride m pc) (by omega)
      refine ⟨pc :: as, .step ha hwalks, ?_⟩
      by_cases hword : m.readWord pc = 0
      · rw [rowsFrom_of_zero false ha hword, rowsFrom_of_zero true ha hword,
          List.dropWhile_cons_of_pos (zeroAt_iff.mpr hword)]
        exact ⟨shows_star hword hhidden, hhidden⟩
      · rw [rowsFrom_of_ne_zero false ha hword, rowsFrom_of_ne_zero true ha hword,
          List.dropWhile_cons_of_neg (mt zeroAt_iff.mp hword)]
        exact ⟨.line hword hshown, .line hword hshown⟩
    · rw [rowsFrom_of_le false ha, rowsFrom_of_le true ha]
      exact ⟨[], .done ha, .nil, .nil⟩

namespace Walks

variable {a : Nat} {as : List UInt16}

theorem le (h : Walks m stop a as) : ∀ b ∈ as, a ≤ b.toNat := by
  induction h with
  | done => exact fun _ hb => absurd hb List.not_mem_nil
  | step _ _ ih =>
    rw [List.forall_mem_cons]
    exact ⟨Nat.le_refl _, fun b hb => Nat.le_trans (Nat.le_add_right _ _) (ih b hb)⟩

/-- Every place in the stretch is passed at exactly one address of the walk. -/
theorem existsUnique (h : Walks m stop a as) {x : Nat} (hx : a ≤ x) (hlt : x < stop) :
    ∃! b, b ∈ as ∧ b.toNat ≤ x ∧ x < b.toNat + stride m b := by
  induction h with
  | done hstop => omega
  | @step b as hb hrest ih =>
    by_cases hin : x < b.toNat + stride m b
    · refine ⟨b, ⟨List.mem_cons_self, hx, hin⟩, ?_⟩
      rintro c ⟨hc, hcx, -⟩
      rcases List.mem_cons.mp hc with rfl | hc
      · rfl
      · have := hrest.le c hc
        omega
    · obtain ⟨c, ⟨hc, hplace⟩, hunique⟩ := ih (by omega)
      refine ⟨c, ⟨List.mem_cons_of_mem _ hc, hplace⟩, ?_⟩
      rintro d ⟨hd, hdx, hxd⟩
      rcases List.mem_cons.mp hd with rfl | hd
      · exact absurd hxd hin
      · exact hunique d ⟨hd, hdx, hxd⟩

/-- All addresses of a walk are even or all are odd. -/
theorem even (h : Walks m stop a as) : ∀ b ∈ as, (b.toNat - a) % 2 = 0 := by
  induction h with
  | done => exact fun _ hb => absurd hb List.not_mem_nil
  | @step b as _ hrest ih =>
    rw [List.forall_mem_cons]
    refine ⟨by rw [Nat.sub_self], fun c hc => ?_⟩
    have hle := hrest.le c hc
    have heven := ih c hc
    obtain ⟨k, hk⟩ := exists_stride_eq m b
    omega

/-- A word that is not zero is at an address of the walk or behind the first word of an instruction at one. -/
theorem passes (h : Walks m stop a as) {x : UInt16} (hx : a ≤ x.toNat) (hlt : x.toNat < stop)
    (heven : (x.toNat - a) % 2 = 0) :
    x ∈ as ∨ ∃ b ∈ as, ∃ i, m.readWord b ≠ 0 ∧ Instruction.decode m b = .ok i ∧ b.toNat < x.toNat ∧
      x.toNat < b.toNat + i.size.toNat := by
  obtain ⟨b, ⟨hb, hle, hin⟩, -⟩ := h.existsUnique hx hlt
  rcases Nat.eq_or_lt_of_le hle with heq | hbefore
  · obtain rfl := UInt16.toNat_inj.mp heq
    exact .inl hb
  · have hbeven := h.even b hb
    have hfrom := h.le b hb
    -- the place is at least two bytes on, so the walk goes on by more than one word
    have hlong : stride m b ≠ 2 := by omega
    obtain ⟨i, hi, hword, hsize⟩ := exists_instruction hlong
    exact .inr ⟨b, hb, i, hword, hi, hbefore, hsize ▸ hin⟩

end Walks

namespace Shows

variable {as : List UInt16} {rows : List String}

theorem row_mem (h : Shows m as rows) : ∀ a ∈ as, m.readWord a ≠ 0 → row m a ∈ rows := by
  induction h with
  | nil => exact fun _ ha => absurd ha List.not_mem_nil
  | zeros _ hzero _ _ ih =>
    intro a ha hword
    rcases List.mem_append.mp ha with ha | ha
    · exact absurd (hzero a ha) hword
    · exact List.mem_cons_of_mem _ (ih a ha hword)
  | line _ _ ih =>
    intro a ha hword
    rcases List.mem_cons.mp ha with rfl | ha
    · exact List.mem_cons_self
    · exact List.mem_cons_of_mem _ (ih a ha hword)

theorem head_ne_star (h : Shows m as rows) (hhead : ∀ a ∈ as.head?, m.readWord a ≠ 0) :
    ∀ text ∈ rows.head?, text ≠ "*" := by
  cases h with
  | nil => exact fun _ htext => by cases htext
  | line =>
    rintro _ ⟨⟩
    exact row_ne_star m _
  | @zeros run as _ hrun hzero =>
    obtain ⟨a, more, rfl⟩ := List.exists_cons_of_ne_nil hrun
    exact absurd (hzero a List.mem_cons_self) (hhead a rfl)

/-- No star comes right after another. -/
theorem isChain (h : Shows m as rows) : rows.IsChain fun text next => text ≠ "*" ∨ next ≠ "*" := by
  induction h with
  | nil => exact .nil
  | zeros _ _ hnext h ih =>
    rw [List.isChain_cons]
    exact ⟨fun text htext => .inr (h.head_ne_star hnext text htext), ih⟩
  | line _ _ ih =>
    rw [List.isChain_cons]
    exact ⟨fun _ _ => .inl (row_ne_star m _), ih⟩

end Shows

/-- A listing has the rows of a walk over its whole stretch, however many steps it is allowed, and no two stars in a
    row. Every place is passed once, and a word that is not zero has a row or belongs to an instruction that has one. -/
theorem rows_cover_once (m : Memory) (start : UInt16) {stop : Nat} (hstop : stop ≤ Memory.size) :
    ∃ as, Walks m stop start.toNat as ∧ Shows m as (rows m start stop) ∧
      (∀ more, rowsFrom m stop (stop - start.toNat + more) start.toNat false = rows m start stop) ∧
      ((rows m start stop).IsChain fun text next => text ≠ "*" ∨ next ≠ "*") ∧
      (∀ x, start.toNat ≤ x → x < stop → ∃! b, b ∈ as ∧ b.toNat ≤ x ∧ x < b.toNat + stride m b) ∧
      ∀ x : UInt16, start.toNat ≤ x.toNat → x.toNat < stop → (x.toNat - start.toNat) % 2 = 0 → m.readWord x ≠ 0 →
        row m x ∈ rows m start stop ∨
          ∃ b i, row m b ∈ rows m start stop ∧ Instruction.decode m b = .ok i ∧ b.toNat < x.toNat ∧
            x.toNat < b.toNat + i.size.toNat := by
  have hfuel : stop ≤ start.toNat + (stop - start.toNat) := by omega
  obtain ⟨as, hwalks, hshows, -⟩ := exists_walk (m := m) hstop hfuel
  refine ⟨as, hwalks, hshows, rowsFrom_add hstop hfuel false, hshows.isChain,
    fun x => hwalks.existsUnique, fun x hx hlt heven hword => ?_⟩
  rcases hwalks.passes hx hlt heven with hmem | ⟨b, hb, i, hbword, hi, hbefore, hin⟩
  · exact .inl (hshows.row_mem x hmem hword)
  · exact .inr ⟨b, i, hshows.row_mem b hb hbword, hi, hbefore, hin⟩

/-- A move of a word of zero, two zero words after it, a word that is no instruction, and a move that goes on past the
    end of the listing. -/
theorem rows_cover_once_five :
    let m := Memory.zero.writeWords 0x4400 [0x4031, 0x0000, 0x0000, 0x0000, 0x0c00, 0x4035, 0x0001]
    0x440b ≤ Memory.size ∧ ∃ as, Walks m 0x440b 0x43fe as ∧
      Shows m as ["*", "4400: mov\t#0000, sp", "*", "4408: Failed to disassemble.", "440a: mov\t#0001, r5"] := by
  intro m
  have hrows : rows m 0x43fe 0x440b =
      ["*", "4400: mov\t#0000, sp", "*", "4408: Failed to disassemble.", "440a: mov\t#0001, r5"] := by decide +kernel
  obtain ⟨as, hwalks, hshows, -⟩ := rows_cover_once m 0x43fe (show 0x440b ≤ Memory.size by decide)
  rw [hrows] at hshows
  exact ⟨by decide, as, hwalks, hshows⟩

end MicroDebug.Listing

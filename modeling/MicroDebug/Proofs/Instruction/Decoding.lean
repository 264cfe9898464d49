import MicroDebug.Proofs.Instruction.Word
import MicroDebug.Proofs.Memory.Words

/-! Where an instruction is read. Memory holds an instruction at an even address exactly if the instruction is
    well formed and memory holds its words there, up to the two bits of a word with one operand that tell
    nothing. -/

namespace MicroDebug

/-! ### Operands -/

/-- The register exists, and a word follows the instruction word exactly if the operand needs one. -/
structure Operand.WellFormed (x : Operand) : Prop where
  reg_le : x.reg ≤ 15
  ext_iff : x.ext.isSome ↔ Operand.NeedsExtension x.mode x.reg

namespace Operand

theorem length_words (x : Operand) : x.words.length = if NeedsExtension x.mode x.reg then 1 else 0 := by
  rw [words]
  split <;> rfl

theorem length_words_le (x : Operand) : x.words.length ≤ 1 := by
  rw [length_words]
  split <;> simp

theorem read_eq_iff {m : Memory} {pc size size' : UInt16} {mode : Mode} {n : Nat} {x : Operand} (hn : n < 16) :
    Operand.read m pc size mode n = (x, size') ↔
      x.mode = mode ∧ x.reg.toNat = n ∧ x.WellFormed ∧ m.Holds (pc + size) x.words ∧
        size' = size + 2 * UInt16.ofNat x.words.length := by
  have hreg : ∀ r : Register, UInt8.ofNat n = r ↔ r.toNat = n := fun r => by
    rw [← UInt8.toNat_inj, UInt8.toNat_ofNat', Nat.mod_eq_of_lt (by omega)]
    exact eq_comm
  obtain ⟨mode', r, ext⟩ := x
  rw [Operand.read]
  constructor
  · intro h
    have hle : UInt8.ofNat n ≤ 15 := by
      rw [UInt8.le_iff_toNat_le, (hreg _).mp rfl]
      exact Nat.le_of_lt_succ hn
    split at h
    · next hneeds =>
      obtain ⟨⟨rfl, rfl, rfl⟩, rfl⟩ : (mode = mode' ∧ UInt8.ofNat n = r ∧ some _ = ext) ∧ size + 2 = size' := by
        simpa using h
      refine ⟨rfl, (hreg _).mp rfl, ⟨hle, by simp [hneeds]⟩, ?_, ?_⟩
      · simp [words, hneeds, extension, Memory.Holds]
      · simp [words, hneeds]
    · next hneeds =>
      obtain ⟨⟨rfl, rfl, rfl⟩, rfl⟩ : (mode = mode' ∧ UInt8.ofNat n = r ∧ none = ext) ∧ size = size' := by
        simpa using h
      refine ⟨rfl, (hreg _).mp rfl, ⟨hle, by simp [hneeds]⟩, ?_, ?_⟩
      · simp [words, hneeds, Memory.Holds]
      · simp [words, hneeds]
  · rintro ⟨rfl, hr, ⟨-, hext⟩, hholds, rfl⟩
    obtain rfl := (hreg r).mpr hr
    by_cases hneeds : NeedsExtension mode' (UInt8.ofNat n)
    · obtain ⟨w, rfl⟩ := Option.isSome_iff_exists.mp (hext.mpr hneeds)
      have hw : m.readWord (pc + size) = w := by
        simpa [words, hneeds, extension, Memory.Holds] using hholds
      simp [words, hneeds, hw]
    · have hnone : ext = none := by simpa using mt hext.mp hneeds
      simp [words, hneeds, hnone]

end Operand

theorem Operands.suits_read (m : Memory) (pc w : UInt16) (op : Operation) : (Operands.read m pc w op).1.Suits op := by
  cases op <;> exact trivial

/-! ### Instructions -/

namespace Instruction

/-- The parts of an instruction fit together: the operands suit the operation and are well formed, a jump works
    on words, and the size is that of the words. -/
structure WellFormed (i : Instruction) : Prop where
  suits : i.operands.Suits i.operation
  operands : ∀ x ∈ i.operands.toList, x.WellFormed
  width : ∀ c, i.operation = .jump c → i.width = .word
  size : ∀ ws, i.encode? = some ws → i.size.toNat = 2 * ws.length

/-- Memory holds at an even address the words of an instruction, up to the bits that tell nothing. -/
def Lies (i : Instruction) (m : Memory) (pc : UInt16) : Prop :=
  pc % 2 = 0 ∧ ∃ w rest, i.encode? = some (w :: rest) ∧ significant (m.readWord pc) = w ∧ m.Holds (pc + 2) rest

theorem shape_of_suits {i : Instruction} (h : i.operands.Suits i.operation) :
    (∃ op width x size, i = ⟨.unary op, width, .one x, size⟩) ∨
    (∃ c width d size, i = ⟨.jump c, width, .offset d, size⟩) ∨
    (∃ op width x y size, i = ⟨.binary op, width, .two x y, size⟩) := by
  obtain ⟨op, width, operands, size⟩ := i
  cases op with
  | unary op =>
    cases operands with
    | one x => exact Or.inl ⟨op, width, x, size, rfl⟩
    | offset d => exact absurd h id
    | two x y => exact absurd h id
  | jump c =>
    cases operands with
    | one x => exact absurd h id
    | offset d => exact Or.inr (Or.inl ⟨c, width, d, size, rfl⟩)
    | two x y => exact absurd h id
  | binary op =>
    cases operands with
    | one x => exact absurd h id
    | offset d => exact absurd h id
    | two x y => exact Or.inr (Or.inr ⟨op, width, x, y, size, rfl⟩)

theorem suits_of_encode? {i : Instruction} {ws : List UInt16} (h : i.encode? = some ws) :
    i.operands.Suits i.operation := by
  obtain ⟨op, width, operands, size⟩ := i
  cases op <;> cases operands <;> trivial

variable {m : Memory} {pc : UInt16}

theorem decode_of_odd (h : pc % 2 ≠ 0) : decode m pc = .error (.unaligned pc) := by
  rw [decode, if_pos h]

theorem decode_of_even (h : pc % 2 = 0) : decode m pc =
    match Operation.ofWord? (m.readWord pc) with
    | none => .error (.invalid pc (m.readWord pc))
    | some op => .ok
        { operation := op
          width := op.widthOf (m.readWord pc)
          operands := (Operands.read m pc (m.readWord pc) op).1
          size := (Operands.read m pc (m.readWord pc) op).2 } :=
  if_neg (not_not_intro h)

theorem decode_eq_ok_iff_read {i : Instruction} : decode m pc = .ok i ↔
    pc % 2 = 0 ∧ Operation.ofWord? (m.readWord pc) = some i.operation ∧
      i.width = i.operation.widthOf (m.readWord pc) ∧
      Operands.read m pc (m.readWord pc) i.operation = (i.operands, i.size) := by
  obtain ⟨op, width, operands, size⟩ := i
  by_cases heven : pc % 2 = 0
  · rw [decode_of_even heven]
    cases hop : Operation.ofWord? (m.readWord pc) with
    | none => simp
    | some op' =>
      simp only [heven, true_and, Except.ok.injEq, mk.injEq, Option.some.injEq]
      constructor
      · rintro ⟨rfl, rfl, rfl, rfl⟩
        exact ⟨rfl, rfl, rfl⟩
      · rintro ⟨rfl, rfl, hread⟩
        rw [hread]
        exact ⟨rfl, rfl, rfl, rfl⟩
  · simp [decode_of_odd heven, heven]

/-- There is no instruction at an odd address, and none for a word that asks for no operation. -/
theorem exists_decode_eq_error_iff : (∃ e, decode m pc = .error e) ↔
    pc % 2 ≠ 0 ∨ Operation.ofWord? (m.readWord pc) = none := by
  by_cases heven : pc % 2 = 0
  · rw [decode_of_even heven]
    cases hop : Operation.ofWord? (m.readWord pc) <;> simp [heven]
  · simp [decode_of_odd heven, heven]

/-! ### The three shapes -/

variable {width : Width} {size : UInt16}

/-- The size that reading counts is that of the words. -/
theorem size_eq_iff {n : Nat} (hn : n ≤ 2) :
    size.toNat = 2 * (n + 1) ↔ size = 2 + 2 * UInt16.ofNat n := by
  rw [← UInt16.toNat_inj]
  have : n = 0 ∨ n = 1 ∨ n = 2 := by omega
  rcases this with rfl | rfl | rfl <;> rfl

theorem decode_eq_unary_iff {op : UnaryOp} {x : Operand} :
    decode m pc = .ok ⟨.unary op, width, .one x, size⟩ ↔
      WellFormed ⟨.unary op, width, .one x, size⟩ ∧ Lies ⟨.unary op, width, .one x, size⟩ m pc := by
  have hencode : encode? ⟨.unary op, width, .one x, size⟩ =
      some (((Operation.unary op).codeBits ||| (if width = .byte then 0x0040 else 0) |||
        UInt16.ofNat (x.mode.bits * 16) ||| x.reg.toUInt16) :: x.words) := rfl
  have hread : Operands.read m pc (m.readWord pc) (.unary op) = (.one x, size) ↔
      Operand.read m pc 2 (.ofBits (bitField (m.readWord pc) 4 2)) (bitField (m.readWord pc) 0 4) = (x, size) := by
    simp [Operands.read, Prod.ext_iff]
  rw [decode_eq_ok_iff_read, hread, Operand.read_eq_iff (bitField_lt _ 0 4)]
  constructor
  · rintro ⟨heven, hop, hwidth, hmode, hreg, hx, hholds, rfl⟩
    refine ⟨⟨trivial, by simpa [Operands.toList] using hx, by simp, fun ws hws => ?_⟩, heven, _, _, hencode, ?_, hholds⟩
    · obtain rfl := Option.some.inj (hencode.symm.trans hws)
      exact (size_eq_iff (by have := x.length_words_le; omega)).mpr rfl
    · exact (significant_eq_unary_iff hx.reg_le).mpr ⟨hop, hwidth, hmode, hreg⟩
  · rintro ⟨hwf, heven, w, rest, hws, hword, hholds⟩
    have hx : x.WellFormed := hwf.operands x (List.mem_singleton_self x)
    obtain ⟨rfl, rfl⟩ := List.cons.inj (Option.some.inj (hencode.symm.trans hws))
    obtain ⟨hop, hwidth, hmode, hreg⟩ := (significant_eq_unary_iff hx.reg_le).mp hword
    have hsize := hwf.size _ hencode
    exact ⟨heven, hop, hwidth, hmode, hreg, hx, hholds,
      (size_eq_iff (by have := x.length_words_le; omega)).mp hsize⟩

theorem encode?_jump (c : Condition) (d : Int16) (size : UInt16) : encode? ⟨.jump c, .word, .offset d, size⟩ =
    if JumpReach d then some [(Operation.jump c).codeBits ||| offsetBits d] else none := by
  have hzero : (Operation.jump c).codeBits ||| 0 = (Operation.jump c).codeBits := UInt16.or_zero
  rw [← hzero]
  rfl

theorem decode_eq_jump_iff {c : Condition} {d : Int16} :
    decode m pc = .ok ⟨.jump c, width, .offset d, size⟩ ↔
      WellFormed ⟨.jump c, width, .offset d, size⟩ ∧ Lies ⟨.jump c, width, .offset d, size⟩ m pc := by
  have hencode := encode?_jump c d size
  have hread : Operands.read m pc (m.readWord pc) (.jump c) = (.offset d, size) ↔
      offsetOfWord (m.readWord pc) = d ∧ 2 = size := by
    simp [Operands.read, Prod.ext_iff]
  rw [decode_eq_ok_iff_read, hread]
  constructor
  · rintro ⟨heven, hop, hwidth, hoffset, rfl⟩
    obtain rfl : width = .word := hwidth
    obtain ⟨hreach, hword⟩ := significant_eq_jump_iff.mpr ⟨hop, hoffset⟩
    rw [if_pos hreach] at hencode
    refine ⟨⟨trivial, by simp [Operands.toList], fun _ _ => rfl, fun ws hws => ?_⟩, heven, _, _, hencode, hword,
      trivial⟩
    obtain rfl := Option.some.inj (hencode.symm.trans hws)
    rfl
  · rintro ⟨hwf, heven, w, rest, hws, hword, -⟩
    obtain rfl : width = .word := hwf.width c rfl
    rw [hencode] at hws
    split at hws
    · next hreach =>
      rw [if_pos hreach] at hencode
      obtain ⟨rfl, rfl⟩ := List.cons.inj (Option.some.inj hws)
      obtain ⟨hop, hoffset⟩ := significant_eq_jump_iff.mp ⟨hreach, hword⟩
      exact ⟨heven, hop, rfl, hoffset, ((size_eq_iff (Nat.zero_le 2)).mp (hwf.size _ hencode)).symm⟩
    · cases hws

theorem decode_eq_binary_iff {op : BinaryOp} {x y : Operand} :
    decode m pc = .ok ⟨.binary op, width, .two x y, size⟩ ↔
      WellFormed ⟨.binary op, width, .two x y, size⟩ ∧ Lies ⟨.binary op, width, .two x y, size⟩ m pc := by
  have hencode : ∀ bit, y.mode.targetBit? = some bit → encode? ⟨.binary op, width, .two x y, size⟩ =
      some (((Operation.binary op).codeBits ||| (if width = .byte then (0x0040 : UInt16) else 0) |||
        (x.reg.toUInt16 <<< 8) ||| (bit <<< 7) ||| UInt16.ofNat (x.mode.bits * 16) ||| y.reg.toUInt16) ::
          (x.words ++ y.words)) := fun bit hbit => by
    simp only [encode?, hbit, Option.map_some]
  have hread : Operands.read m pc (m.readWord pc) (.binary op) = (.two x y, size) ↔ ∃ s,
      Operand.read m pc 2 (.ofBits (bitField (m.readWord pc) 4 2)) (bitField (m.readWord pc) 8 4) = (x, s) ∧
      Operand.read m pc s (.ofBits (bitField (m.readWord pc) 7 1)) (bitField (m.readWord pc) 0 4) = (y, size) := by
    simp [Operands.read, Prod.ext_iff, and_assoc]
  have htarget := bitField_lt (m.readWord pc) 7 1
  have hlength : (x.words ++ y.words).length ≤ 2 := by
    have hx := x.length_words_le
    have hy := y.length_words_le
    rw [List.length_append]
    omega
  simp only [decode_eq_ok_iff_read, hread, Operand.read_eq_iff (bitField_lt _ _ 4)]
  constructor
  · rintro ⟨heven, hop, hwidth, s, ⟨hxmode, hxreg, hx, hxholds, rfl⟩, hymode, hyreg, hy, hyholds, rfl⟩
    have hbits := Mode.ofBits_eq_iff.mp hymode.symm
    obtain ⟨bit, hbit⟩ : ∃ bit : UInt16, bit.toNat = bitField (m.readWord pc) 7 1 :=
      ⟨UInt16.ofNat (bitField (m.readWord pc) 7 1), by rw [UInt16.toNat_ofNat', Nat.mod_eq_of_lt (by omega)]⟩
    have hencode := hencode bit (Mode.targetBit?_eq_some_iff.mpr (by omega))
    refine ⟨⟨trivial, ?_, by simp, fun ws hws => ?_⟩, heven, _, _, hencode, ?_, ?_⟩
    · simp [Operands.toList, hx, hy]
    · obtain rfl := Option.some.inj (hencode.symm.trans hws)
      rw [List.length_cons, size_eq_iff hlength, List.length_append, UInt16.ofNat_add]
      grind
    · exact (significant_eq_binary_iff hx.reg_le (by omega) hy.reg_le).mpr ⟨hop, hwidth, hxmode, hxreg, hbit, hyreg⟩
    · rw [Memory.holds_append, UInt16.add_assoc]
      exact ⟨hxholds, hyholds⟩
  · rintro ⟨hwf, heven, w, rest, hws, hword, hholds⟩
    have hx : x.WellFormed := hwf.operands x (by simp [Operands.toList])
    have hy : y.WellFormed := hwf.operands y (by simp [Operands.toList])
    obtain ⟨bit, hbit⟩ : ∃ bit, y.mode.targetBit? = some bit := by
      cases hbit : y.mode.targetBit? with
      | none => simp [encode?, hbit] at hws
      | some bit => exact ⟨bit, rfl⟩
    have hencode := hencode bit hbit
    obtain ⟨hbits, hlt⟩ := Mode.targetBit?_eq_some_iff.mp hbit
    obtain ⟨rfl, rfl⟩ := List.cons.inj (Option.some.inj (hencode.symm.trans hws))
    obtain ⟨hop, hwidth, hxmode, hxreg, hfield, hyreg⟩ :=
      (significant_eq_binary_iff hx.reg_le hlt hy.reg_le).mp hword
    have hymode : y.mode = Mode.ofBits (bitField (m.readWord pc) 7 1) :=
      (Mode.ofBits_eq_iff.mpr (by omega)).symm
    rw [Memory.holds_append, UInt16.add_assoc] at hholds
    have hsize : size = 2 + 2 * UInt16.ofNat (x.words ++ y.words).length :=
      (size_eq_iff hlength).mp (hwf.size _ hencode)
    refine ⟨heven, hop, hwidth, _, ⟨hxmode, hxreg, hx, hholds.1, rfl⟩, hymode, hyreg, hy, hholds.2, ?_⟩
    rw [hsize, List.length_append, UInt16.ofNat_add]
    grind

theorem suits_of_decode {i : Instruction} (h : decode m pc = .ok i) : i.operands.Suits i.operation := by
  obtain ⟨-, -, -, hread⟩ := decode_eq_ok_iff_read.mp h
  have hsuits := Operands.suits_read m pc (m.readWord pc) i.operation
  rwa [hread] at hsuits

/-- An instruction is read from memory exactly if it is well formed and memory holds it. -/
theorem decode_eq_ok_iff {i : Instruction} : decode m pc = .ok i ↔ i.WellFormed ∧ i.Lies m pc := by
  by_cases hs : i.operands.Suits i.operation
  · rcases shape_of_suits hs with ⟨op, width, x, size, rfl⟩ | ⟨c, width, d, size, rfl⟩ | ⟨op, width, x, y, size, rfl⟩
    · exact decode_eq_unary_iff
    · exact decode_eq_jump_iff
    · exact decode_eq_binary_iff
  · exact ⟨fun h => absurd (suits_of_decode h) hs, fun h => absurd h.1.suits hs⟩

theorem exists_size_eq {i : Instruction} (h : decode m pc = .ok i) : ∃ k, i.size.toNat = 2 * (k + 1) := by
  obtain ⟨hwf, -, w, rest, hencode, -, -⟩ := decode_eq_ok_iff.mp h
  exact ⟨rest.length, hwf.size _ hencode⟩

end Instruction
end MicroDebug

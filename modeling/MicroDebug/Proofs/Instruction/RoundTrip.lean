import MicroDebug.Proofs.Instruction.Decoding

/-! Reading and writing instructions undo each other, in both directions and at every address. -/

namespace MicroDebug.Instruction

variable {i : Instruction} {ws : List UInt16} {m n : Memory} {pc : UInt16}

/-! ### Words -/

/-- There is a word for the instruction and one for each operand that needs one. -/
theorem length_encode? (h : i.encode? = some ws) :
    ws.length = 1 + i.operands.toList.countP fun x => Operand.NeedsExtension x.mode x.reg := by
  rcases shape_of_suits (suits_of_encode? h) with
    ⟨op, width, x, size, rfl⟩ | ⟨c, width, d, size, rfl⟩ | ⟨op, width, x, y, size, rfl⟩
  · obtain rfl := Option.some.inj h
    simp [Operands.toList, Operand.length_words, List.countP_cons, Nat.add_comm]
  · change ite (JumpReach d) _ _ = _ at h
    split at h
    · obtain rfl := Option.some.inj h
      rfl
    · cases h
  · obtain ⟨bit, -, rfl⟩ := Option.map_eq_some_iff.mp h
    simp [Operands.toList, Operand.length_words, List.countP_cons]
    omega

theorem length_encode?_le (h : i.encode? = some ws) : ws.length ≤ 3 := by
  have hcount : i.operands.toList.length ≤ 2 := by
    cases i.operands <;> simp [Operands.toList]
  have := List.countP_le_length (p := fun x => Operand.NeedsExtension x.mode x.reg) (l := i.operands.toList)
  rw [length_encode? h]
  omega

/-- The word of an instruction leaves no bit set that tells nothing. -/
theorem significant_encode? {w : UInt16} {rest : List UInt16} (hi : i.WellFormed) (h : i.encode? = some (w :: rest)) :
    significant w = w := by
  rw [← UInt16.toNat_inj, toNat_significant]
  rcases shape_of_suits hi.suits with
    ⟨op, width, x, size, rfl⟩ | ⟨c, width, d, size, rfl⟩ | ⟨op, width, x, y, size, rfl⟩
  · have hx := hi.operands x (List.mem_singleton_self x)
    obtain ⟨rfl, -⟩ := List.cons.inj (Option.some.inj h)
    have hr : x.reg.toNat ≤ 15 := UInt8.le_iff_toNat_le.mp hx.reg_le
    have hop := op.code_lt
    have hwidth := width.code_lt
    have hmode := x.mode.bits_lt
    rw [toNat_unary_word op width x.mode hx.reg_le]
    split <;> omega
  · obtain rfl : width = .word := hi.width c rfl
    rw [encode?_jump] at h
    split at h
    · obtain ⟨rfl, -⟩ := List.cons.inj (Option.some.inj h)
      rw [toNat_jump_word, if_neg (by omega)]
    · cases h
  · have hx := hi.operands x (by simp [Operands.toList])
    have hy := hi.operands y (by simp [Operands.toList])
    obtain ⟨bit, hbit, h⟩ := Option.map_eq_some_iff.mp h
    obtain ⟨rfl, -⟩ := List.cons.inj h
    obtain ⟨-, hlt⟩ := Mode.targetBit?_eq_some_iff.mp hbit
    have hop := op.code_mem
    rw [toNat_binary_word op width x.mode hx.reg_le hlt hy.reg_le, if_neg (by omega)]

theorem encode?_eq_none_iff (hs : i.operands.Suits i.operation) : i.encode? = none ↔
    (∃ x y, i.operands = .two x y ∧ (y.mode = .indirect ∨ y.mode = .autoincrement)) ∨
      ∃ d, i.operands = .offset d ∧ (d.toInt % 2 ≠ 0 ∨ d.toInt < -1022 ∨ 1024 < d.toInt) := by
  rcases shape_of_suits hs with ⟨op, width, x, size, rfl⟩ | ⟨c, width, d, size, rfl⟩ | ⟨op, width, x, y, size, rfl⟩
  · simp [encode?]
  · have hnone : encode? ⟨.jump c, width, .offset d, size⟩ = none ↔ ¬JumpReach d := by
      by_cases hd : JumpReach d <;> simp [encode?, hd]
    have hreach : ¬JumpReach d ↔ d.toInt % 2 ≠ 0 ∨ d.toInt < -1022 ∨ 1024 < d.toInt := by
      rw [JumpReach]
      omega
    rw [hnone, hreach]
    simp
  · have hmode : y.mode.targetBit? = none ↔ y.mode = .indirect ∨ y.mode = .autoincrement := by
      cases y.mode <;> simp [Mode.targetBit?]
    simp [encode?, hmode]

/-! ### Reading, then writing -/

/-- Reading an instruction depends on nothing but the bytes it takes up. -/
theorem decode_congr (h : decode m pc = .ok i)
    (hb : ∀ k < i.size.toNat, n.readByte (pc + UInt16.ofNat k) = m.readByte (pc + UInt16.ofNat k)) :
    decode n pc = .ok i := by
  obtain ⟨hi, heven, w, rest, hws, hword, hholds⟩ := decode_eq_ok_iff.mp h
  have hsize := hi.size _ hws
  rw [List.length_cons] at hsize
  refine decode_eq_ok_iff.mpr ⟨hi, heven, w, rest, hws, ?_, hholds.congr fun k hk => ?_⟩
  · have hread : n.readWord pc = m.readWord pc :=
      Memory.readWord_congr (by simpa using hb 0 (by omega)) (hb 1 (by omega))
    rw [hread, hword]
  · rw [← Memory.add_ofNat_add_two]
    exact hb (k + 2) (by omega)

theorem toNat_shiftRight_seven_and (w : UInt16) : ((w >>> 7) &&& 7).toNat = w.toNat / 128 % 8 := by
  rw [UInt16.toNat_and, UInt16.toNat_shiftRight]
  change w.toNat >>> 7 &&& 2 ^ 3 - 1 = _
  rw [Nat.and_two_pow_sub_one_eq_mod, Nat.shiftRight_eq_div_pow]

theorem decode_fails_iff : (∃ e, decode m pc = .error e) ↔
    pc % 2 ≠ 0 ∨ m.readWord pc >>> 12 = 0 ∨ m.readWord pc >>> 12 = 1 ∧ (m.readWord pc >>> 7) &&& 7 = 7 := by
  have hzero : m.readWord pc >>> 12 = 0 ↔ (m.readWord pc).toNat / 4096 = 0 := by
    rw [← UInt16.toNat_inj, toNat_shiftRight_twelve]
    rfl
  have hcode : (m.readWord pc >>> 7) &&& 7 = 7 ↔ (m.readWord pc).toNat / 128 % 8 = 7 := by
    rw [← UInt16.toNat_inj, toNat_shiftRight_seven_and]
    rfl
  rw [exists_decode_eq_error_iff, Operation.ofWord?_eq_none_iff, hzero, shiftRight_twelve_eq_one_iff, hcode]

/-- There is an instruction at every even address whose word asks for an operation, and writing it gives the
    words it was read from, but for two bits that tell nothing. -/
theorem encode?_of_decode (m : Memory) (pc : UInt16) :
    ((∃ e, decode m pc = .error e) ↔
      pc % 2 ≠ 0 ∨ m.readWord pc >>> 12 = 0 ∨ m.readWord pc >>> 12 = 1 ∧ (m.readWord pc >>> 7) &&& 7 = 7) ∧
    ∀ i, decode m pc = .ok i →
      i.operands.Suits i.operation ∧
      i.size.toNat = 2 + 2 * (i.operands.toList.countP fun x => Operand.NeedsExtension x.mode x.reg) ∧
      (∃ ws, i.encode? = some ws ∧ ws.length = i.size.toNat / 2 ∧
        ws[0]? = some (if m.readWord pc >>> 12 = 1 then m.readWord pc &&& 0xf3ff else m.readWord pc) ∧
        ∀ j (hj : j < ws.length), 1 ≤ j → ws[j] = m.readWord (pc + 2 * UInt16.ofNat j)) ∧
      ∀ n : Memory, (∀ k < i.size.toNat, n.readByte (pc + UInt16.ofNat k) = m.readByte (pc + UInt16.ofNat k)) →
        decode n pc = .ok i := by
  refine ⟨decode_fails_iff, fun i h => ?_⟩
  obtain ⟨hi, -, w, rest, hws, hword, hholds⟩ := decode_eq_ok_iff.mp h
  have hsize := hi.size _ hws
  have hlength := length_encode? hws
  refine ⟨hi.suits, by omega, ⟨_, hws, by omega, ?_, fun j hj hpos => ?_⟩, fun n => decode_congr h⟩
  · rw [List.getElem?_cons_zero, ← hword]
    rfl
  · obtain ⟨j, rfl⟩ := Nat.exists_eq_add_of_le' hpos
    rw [List.getElem_cons_succ, hholds.getElem, Memory.add_two_mul_ofNat_succ]

/-- A push of an indexed operand at the last word, with the two bits set that tell nothing. -/
theorem encode?_of_decode_last_word :
    decode (Memory.zero.writeWords 0xfffe [0x1e11, 0x8004]) 0xfffe =
        .ok ⟨.unary .push, .word, .one ⟨.indexed, Register.sp, some 0x8004⟩, 4⟩ ∧
      ∃ ws, encode? ⟨.unary .push, .word, .one ⟨.indexed, Register.sp, some 0x8004⟩, 4⟩ = some ws ∧
        ws.length = 2 ∧ ws[0]? = some 0x1211 := by
  have hdecode : decode (Memory.zero.writeWords 0xfffe [0x1e11, 0x8004]) 0xfffe =
      .ok ⟨.unary .push, .word, .one ⟨.indexed, Register.sp, some 0x8004⟩, 4⟩ := rfl
  obtain ⟨-, -, ⟨ws, hws, hlength, hfirst, -⟩, -⟩ := (encode?_of_decode _ _).2 _ hdecode
  exact ⟨hdecode, ws, hws, hlength, hfirst⟩

/-! ### Writing, then reading -/

/-- A well-formed instruction has words unless its target or its distance does not fit, and is read again from
    wherever its words are written. -/
theorem decode_of_encode? (i : Instruction) (hi : i.WellFormed) :
    (i.encode? = none ↔
      (∃ x y, i.operands = .two x y ∧ (y.mode = .indirect ∨ y.mode = .autoincrement)) ∨
        ∃ d, i.operands = .offset d ∧ (d.toInt % 2 ≠ 0 ∨ d.toInt < -1022 ∨ 1024 < d.toInt)) ∧
    ∀ ws, i.encode? = some ws → ∀ (m : Memory) (pc : UInt16), pc % 2 = 0 → decode (m.writeWords pc ws) pc = .ok i := by
  refine ⟨encode?_eq_none_iff hi.suits, fun ws hws m pc heven => ?_⟩
  have hlength := length_encode? hws
  have hle := length_encode?_le hws
  obtain ⟨w, rest, rfl⟩ := List.exists_cons_of_length_pos (by omega : 0 < ws.length)
  obtain ⟨hword, hrest⟩ : (m.writeWords pc (w :: rest)).Holds pc (w :: rest) := Memory.holds_writeWords m pc (by omega)
  refine decode_eq_ok_iff.mpr ⟨hi, heven, w, rest, hws, ?_, hrest⟩
  rw [hword, significant_encode? hi hws]

/-- An addition of bytes between two places in memory, written across the end of memory. -/
theorem decode_of_encode?_across_end :
    WellFormed ⟨.binary .add, .byte, .two ⟨.indexed, 15, some 0x8000⟩ ⟨.indexed, Register.sr, some 0xfffe⟩, 6⟩ ∧
      decode (Memory.zero.writeWords 0xfffe [0x5fd2, 0x8000, 0xfffe]) 0xfffe =
        .ok ⟨.binary .add, .byte, .two ⟨.indexed, 15, some 0x8000⟩ ⟨.indexed, Register.sr, some 0xfffe⟩, 6⟩ := by
  have hwf : WellFormed
      ⟨.binary .add, .byte, .two ⟨.indexed, 15, some 0x8000⟩ ⟨.indexed, Register.sr, some 0xfffe⟩, 6⟩ :=
    { suits := trivial
      operands := by
        intro x hx
        rcases List.mem_pair.mp hx with rfl | rfl
        · exact ⟨by decide, by decide⟩
        · exact ⟨by decide, by decide⟩
      width := by simp
      size := by
        intro ws hws
        obtain rfl := Option.some.inj hws
        rfl }
  exact ⟨hwf, (decode_of_encode? _ hwf).2 _ rfl _ _ rfl⟩

end MicroDebug.Instruction

import MicroDebug.Instruction.Decode
import MicroDebug.Instruction.Encode
import Mathlib.Data.UInt
import Mathlib.Tactic.IntervalCases

/-! Instruction words as numbers. Each shape of instruction is a sum of fields, and a word is read as an
    operation with its operands exactly if it is the sum of their fields. -/

namespace MicroDebug

/-! ### Fields -/

theorem bitField_eq (w : UInt16) (low count : Nat) : bitField w low count = w.toNat / 2 ^ low % 2 ^ count := by
  rw [bitField, Nat.shiftRight_eq_div_pow, Nat.shiftLeft_eq, Nat.one_mul]

theorem bitField_lt (w : UInt16) (low count : Nat) : bitField w low count < 2 ^ count := by
  rw [bitField_eq]
  exact Nat.mod_lt _ (Nat.two_pow_pos count)

/-- Bits below the lowest bit of a word are added to it. -/
theorem toNat_or_of_lt {a b : UInt16} {x y : Nat} (k : Nat) (ha : a.toNat = x) (hb : b.toNat = y) (hx : x % 2 ^ k = 0)
    (hy : y < 2 ^ k) : (a ||| b).toNat = x + y := by
  have hdiv : x = 2 ^ k * (x / 2 ^ k) := by
    have := Nat.div_add_mod x (2 ^ k)
    omega
  rw [UInt16.toNat_or, ha, hb, hdiv, ← Nat.two_pow_add_eq_or_of_lt hy]

/-! ### Codes -/

/-- The width as a bit. -/
def Width.code : Width → Nat
  | word => 0
  | byte => 1

theorem Width.ofWord_eq_iff {w : UInt16} {width : Width} :
    Width.ofWord w = width ↔ w.toNat / 64 % 2 = width.code := by
  rw [ofWord, bitField_eq]
  have : w.toNat / 2 ^ 6 % 2 ^ 1 = w.toNat / 64 % 2 := rfl
  rw [this]
  cases width <;> simp only [code] <;> split <;> simp <;> omega

theorem Mode.bits_lt (m : Mode) : m.bits < 4 := by cases m <;> decide

theorem Mode.ofBits_eq_iff {n : Nat} {m : Mode} : Mode.ofBits n = m ↔ n % 4 = m.bits := by
  constructor
  · rintro rfl
    have h : n % 4 = 0 ∨ n % 4 = 1 ∨ n % 4 = 2 ∨ n % 4 = 3 := by omega
    rcases h with h | h | h | h <;> rw [ofBits, h] <;> rfl
  · intro h
    rw [ofBits, h]
    cases m <;> rfl

theorem Mode.targetBit?_eq_some_iff {m : Mode} {bit : UInt16} :
    m.targetBit? = some bit ↔ m.bits = bit.toNat ∧ bit.toNat < 2 := by
  have hbit : ∀ k : UInt16, k = bit ↔ bit.toNat = k.toNat := fun k => by
    rw [← UInt16.toNat_inj]
    exact eq_comm
  cases m <;> simp only [targetBit?, bits, Option.some.injEq, hbit, reduceCtorEq, false_iff]
  · change bit.toNat = 0 ↔ _
    omega
  · change bit.toNat = 1 ↔ _
    omega
  · omega
  · omega

theorem UnaryOp.code_lt (op : UnaryOp) : op.code < 7 := by cases op <;> decide

theorem UnaryOp.ofCode?_eq_some_iff {n : Nat} {op : UnaryOp} : ofCode? n = some op ↔ n = op.code := by
  constructor
  · intro h
    have hn : n < 7 := (List.getElem?_eq_some_iff.mp h).1
    interval_cases n <;> cases h <;> rfl
  · rintro rfl
    exact ofCode?_code op

theorem UnaryOp.ofCode?_eq_none_iff {n : Nat} : UnaryOp.ofCode? n = none ↔ 7 ≤ n := List.getElem?_eq_none_iff

theorem Condition.code_lt (c : Condition) : c.code < 8 := by cases c <;> decide

theorem Condition.ofCode?_eq_some_iff {n : Nat} {c : Condition} : ofCode? n = some c ↔ n = c.code := by
  constructor
  · intro h
    have hn : n < 8 := (List.getElem?_eq_some_iff.mp h).1
    interval_cases n <;> cases h <;> rfl
  · rintro rfl
    exact ofCode?_code c

theorem BinaryOp.code_mem (op : BinaryOp) : 4 ≤ op.code ∧ op.code < 16 := by cases op <;> decide

theorem BinaryOp.ofCode?_eq_some_iff {n : Nat} {op : BinaryOp} : ofCode? n = some op ↔ n = op.code := by
  constructor
  · intro h
    rw [ofCode?] at h
    split at h
    · cases h
    · have hn : n - 4 < 12 := (List.getElem?_eq_some_iff.mp h).1
      have hlow : 4 ≤ n := by omega
      have hhigh : n < 16 := by omega
      interval_cases n <;> cases h <;> rfl
  · rintro rfl
    exact ofCode?_code op

theorem BinaryOp.ofCode?_eq_none_iff {n : Nat} : BinaryOp.ofCode? n = none ↔ n < 4 ∨ 16 ≤ n := by
  rw [ofCode?]
  split
  · simp only [true_iff]
    omega
  · rw [List.getElem?_eq_none_iff]
    change 12 ≤ n - 4 ↔ _
    omega

/-! ### The operation of a word -/

namespace Operation

theorem ofWord?_eq (w : UInt16) : ofWord? w =
    if w.toNat / 4096 = 1 then (UnaryOp.ofCode? (w.toNat / 128 % 8)).map unary
    else if w.toNat / 8192 = 1 then (Condition.ofCode? (w.toNat / 1024 % 8)).map jump
    else (BinaryOp.ofCode? (w.toNat / 4096)).map binary := by
  have hn := w.toNat_lt
  have htop : bitField w 12 4 = w.toNat / 4096 := by
    rw [bitField_eq]
    omega
  have hone : bitField w 7 3 = w.toNat / 128 % 8 := bitField_eq w 7 3
  have hjump : bitField w 10 3 = w.toNat / 1024 % 8 := bitField_eq w 10 3
  rw [ofWord?, htop, hone, hjump]
  split
  · next h => rw [if_pos h]
  · next h => rw [if_neg (by omega), if_pos (by omega)]
  · next h => rw [if_neg (by omega), if_pos (by omega)]
  · next h₁ h₂ h₃ =>
    have hne₂ : w.toNat / 4096 ≠ 2 := h₂
    have hne₃ : w.toNat / 4096 ≠ 3 := h₃
    rw [if_neg h₁, if_neg (by omega)]

theorem ofWord?_eq_unary_iff {w : UInt16} {op : UnaryOp} :
    ofWord? w = some (.unary op) ↔ w.toNat / 4096 = 1 ∧ w.toNat / 128 % 8 = op.code := by
  rw [ofWord?_eq]
  split
  · next h => simp [UnaryOp.ofCode?_eq_some_iff, h]
  · next h => split <;> simp [h]

theorem ofWord?_eq_jump_iff {w : UInt16} {c : Condition} :
    ofWord? w = some (.jump c) ↔ w.toNat / 8192 = 1 ∧ w.toNat / 1024 % 8 = c.code := by
  rw [ofWord?_eq]
  split
  · next h =>
    have hne : w.toNat / 8192 ≠ 1 := by omega
    simp [hne]
  · split
    · next h => simp [Condition.ofCode?_eq_some_iff, h]
    · next h => simp [h]

theorem ofWord?_eq_binary_iff {w : UInt16} {op : BinaryOp} :
    ofWord? w = some (.binary op) ↔ w.toNat / 4096 = op.code := by
  have hop := op.code_mem
  rw [ofWord?_eq]
  split
  · next h =>
    have hne : 1 ≠ op.code := by omega
    simp [h, hne]
  · split
    · next h =>
      have hne : w.toNat / 4096 ≠ op.code := by omega
      simp [hne]
    · simp [BinaryOp.ofCode?_eq_some_iff]

theorem ofWord?_eq_none_iff {w : UInt16} :
    ofWord? w = none ↔ w.toNat / 4096 = 0 ∨ w.toNat / 4096 = 1 ∧ w.toNat / 128 % 8 = 7 := by
  have hn := w.toNat_lt
  rw [ofWord?_eq]
  split
  · next h =>
    rw [Option.map_eq_none_iff, UnaryOp.ofCode?_eq_none_iff]
    omega
  · split
    · next h =>
      obtain ⟨c, hc⟩ : ∃ c, Condition.ofCode? (w.toNat / 1024 % 8) = some c :=
        ⟨_, List.getElem?_eq_getElem (Nat.mod_lt _ (by decide))⟩
      rw [hc]
      simp only [Option.map_some, reduceCtorEq, false_iff]
      omega
    · rw [Option.map_eq_none_iff, BinaryOp.ofCode?_eq_none_iff]
      omega

end Operation

/-! ### The word of an instruction -/

theorem Width.code_lt (width : Width) : width.code < 2 := by cases width <;> decide

namespace Instruction

/-- What a word tells about its instruction. With one operand, bits 10 and 11 tell nothing. -/
def significant (w : UInt16) : UInt16 := if w >>> 12 = 1 then w &&& 0xf3ff else w

theorem toNat_shiftRight_twelve (w : UInt16) : (w >>> 12).toNat = w.toNat / 4096 := by
  rw [UInt16.toNat_shiftRight]
  exact Nat.shiftRight_eq_div_pow w.toNat 12

theorem shiftRight_twelve_eq_one_iff {w : UInt16} : w >>> 12 = 1 ↔ w.toNat / 4096 = 1 := by
  rw [← UInt16.toNat_inj, toNat_shiftRight_twelve]
  rfl

theorem toNat_significant (w : UInt16) :
    (significant w).toNat = if w.toNat / 4096 = 1 then 4096 + w.toNat % 1024 else w.toNat := by
  simp only [significant, shiftRight_twelve_eq_one_iff]
  split
  · next h =>
    have hmod : (w &&& 0xf3ff).toNat % 1024 = w.toNat % 1024 := by
      rw [UInt16.toNat_and]
      change (w.toNat &&& 62463) % 2 ^ 10 = _
      rw [Nat.and_mod_two_pow]
      exact (Nat.and_two_pow_sub_one_eq_mod _ 10).trans (Nat.mod_mod _ _)
    have hdiv : (w &&& 0xf3ff).toNat / 1024 = 4 := by
      rw [UInt16.toNat_and]
      change (w.toNat &&& 62463) / 2 ^ 10 = 4
      rw [Nat.and_div_two_pow]
      change w.toNat / 1024 &&& 60 = 4
      have hq : w.toNat / 1024 = 4 ∨ w.toNat / 1024 = 5 ∨ w.toNat / 1024 = 6 ∨ w.toNat / 1024 = 7 := by omega
      rcases hq with hq | hq | hq | hq <;> rw [hq] <;> rfl
    omega
  · rfl

/-- The bits of a word for an operation at a width. -/
theorem toNat_codeBits_unary (op : UnaryOp) : (Operation.unary op).codeBits.toNat = 4096 + 128 * op.code := by
  cases op <;> rfl

theorem toNat_codeBits_jump (c : Condition) : (Operation.jump c).codeBits.toNat = 8192 + 1024 * c.code := by
  cases c <;> rfl

theorem toNat_codeBits_binary (op : BinaryOp) : (Operation.binary op).codeBits.toNat = 4096 * op.code := by
  cases op <;> rfl

theorem toNat_widthBit (width : Width) :
    (if width = .byte then (0x0040 : UInt16) else 0).toNat = 64 * width.code := by
  cases width <;> rfl

theorem toNat_modeBits (m : Mode) : (UInt16.ofNat (m.bits * 16)).toNat = 16 * m.bits := by
  cases m <;> rfl

/-- The lowest three fields of a word with operands: its width, the mode of an operand and a register. -/
theorem toNat_or_width_mode_register {c : UInt16} {x : Nat} (width : Width) (mode : Mode) {r : Register}
    (hc : c.toNat = x) (hx : x % 2 ^ 7 = 0) (hr : r ≤ 15) :
    (c ||| (if width = .byte then 0x0040 else 0) ||| UInt16.ofNat (mode.bits * 16) ||| r.toUInt16).toNat =
      x + 64 * width.code + 16 * mode.bits + r.toNat := by
  have hw := width.code_lt
  have hm := mode.bits_lt
  have hr' : r.toNat ≤ 15 := UInt8.le_iff_toNat_le.mp hr
  have h₁ := toNat_or_of_lt 7 hc (toNat_widthBit width) hx (by omega)
  have h₂ := toNat_or_of_lt 6 h₁ (toNat_modeBits mode) (by omega) (by omega)
  exact toNat_or_of_lt 4 h₂ (UInt8.toNat_toUInt16 r) (by omega) (by omega)

theorem toNat_unary_word (op : UnaryOp) (width : Width) (mode : Mode) {r : Register} (hr : r ≤ 15) :
    ((Operation.unary op).codeBits ||| (if width = .byte then 0x0040 else 0) ||| UInt16.ofNat (mode.bits * 16) |||
      r.toUInt16).toNat = 4096 + 128 * op.code + 64 * width.code + 16 * mode.bits + r.toNat :=
  toNat_or_width_mode_register width mode (toNat_codeBits_unary op) (by omega) hr

theorem toNat_jump_word (c : Condition) (d : Int16) :
    ((Operation.jump c).codeBits ||| offsetBits d).toNat =
      8192 + 1024 * c.code + ((d.toInt / 2 - 1) % 1024).toNat := by
  have hlt : ((d.toInt / 2 - 1) % 1024).toNat < 2 ^ 10 := by omega
  have hbits : (offsetBits d).toNat = ((d.toInt / 2 - 1) % 1024).toNat := by
    rw [offsetBits, UInt16.toNat_ofNat', Nat.mod_eq_of_lt (by omega)]
  exact toNat_or_of_lt 10 (toNat_codeBits_jump c) hbits (by omega) hlt

theorem toNat_binary_word (op : BinaryOp) (width : Width) (mode : Mode) {r q : Register} {bit : UInt16} (hr : r ≤ 15)
    (hbit : bit.toNat < 2) (hq : q ≤ 15) :
    ((Operation.binary op).codeBits ||| (if width = .byte then (0x0040 : UInt16) else 0) ||| (r.toUInt16 <<< 8) |||
      (bit <<< 7) ||| UInt16.ofNat (mode.bits * 16) ||| q.toUInt16).toNat =
      4096 * op.code + 256 * r.toNat + 128 * bit.toNat + 64 * width.code + 16 * mode.bits + q.toNat := by
  have hr' : r.toNat ≤ 15 := UInt8.le_iff_toNat_le.mp hr
  have hsource : (r.toUInt16 <<< 8).toNat = 256 * r.toNat := by
    rw [UInt16.toNat_shiftLeft, UInt8.toNat_toUInt16]
    change r.toNat <<< 8 % 65536 = _
    rw [Nat.shiftLeft_eq]
    omega
  have htarget : (bit <<< 7).toNat = 128 * bit.toNat := by
    rw [UInt16.toNat_shiftLeft]
    change bit.toNat <<< 7 % 65536 = _
    rw [Nat.shiftLeft_eq]
    omega
  have h₁ := toNat_or_of_lt 12 (toNat_codeBits_binary op) hsource (by omega) (by omega)
  have h₂ := toNat_or_of_lt 8 h₁ htarget (by omega) (by omega)
  -- The width bit is written before the fields above it; the order does not matter.
  have hmove : ∀ c k s b : UInt16, c ||| k ||| s ||| b = c ||| s ||| b ||| k := fun c k s b => by ac_rfl
  rw [hmove (Operation.binary op).codeBits]
  exact toNat_or_width_mode_register width mode h₂ (by omega) hq

/-! ### Reading a word -/

theorem significant_eq_unary_iff {w : UInt16} {op : UnaryOp} {width : Width} {mode : Mode} {r : Register}
    (hr : r ≤ 15) :
    significant w = ((Operation.unary op).codeBits ||| (if width = .byte then 0x0040 else 0) |||
        UInt16.ofNat (mode.bits * 16) ||| r.toUInt16) ↔
      Operation.ofWord? w = some (.unary op) ∧ width = Width.ofWord w ∧ mode = Mode.ofBits (bitField w 4 2) ∧
        r.toNat = bitField w 0 4 := by
  have hr' : r.toNat ≤ 15 := UInt8.le_iff_toNat_le.mp hr
  have hop := op.code_lt
  have hwidth := width.code_lt
  have hmode := mode.bits_lt
  rw [← UInt16.toNat_inj, toNat_unary_word op width mode hr, toNat_significant, Operation.ofWord?_eq_unary_iff,
    eq_comm (a := width), Width.ofWord_eq_iff, eq_comm (a := mode), Mode.ofBits_eq_iff, bitField_eq, bitField_eq]
  simp only [Nat.reducePow, Nat.div_one]
  split <;> omega

theorem toInt_offsetOfWord (w : UInt16) : (offsetOfWord w).toInt =
    2 * ((if (w.toNat % 1024 : Int) < 512 then (w.toNat % 1024 : Int) else w.toNat % 1024 - 1024) + 1) := by
  obtain ⟨n, hn⟩ : ∃ n : Int, n = bitField w 0 10 := ⟨_, rfl⟩
  have hmod : (w.toNat : Int) % 1024 = n := by
    have := bitField_eq w 0 10
    omega
  have hoffset : offsetOfWord w = Int16.ofInt (2 * ((if n < 512 then n else n - 1024) + 1)) := by
    subst hn
    rfl
  rw [hmod, hoffset]
  apply Int16.toInt_ofInt_of_le
  · split <;> omega
  · split <;> omega

theorem significant_eq_jump_iff {w : UInt16} {c : Condition} {d : Int16} :
    (JumpReach d ∧ significant w = ((Operation.jump c).codeBits ||| offsetBits d)) ↔
      Operation.ofWord? w = some (.jump c) ∧ offsetOfWord w = d := by
  have hc := c.code_lt
  rw [← UInt16.toNat_inj, toNat_jump_word, toNat_significant, Operation.ofWord?_eq_jump_iff, ← Int16.toInt_inj,
    toInt_offsetOfWord, JumpReach]
  split <;> split <;> omega

theorem significant_eq_binary_iff {w : UInt16} {op : BinaryOp} {width : Width} {mode : Mode} {r q : Register}
    {bit : UInt16} (hr : r ≤ 15) (hbit : bit.toNat < 2) (hq : q ≤ 15) :
    significant w = ((Operation.binary op).codeBits ||| (if width = .byte then (0x0040 : UInt16) else 0) |||
        (r.toUInt16 <<< 8) ||| (bit <<< 7) ||| UInt16.ofNat (mode.bits * 16) ||| q.toUInt16) ↔
      Operation.ofWord? w = some (.binary op) ∧ width = Width.ofWord w ∧ mode = Mode.ofBits (bitField w 4 2) ∧
        r.toNat = bitField w 8 4 ∧ bit.toNat = bitField w 7 1 ∧ q.toNat = bitField w 0 4 := by
  have hr' : r.toNat ≤ 15 := UInt8.le_iff_toNat_le.mp hr
  have hq' : q.toNat ≤ 15 := UInt8.le_iff_toNat_le.mp hq
  have hop := op.code_mem
  have hwidth := width.code_lt
  have hmode := mode.bits_lt
  rw [← UInt16.toNat_inj, toNat_binary_word op width mode hr hbit hq, toNat_significant,
    Operation.ofWord?_eq_binary_iff, eq_comm (a := width), Width.ofWord_eq_iff, eq_comm (a := mode),
    Mode.ofBits_eq_iff, bitField_eq, bitField_eq, bitField_eq, bitField_eq]
  simp only [Nat.reducePow, Nat.div_one]
  split <;> omega

end Instruction
end MicroDebug

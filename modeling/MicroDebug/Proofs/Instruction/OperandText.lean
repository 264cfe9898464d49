import MicroDebug.Proofs.Instruction.Decoding
import MicroDebug.Proofs.Text.Hex

/-! No two operands are written alike. The notations are told apart by their first and last characters, and an immediate
    value from a constant by its length, so the text of an operand is read back as the operand. -/

namespace MicroDebug

open Numeral (valueFrom? digitIn?)

/-! ### Registers -/

namespace Register

theorem of_le {P : Register → Prop} (h : ∀ n < 16, P (UInt8.ofNat n)) {r : Register} (hr : r ≤ 15) : P r := by
  rw [← UInt8.ofNat_toNat (x := r)]
  exact h r.toNat (Nat.lt_succ_of_le (UInt8.le_iff_toNat_le.mp hr))

/-- The register whose name is written. -/
def ofChars? (cs : List Char) : Option Register := ofName? (String.ofList cs)

theorem ofChars?_name {r : Register} (hr : r ≤ 15) : ofChars? r.name.toList = some r := by
  rw [ofChars?, String.ofList_toList]
  exact of_le (P := fun r => ofName? r.name = some r) (by decide) hr

theorem not_mem_name {r : Register} (hr : r ≤ 15) {c : Char} (hc : c.isAlphanum = false) : c ∉ r.name.toList := by
  have hall : r.name.toList.all Char.isAlphanum = true :=
    of_le (P := fun r => r.name.toList.all Char.isAlphanum = true) (by decide) hr
  intro h
  rw [List.all_eq_true.mp hall c h] at hc
  cases hc

end Register

/-! ### Operands -/

/-- The operand that has a meaning that names no register. -/
def Literal.operand? : Literal → Option Operand
  | constant n => Operand.constant? n
  | absolute a => some (Operand.absolute a)
  | immediate w => some (Operand.immediate w)

namespace Operand

/-- The number that is written in base 16, after a minus sign or without one. -/
def signed? (cs : List Char) : Option Int :=
  if cs.head? = some '-' then (valueFrom? 16 0 cs.tail).map (-Int.ofNat ·) else (valueFrom? 16 0 cs).map Int.ofNat

/-- The operand that is written. -/
def ofText? (cs : List Char) : Option Operand :=
  if cs.head? = some '&' then (valueFrom? 16 0 cs.tail).map fun n => absolute (UInt16.ofNat n)
  else if cs.head? = some '#' then
    if cs.tail.length = 4 then (valueFrom? 16 0 cs.tail).map fun n => immediate (UInt16.ofNat n)
    else (signed? cs.tail).bind fun n => constant? (Int16.ofInt n)
  else if cs.head? = some '@' then
    if cs.getLast? = some '+' then (Register.ofChars? cs.tail.dropLast).map fun r => { mode := .autoincrement, reg := r }
    else (Register.ofChars? cs.tail).map fun r => { mode := .indirect, reg := r }
  else if cs.getLast? = some ')' then
    (signed? (cs.takeWhile (· ≠ '('))).bind fun n =>
      (Register.ofChars? (cs.dropWhile (· ≠ '(')).tail.dropLast).map fun r =>
        { mode := .indexed, reg := r, ext := some (Int16.ofInt n).toUInt16 }
  else (Register.ofChars? cs).map ofRegister

theorem toList_signedHex (n : Int) :
    (signedHex n).toList = if n < 0 then '-' :: Hex.digits n.natAbs else Hex.digits n.natAbs := by
  rw [signedHex]
  split
  · exact String.toList_append.trans (congrArg _ String.toList_ofList)
  · rw [Hex.short, String.toList_ofList]

theorem of_mem_signedHex {n : Int} {c : Char} (h : c ∈ (signedHex n).toList) :
    c = '-' ∨ (digitIn? 16 c).isSome = true := by
  rw [toList_signedHex] at h
  split at h
  · rcases List.mem_cons.mp h with rfl | h
    · exact .inl rfl
    · exact .inr (Hex.digit_of_mem_digits h)
  · exact .inr (Hex.digit_of_mem_digits h)

theorem signed?_signedHex (n : Int) : signed? (signedHex n).toList = some n := by
  rw [toList_signedHex]
  split
  · next hneg =>
    have hvalue : -Int.ofNat n.natAbs = n := by
      rw [Int.ofNat_eq_natCast]
      omega
    rw [signed?, List.head?_cons, if_pos rfl, List.tail_cons, Hex.valueFrom?_digits, Option.map_some, hvalue]
  · next hnonneg =>
    have hhead : (Hex.digits n.natAbs).head? ≠ some '-' := fun h =>
      absurd (Hex.digit_of_mem_digits (List.mem_of_mem_head? h)) (by decide)
    have hvalue : Int.ofNat n.natAbs = n := Int.natAbs_of_nonneg (by omega)
    rw [signed?, if_neg hhead, Hex.valueFrom?_digits, Option.map_some, hvalue]

theorem toList_word (w : UInt16) : (Hex.word w).toList = Hex.paddedDigits 4 w.toNat := by
  rw [Hex.word, Hex.padded, String.toList_ofList]

section

variable {x : Operand} (hx : x.WellFormed)
include hx

theorem WellFormed.ext_eq : x.ext = if NeedsExtension x.mode x.reg then some x.extension else none := by
  have hneeds := hx.ext_iff
  cases hext : x.ext with
  | some w =>
    rw [hext] at hneeds
    rw [if_pos (hneeds.mp rfl), extension, hext, Option.getD_some]
  | none =>
    rw [hext] at hneeds
    rw [if_neg fun h => absurd (hneeds.mpr h) Bool.false_ne_true]

theorem operand?_of_literal? {l : Literal} (h : x.literal? = some l) : l.operand? = some x := by
  have hext := hx.ext_eq
  obtain ⟨mode, r, ext⟩ := x
  change ext = if NeedsExtension mode r then some (ext.getD 0) else none at hext
  rw [literal?] at h
  split at h
  · next hr =>
    obtain rfl : r = Register.sr := hr
    cases mode <;> cases h <;> rw [hext] <;> rfl
  · split at h
    · next hr =>
      obtain rfl : r = Register.cg := hr
      cases mode <;> cases h <;> rw [hext] <;> rfl
    · split at h
      · next hr =>
        obtain ⟨rfl, rfl⟩ : r = Register.pc ∧ mode = .autoincrement := hr
        cases h
        rw [hext]
        rfl
      · cases h

theorem ext_eq_of_literal? (h : x.literal? = none) : x.ext = if x.mode = .indexed then some x.extension else none := by
  rw [hx.ext_eq]
  refine if_congr ?_ rfl rfl
  obtain ⟨mode, r, ext⟩ := x
  have hcg : r ≠ Register.cg := by
    rintro rfl
    cases mode <;> cases h
  have hpc : ¬(mode = .autoincrement ∧ r = Register.pc) := by
    rintro ⟨rfl, rfl⟩
    cases h
  exact ⟨fun hneeds => (hneeds.resolve_right hpc).1, fun hmode => .inl ⟨hmode, hcg⟩⟩

end

theorem ofText?_absolute (a : UInt16) : ofText? ('&' :: Hex.paddedDigits 4 a.toNat) = some (absolute a) := by
  rw [ofText?, List.head?_cons, if_pos rfl, List.tail_cons, Hex.valueFrom?_paddedDigits, Option.map_some,
    UInt16.ofNat_toNat]

theorem ofText?_immediate (w : UInt16) : ofText? ('#' :: Hex.paddedDigits 4 w.toNat) = some (immediate w) := by
  rw [ofText?, List.head?_cons, if_neg (by decide), if_pos rfl, List.tail_cons,
    if_pos (Hex.length_paddedDigits_word w), Hex.valueFrom?_paddedDigits, Option.map_some, UInt16.ofNat_toNat]

/-- Constants are shorter than immediate values. -/
theorem length_signedHex_of_constant? {n : Int16} {x : Operand} (h : constant? n = some x) :
    (signedHex n.toInt).toList.length ≠ 4 := by
  rw [constant?] at h
  split_ifs at h with h4 h8 h0 h1 h2 hminus
  · rw [h4]
    decide
  · rw [h8]
    decide
  · rw [h0]
    decide
  · rw [h1]
    decide
  · rw [h2]
    decide
  · rw [hminus]
    decide

theorem ofText?_constant {n : Int16} {x : Operand} (h : constant? n = some x) :
    ofText? ('#' :: (signedHex n.toInt).toList) = some x := by
  rw [ofText?, List.head?_cons, if_neg (by decide), if_pos rfl, List.tail_cons,
    if_neg (length_signedHex_of_constant? h), signed?_signedHex, Option.bind_some, Int16.ofInt_toInt, h]

section

variable {r : Register} (hr : r ≤ 15)
include hr

theorem ofText?_indirect : ofText? ('@' :: r.name.toList) = some ⟨.indirect, r, none⟩ := by
  have hlast : ('@' :: r.name.toList).getLast? ≠ some '+' := by
    intro h
    rcases List.mem_cons.mp (List.mem_of_getLast? h) with h | h
    · cases h
    · exact Register.not_mem_name hr rfl h
  rw [ofText?, List.head?_cons, if_neg (by decide), if_neg (by decide), if_pos rfl, if_neg hlast, List.tail_cons,
    Register.ofChars?_name hr, Option.map_some]

theorem ofText?_autoincrement : ofText? ('@' :: (r.name.toList ++ ['+'])) = some ⟨.autoincrement, r, none⟩ := by
  have hlast : ('@' :: (r.name.toList ++ ['+'])).getLast? = some '+' := List.getLast?_concat (l := '@' :: r.name.toList)
  rw [ofText?, List.head?_cons, if_neg (by decide), if_neg (by decide), if_pos rfl, if_pos hlast, List.tail_cons,
    List.dropLast_concat, Register.ofChars?_name hr, Option.map_some]

theorem ofText?_register : ofText? r.name.toList = some (ofRegister r) := by
  have hhead {c : Char} (hc : c.isAlphanum = false) : r.name.toList.head? ≠ some c :=
    mt List.mem_of_head? (Register.not_mem_name hr hc)
  have hlast : r.name.toList.getLast? ≠ some ')' := mt List.mem_of_getLast? (Register.not_mem_name hr rfl)
  rw [ofText?, if_neg (hhead rfl), if_neg (hhead rfl), if_neg (hhead rfl), if_neg hlast,
    Register.ofChars?_name hr, Option.map_some]

theorem ofText?_indexed (e : UInt16) :
    ofText? ((signedHex e.toInt16.toInt).toList ++ '(' :: (r.name.toList ++ [')'])) = some ⟨.indexed, r, some e⟩ := by
  generalize hcs : (signedHex e.toInt16.toInt).toList = cs
  have hne : cs ≠ [] := by
    rw [← hcs, toList_signedHex]
    split
    · exact List.cons_ne_nil _ _
    · exact Hex.digits_ne_nil _
  have hmem {c : Char} (hc : c ∈ cs) : c = '-' ∨ (digitIn? 16 c).isSome = true := of_mem_signedHex (hcs ▸ hc)
  have hhead {c : Char} (hminus : c ≠ '-') (hdigit : (digitIn? 16 c).isSome = false) (ds : List Char) :
      (cs ++ ds).head? ≠ some c := by
    intro h
    rw [List.head?_append_of_ne_nil _ hne] at h
    rcases hmem (List.mem_of_head? h) with h | h
    · exact hminus h
    · rw [hdigit] at h
      cases h
  have hbefore : ∀ c ∈ cs, decide (c ≠ '(') = true := by
    intro c hc
    rw [decide_eq_true_eq]
    rintro rfl
    rcases hmem hc with h | h
    · cases h
    · cases h
  have hlast : (cs ++ '(' :: (r.name.toList ++ [')'])).getLast? = some ')' := by
    rw [List.append_cons, ← List.append_assoc, List.getLast?_concat]
  have hoffset : (cs ++ '(' :: (r.name.toList ++ [')'])).takeWhile (· ≠ '(') = cs := by
    rw [List.takeWhile_append_of_pos hbefore]
    exact List.append_nil cs
  have hname : (cs ++ '(' :: (r.name.toList ++ [')'])).dropWhile (· ≠ '(') = '(' :: (r.name.toList ++ [')']) := by
    rw [List.dropWhile_append_of_pos hbefore]
    rfl
  rw [ofText?, if_neg (hhead (by decide) rfl _), if_neg (hhead (by decide) rfl _), if_neg (hhead (by decide) rfl _),
    if_pos hlast, hoffset, hname, ← hcs, signed?_signedHex, Option.bind_some, List.tail_cons, List.dropLast_concat,
    Register.ofChars?_name hr, Option.map_some, Int16.ofInt_toInt, UInt16.toUInt16_toInt16]

end

/-- The notations of operands. -/
inductive Written : Operand → List Char → Prop where
  | absolute (a : UInt16) : Written (.absolute a) ('&' :: Hex.paddedDigits 4 a.toNat)
  | immediate (w : UInt16) : Written (.immediate w) ('#' :: Hex.paddedDigits 4 w.toNat)
  | constant {n : Int16} {x : Operand} (h : constant? n = some x) : Written x ('#' :: (signedHex n.toInt).toList)
  | register {r : Register} (hr : r ≤ 15) : Written (ofRegister r) r.name.toList
  | indexed {r : Register} (hr : r ≤ 15) (e : UInt16) :
    Written ⟨.indexed, r, some e⟩ ((signedHex e.toInt16.toInt).toList ++ '(' :: (r.name.toList ++ [')']))
  | indirect {r : Register} (hr : r ≤ 15) : Written ⟨.indirect, r, none⟩ ('@' :: r.name.toList)
  | autoincrement {r : Register} (hr : r ≤ 15) : Written ⟨.autoincrement, r, none⟩ ('@' :: (r.name.toList ++ ['+']))

theorem Written.ofText?_eq {x : Operand} {cs : List Char} (h : Written x cs) : ofText? cs = some x := by
  cases h with
  | absolute a => exact ofText?_absolute a
  | immediate w => exact ofText?_immediate w
  | constant h => exact ofText?_constant h
  | register hr => exact ofText?_register hr
  | indexed hr e => exact ofText?_indexed hr e
  | indirect hr => exact ofText?_indirect hr
  | autoincrement hr => exact ofText?_autoincrement hr

theorem Written.comma_not_mem {x : Operand} {cs : List Char} (h : Written x cs) : ',' ∉ cs := by
  have hpadded (n : Nat) : ',' ∉ Hex.paddedDigits 4 n := fun h =>
    absurd (Hex.digit_of_mem_paddedDigits h) (by decide)
  have hsigned (n : Int) : ',' ∉ (signedHex n).toList := fun h => absurd (of_mem_signedHex h) (by decide)
  have hname {r : Register} (hr : r ≤ 15) : ',' ∉ r.name.toList := Register.not_mem_name hr rfl
  cases h with
  | absolute a => simp [hpadded]
  | immediate w => simp [hpadded]
  | constant h => simp [hsigned]
  | register hr => exact hname hr
  | indexed hr e => simp [hsigned, hname hr]
  | indirect hr => simp [hname hr]
  | autoincrement hr => simp [hname hr]

theorem WellFormed.written {x : Operand} (hx : x.WellFormed) : Written x x.text.toList := by
  cases hliteral : x.literal? with
  | some l =>
    have hoperand := operand?_of_literal? hx hliteral
    rw [text, hliteral]
    cases l with
    | absolute a =>
      obtain rfl := Option.some.inj hoperand
      rw [String.toList_append, toList_word]
      exact .absolute a
    | constant n =>
      rw [String.toList_append]
      exact .constant hoperand
    | immediate w =>
      obtain rfl := Option.some.inj hoperand
      rw [String.toList_append, toList_word]
      exact .immediate w
  | none =>
    have hext := ext_eq_of_literal? hx hliteral
    have hr := hx.reg_le
    rw [text, hliteral]
    obtain ⟨mode, r, ext⟩ := x
    cases mode with
    | register =>
      obtain rfl : ext = none := hext
      exact .register hr
    | indexed =>
      obtain ⟨e, rfl⟩ : ∃ e, ext = some e := ⟨_, hext⟩
      rw [String.toList_append, String.toList_append, String.toList_append, List.append_assoc, List.append_assoc]
      exact .indexed hr e
    | indirect =>
      obtain rfl : ext = none := hext
      rw [String.toList_append]
      exact .indirect hr
    | autoincrement =>
      obtain rfl : ext = none := hext
      rw [String.toList_append, String.toList_append]
      exact .autoincrement hr

theorem WellFormed.text_ne_nil {x : Operand} (hx : x.WellFormed) : x.text.toList ≠ [] := by
  intro h
  have hread := hx.written.ofText?_eq
  rw [h] at hread
  cases hread

theorem WellFormed.text_inj {x y : Operand} (hx : x.WellFormed) (hy : y.WellFormed)
    (h : x.text.toList = y.text.toList) : x = y := by
  have hread := hx.written.ofText?_eq
  rw [h, hy.written.ofText?_eq] at hread
  exact (Option.some.inj hread).symm

end Operand

end MicroDebug

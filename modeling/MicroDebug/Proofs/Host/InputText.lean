import MicroDebug.Host.InputText

/-! What a line of program input stores. A line in base 16 is read if it is an even number of digits, blanks apart, and
    what is wrong with any other line is told by the number of its characters first. -/

namespace MicroDebug.InputText

/-! ### Digits -/

/-- The byte is the digit with a value in base 16, as a small or as a large letter. -/
def Digit (b : UInt8) (n : Nat) : Prop :=
  n < 16 ∧ (b.toNat = n.digitChar.toNat ∨ b.toNat = n.digitChar.toUpper.toNat)

instance (b : UInt8) (n : Nat) : Decidable (Digit b n) := inferInstanceAs (Decidable (_ ∧ _))

theorem digit_of_digit? {b d : UInt8} (h : digit? b = some d) : Digit b d.toNat := by
  have hall : ∀ n < 256, ∀ d ∈ digit? (UInt8.ofNat n), Digit (UInt8.ofNat n) d.toNat := by decide +kernel
  have hb := hall b.toNat b.toNat_lt d
  rw [UInt8.ofNat_toNat] at hb
  exact hb h

theorem digit?_of_digit {b : UInt8} {n : Nat} (h : Digit b n) : digit? b = some (UInt8.ofNat n) := by
  have hall : ∀ n < 16, digit? (UInt8.ofNat n.digitChar.toNat) = some (UInt8.ofNat n) ∧
      digit? (UInt8.ofNat n.digitChar.toUpper.toNat) = some (UInt8.ofNat n) := by decide
  obtain ⟨hn, hb | hb⟩ := h
  · have hsmall := (hall n hn).1
    rwa [← hb, UInt8.ofNat_toNat] at hsmall
  · have hlarge := (hall n hn).2
    rwa [← hb, UInt8.ofNat_toNat] at hlarge

theorem digit?_eq_none_iff {b : UInt8} : digit? b = none ↔ ∀ n < 16, ¬Digit b n := by
  constructor
  · intro h n _ hdigit
    cases h.symm.trans (digit?_of_digit hdigit)
  · intro h
    cases hd : digit? b with
    | none => rfl
    | some d => exact absurd (digit_of_digit? hd) (h d.toNat (digit_of_digit? hd).1)

/-! ### Pairs of digits -/

/-- Digits in pairs, the higher one first, write bytes. -/
inductive Writes : List UInt8 → List UInt8 → Prop
  | nil : Writes [] []
  | pair {x y : UInt8} {high low : Nat} {digits bytes : List UInt8} (hx : Digit x high) (hy : Digit y low)
      (h : Writes digits bytes) : Writes (x :: y :: digits) (UInt8.ofNat (16 * high + low) :: bytes)

/-- The bytes of a line that are no blanks. -/
def characters (line : String) : List UInt8 := (utf8 line).filter fun b => !isBlank b

/-- The characters are odd in number, or one of them is no digit. -/
def Malformed (line : String) : Prop :=
  (characters line).length % 2 = 1 ∨ ∃ b ∈ characters line, ∀ n < 16, ¬Digit b n

instance (line : String) : Decidable (Malformed line) := inferInstanceAs (Decidable (_ ∨ _))

/-- What is told of a malformed line. -/
def complaint (line : String) : HexError :=
  if (characters line).length % 2 = 1 then .oddLength else .invalidDigit

theorem byte_of_digits (high low : UInt8) : high * 16 + low = UInt8.ofNat (16 * high.toNat + low.toNat) := by
  rw [UInt8.ofNat_add, UInt8.ofNat_mul, UInt8.ofNat_toNat, UInt8.ofNat_toNat, UInt8.mul_comm]
  rfl

theorem writes_of_pairs {digits bytes : List UInt8} (h : pairs digits = .ok bytes) : Writes digits bytes := by
  induction digits using pairs.induct generalizing bytes with
  | case1 =>
    cases h
    exact .nil
  | case2 x => cases h
  | case3 x y rest high low hy hx ih =>
    simp only [pairs, hx, hy] at h
    cases hrest : pairs rest with
    | error e =>
      rw [hrest] at h
      cases h
    | ok bytes' =>
      rw [hrest] at h
      cases h
      rw [byte_of_digits]
      exact .pair (digit_of_digit? hx) (digit_of_digit? hy) (ih hrest)
  | case4 x y rest hdigits =>
    unfold pairs at h
    split at h
    · next high low hx hy => exact absurd hy (hdigits high low hx)
    · cases h

theorem pairs_eq_ok_iff {digits bytes : List UInt8} : pairs digits = .ok bytes ↔ Writes digits bytes := by
  refine ⟨writes_of_pairs, fun h => ?_⟩
  induction h with
  | nil => rfl
  | pair hx hy _ ih =>
    simp only [pairs, digit?_of_digit hx, digit?_of_digit hy, ih]
    rw [UInt8.ofNat_add, UInt8.ofNat_mul, UInt8.mul_comm]
    rfl

/-- An even number of characters is read, or one of them is no digit. -/
theorem pairs_cases {digits : List UInt8} (heven : digits.length % 2 = 0) :
    (∃ bytes, pairs digits = .ok bytes ∧ ∀ b ∈ digits, digit? b ≠ none) ∨
      pairs digits = .error .invalidDigit ∧ ∃ b ∈ digits, digit? b = none := by
  induction digits using pairs.induct with
  | case1 => exact .inl ⟨[], rfl, fun _ hb => absurd hb List.not_mem_nil⟩
  | case2 x => cases heven
  | case3 x y rest high low hy hx ih =>
    simp only [pairs, hx, hy]
    rw [List.length_cons, List.length_cons] at heven
    rcases ih (by omega) with ⟨bytes, hrest, hall⟩ | ⟨hrest, b, hb, hnone⟩
    · rw [hrest]
      refine .inl ⟨_, rfl, ?_⟩
      rw [List.forall_mem_cons, List.forall_mem_cons, hx, hy]
      exact ⟨nofun, nofun, hall⟩
    · rw [hrest]
      exact .inr ⟨rfl, b, List.mem_cons_of_mem _ (List.mem_cons_of_mem _ hb), hnone⟩
  | case4 x y rest hdigits =>
    refine .inr ⟨?_, ?_⟩
    · unfold pairs
      split
      · next high low hx hy => exact absurd hy (hdigits high low hx)
      · rfl
    · cases hx : digit? x with
      | none => exact ⟨x, List.mem_cons_self, hx⟩
      | some high =>
        cases hy : digit? y with
        | none => exact ⟨y, List.mem_cons_of_mem _ List.mem_cons_self, hy⟩
        | some low => exact absurd hy (hdigits high low hx)

/-! ### Lines -/

theorem hexBytes_of_malformed {line : String} (h : Malformed line) : hexBytes line = .error (complaint line) := by
  unfold hexBytes complaint
  change (if (characters line).length % 2 = 0 then pairs (characters line) else .error .oddLength) = _
  rcases Nat.mod_two_eq_zero_or_one (characters line).length with heven | hodd
  · rw [if_pos heven, if_neg (by omega)]
    rcases pairs_cases heven with ⟨bytes, -, hall⟩ | ⟨hpairs, -⟩
    · obtain hodd | ⟨b, hb, hnot⟩ := h
      · omega
      · exact absurd (digit?_eq_none_iff.mpr hnot) (hall b hb)
    · exact hpairs
  · rw [if_neg (by omega), if_pos hodd]

theorem hexBytes_of_not_malformed {line : String} (h : ¬Malformed line) :
    ∃ bytes, hexBytes line = .ok bytes ∧ Writes (characters line) bytes := by
  obtain ⟨hodd, hdigits⟩ := not_or.mp h
  have heven : (characters line).length % 2 = 0 := by omega
  have hline : hexBytes line = pairs (characters line) := if_pos heven
  rw [hline]
  rcases pairs_cases heven with ⟨bytes, hpairs, -⟩ | ⟨-, b, hb, hnone⟩
  · exact ⟨bytes, hpairs, pairs_eq_ok_iff.mp hpairs⟩
  · exact absurd ⟨b, hb, digit?_eq_none_iff.mp hnone⟩ hdigits

/-- What a line stores where at most `limit` bytes are wanted: its text and a zero, or the bytes that it writes. -/
def Stores (mode : InputMode) (limit : UInt16) (line : String) (stored : List UInt8) : Prop :=
  match mode with
  | .text => stored = (utf8 line).take limit.toNat ++ [0]
  | .hex => ∃ bytes, Writes (characters line) bytes ∧ stored = bytes.take limit.toNat

theorem Stores.length_le {mode : InputMode} {limit : UInt16} {line : String} {stored : List UInt8}
    (h : Stores mode limit line stored) : stored.length ≤ 65536 := by
  have hlimit := limit.toNat_lt
  cases mode with
  | text =>
    obtain rfl : stored = _ := h
    rw [List.length_append, List.length_take, List.length_singleton]
    omega
  | hex =>
    obtain ⟨bytes, -, rfl⟩ := h
    rw [List.length_take]
    omega

/-- A line is not read if it is malformed and lines are in base 16. -/
theorem bytes_cases (mode : InputMode) (limit : UInt16) (line : String) :
    (mode = .hex ∧ Malformed line ∧ bytes mode limit line = .error (complaint line)) ∨
      ¬(mode = .hex ∧ Malformed line) ∧
        ∃ stored, bytes mode limit line = .ok stored ∧ Stores mode limit line stored := by
  cases mode with
  | text => exact .inr ⟨nofun, _, rfl, rfl⟩
  | hex =>
    by_cases h : Malformed line
    · refine .inl ⟨rfl, h, ?_⟩
      rw [bytes, hexBytes_of_malformed h]
      rfl
    · obtain ⟨written, hline, hwrites⟩ := hexBytes_of_not_malformed h
      refine .inr ⟨fun hrefused => h hrefused.2, written.take limit.toNat, ?_, written, hwrites, rfl⟩
      rw [bytes, hline]
      rfl

end MicroDebug.InputText

import MicroDebug.Proofs.Host.InputText

/-! Bytes as lines of program input in base 16. A line writes bytes if it consists of their digits in turn and of
    blanks, which may also stand between the two digits of a byte. Exactly such lines are read, and each as the bytes
    that it writes. A line is judged byte by byte: a character beyond ASCII has bytes that are neither blanks nor
    digits. -/

namespace MicroDebug.InputText

/-! ### Lines that write bytes -/

/-- The character is the digit with a value in base 16, as a small or as a large letter. -/
def IsDigit (c : Char) (n : Nat) : Prop := c = n.digitChar ∨ c = n.digitChar.toUpper

/-- The text has two digits for each byte, the higher one first. -/
inductive Spells : List Char → List UInt8 → Prop
  | nil : Spells [] []
  | byte {x y : Char} {text : List Char} {bytes : List UInt8} (b : UInt8) (hx : IsDigit x (b.toNat / 16))
      (hy : IsDigit y (b.toNat % 16)) (h : Spells text bytes) : Spells (x :: y :: text) (b :: bytes)

/-- The characters that may be put in between: a space, a tab, and what ends a line or a page. -/
def blanks : List Char := [' ', '\t', '\n', '\x0c', '\r']

/-- The second text is the first one with blanks put in anywhere. -/
inductive Spaced : List Char → List Char → Prop
  | nil : Spaced [] []
  | keep {text spaced : List Char} (c : Char) (h : Spaced text spaced) : Spaced (c :: text) (c :: spaced)
  | blank {text spaced : List Char} {c : Char} (hc : c ∈ blanks) (h : Spaced text spaced) : Spaced text (c :: spaced)

/-- The bytes of a line without those of blanks. -/
def unspaced (line : String) : List UInt8 :=
  line.toUTF8.data.toList.filter fun b => b ∉ [0x20, 0x09, 0x0a, 0x0c, 0x0d]

/-! ### Bytes of characters -/

theorem utf8EncodeChar_of_le {c : Char} (h : c.toNat ≤ 127) : String.utf8EncodeChar c = [UInt8.ofNat c.toNat] :=
  if_pos h

theorem le_of_mem_utf8EncodeChar {c : Char} (h : 127 < c.toNat) : ∀ b ∈ String.utf8EncodeChar c, 128 ≤ b.toNat := by
  intro b hb
  have hlarge : ¬c.val.toNat ≤ 127 := Nat.not_le_of_lt h
  simp only [String.utf8EncodeChar, if_neg hlarge] at hb
  split at hb
  · simp only [List.mem_cons, List.not_mem_nil, or_false] at hb
    rcases hb with rfl | rfl <;> rw [UInt8.toNat_ofNat'] <;> omega
  · split at hb
    · simp only [List.mem_cons, List.not_mem_nil, or_false] at hb
      rcases hb with rfl | rfl | rfl <;> rw [UInt8.toNat_ofNat'] <;> omega
    · simp only [List.mem_cons, List.not_mem_nil, or_false] at hb
      rcases hb with rfl | rfl | rfl | rfl <;> rw [UInt8.toNat_ofNat'] <;> omega

theorem isBlank_iff {b : UInt8} : isBlank b = true ↔ b ∈ [0x20, 0x09, 0x0a, 0x0c, 0x0d] := by
  simp [isBlank, or_assoc]

theorem unspaced_eq (line : String) : unspaced line = characters line := by
  have hbytes : line.toUTF8.data.toList = utf8 line := by
    rw [String.toUTF8_eq_toByteArray, utf8, ← List.toList_data_toByteArray (l := line.toList.flatMap _)]
    change _ = line.toList.utf8Encode.data.toList
    rw [← String.toByteArray_ofList, String.ofList_toList]
  rw [unspaced, hbytes, characters]
  refine List.filter_congr fun b _ => ?_
  rw [Bool.eq_iff_iff, decide_eq_true_iff, ← isBlank_iff]
  simp

/-- The bytes of a text that are no blanks. -/
def charactersOf (text : List Char) : List UInt8 :=
  (text.flatMap String.utf8EncodeChar).filter fun b => !isBlank b

theorem charactersOf_cons (c : Char) (text : List Char) :
    charactersOf (c :: text) = ((String.utf8EncodeChar c).filter fun b => !isBlank b) ++ charactersOf text := by
  rw [charactersOf, List.flatMap_cons, List.filter_append]
  rfl

theorem charactersOf_blank {c : Char} (hc : c ∈ blanks) (text : List Char) :
    charactersOf (c :: text) = charactersOf text := by
  rw [charactersOf_cons]
  simp only [blanks, List.mem_cons, List.not_mem_nil, or_false] at hc
  rcases hc with rfl | rfl | rfl | rfl | rfl <;> rfl

theorem not_isBlank_of_le {b : UInt8} (h : 128 ≤ b.toNat) : isBlank b = false := by
  rw [Bool.eq_false_iff]
  intro hb
  have hmem := isBlank_iff.mp hb
  simp only [List.mem_cons, List.not_mem_nil, or_false] at hmem
  rcases hmem with rfl | rfl | rfl | rfl | rfl <;> exact absurd h (by decide)

theorem filter_of_not_isBlank {b : UInt8} (h : isBlank b = false) (bytes : List UInt8) :
    ((b :: bytes).filter fun b => !isBlank b) = b :: bytes.filter fun b => !isBlank b :=
  List.filter_cons_of_pos (by rw [h, Bool.not_false])

theorem toNat_ofNat_toNat {c : Char} (h : c.toNat ≤ 127) : (UInt8.ofNat c.toNat).toNat = c.toNat := by
  rw [UInt8.toNat_ofNat']
  omega

theorem isBlank_ofNat_toNat {c : Char} (h : c.toNat ≤ 127) (hc : c ∉ blanks) :
    isBlank (UInt8.ofNat c.toNat) = false := by
  rw [Bool.eq_false_iff]
  intro hb
  have hmem := isBlank_iff.mp hb
  simp only [List.mem_cons, List.not_mem_nil, or_false, ← UInt8.toNat_inj, toNat_ofNat_toNat h] at hmem
  refine hc ?_
  rw [← Char.ofNat_toNat c]
  rcases hmem with hcode | hcode | hcode | hcode | hcode <;> rw [hcode] <;> decide

theorem charactersOf_ascii {c : Char} (h : c.toNat ≤ 127) (hc : c ∉ blanks) (text : List Char) :
    charactersOf (c :: text) = UInt8.ofNat c.toNat :: charactersOf text := by
  rw [charactersOf_cons, utf8EncodeChar_of_le h, filter_of_not_isBlank (isBlank_ofNat_toNat h hc)]
  rfl

/-- A character that is no blank is judged by its first byte, which is the only one in ASCII. -/
theorem charactersOf_cons_cases {c : Char} (hc : c ∉ blanks) (text : List Char) :
    (c.toNat ≤ 127 ∧ charactersOf (c :: text) = UInt8.ofNat c.toNat :: charactersOf text) ∨
      ∃ b rest, 128 ≤ b.toNat ∧ charactersOf (c :: text) = b :: rest := by
  by_cases h : c.toNat ≤ 127
  · exact .inl ⟨h, charactersOf_ascii h hc text⟩
  · have hlarge := le_of_mem_utf8EncodeChar (Nat.lt_of_not_le h)
    obtain ⟨b, more, heq⟩ := List.exists_cons_of_ne_nil (String.utf8EncodeChar_ne_nil (c := c))
    rw [heq] at hlarge
    have hb := hlarge b List.mem_cons_self
    rw [charactersOf_cons, heq, filter_of_not_isBlank (not_isBlank_of_le hb)]
    exact .inr ⟨b, _, hb, rfl⟩

/-! ### Digits -/

theorem digit_ofNat_toNat_iff {c : Char} (h : c.toNat ≤ 127) {n : Nat} :
    Digit (UInt8.ofNat c.toNat) n ↔ n < 16 ∧ IsDigit c n := by
  rw [Digit, toNat_ofNat_toNat h, IsDigit, Char.toNat_inj, Char.toNat_inj]

theorem digitChar_ascii : ∀ n < 16, (n.digitChar.toNat ≤ 127 ∧ n.digitChar ∉ blanks) ∧
    n.digitChar.toUpper.toNat ≤ 127 ∧ n.digitChar.toUpper ∉ blanks := by decide

theorem Digit.le {b : UInt8} {n : Nat} (h : Digit b n) : b.toNat ≤ 127 := by
  obtain ⟨hn, hb | hb⟩ := h
  · exact hb ▸ (digitChar_ascii n hn).1.1
  · exact hb ▸ (digitChar_ascii n hn).2.1

theorem IsDigit.ascii {c : Char} {n : Nat} (hn : n < 16) (h : IsDigit c n) : c.toNat ≤ 127 ∧ c ∉ blanks := by
  rcases h with rfl | rfl
  · exact (digitChar_ascii n hn).1
  · exact (digitChar_ascii n hn).2

theorem charactersOf_digit {c : Char} {n : Nat} (hn : n < 16) (h : IsDigit c n) (text : List Char) :
    ∃ b, Digit b n ∧ charactersOf (c :: text) = b :: charactersOf text := by
  obtain ⟨hle, hblank⟩ := h.ascii hn
  exact ⟨_, (digit_ofNat_toNat_iff hle).mpr ⟨hn, h⟩, charactersOf_ascii hle hblank text⟩

theorem exists_of_charactersOf_eq_cons {text : List Char} {b : UInt8} {rest : List UInt8} {n : Nat}
    (htext : ∀ c ∈ text, c ∉ blanks) (h : charactersOf text = b :: rest) (hb : Digit b n) :
    ∃ c more, text = c :: more ∧ IsDigit c n ∧ charactersOf more = rest := by
  cases text with
  | nil => cases h
  | cons c more =>
    refine ⟨c, more, rfl, ?_⟩
    rcases charactersOf_cons_cases (htext c List.mem_cons_self) more with ⟨hle, heq⟩ | ⟨b', rest', hlarge, heq⟩
    · rw [heq] at h
      obtain ⟨rfl, hrest⟩ := List.cons.inj h
      exact ⟨((digit_ofNat_toNat_iff hle).mp hb).2, hrest⟩
    · rw [heq] at h
      obtain ⟨rfl, -⟩ := List.cons.inj h
      have := hb.le
      omega

/-! ### Reading -/

theorem Spaced.charactersOf_eq {text spaced : List Char} (h : Spaced text spaced) :
    charactersOf spaced = charactersOf text := by
  induction h with
  | nil => rfl
  | keep c _ ih => rw [charactersOf_cons, ih, ← charactersOf_cons]
  | blank hc _ ih => rw [charactersOf_blank hc, ih]

theorem spaced_filter (text : List Char) : Spaced (text.filter (· ∉ blanks)) text := by
  induction text with
  | nil => exact .nil
  | cons c text ih =>
    by_cases hc : c ∈ blanks
    · rw [List.filter_cons_of_neg (by simpa using hc)]
      exact .blank hc ih
    · rw [List.filter_cons_of_pos (by simpa using hc)]
      exact .keep c ih

theorem Spells.writes {text : List Char} {bytes : List UInt8} (h : Spells text bytes) :
    Writes (charactersOf text) bytes := by
  induction h with
  | nil => exact .nil
  | @byte x y text bytes b hx hy _ ih =>
    have hlt := b.toNat_lt
    obtain ⟨high, hhigh, hxs⟩ := charactersOf_digit (by omega) hx (y :: text)
    obtain ⟨low, hlow, hys⟩ := charactersOf_digit (by omega) hy text
    have hwrites := Writes.pair hhigh hlow ih
    rwa [← hys, ← hxs, Nat.div_add_mod, UInt8.ofNat_toNat] at hwrites

theorem spells_of_writes {text : List Char} {bytes : List UInt8} (htext : ∀ c ∈ text, c ∉ blanks)
    (h : Writes (charactersOf text) bytes) : Spells text bytes := by
  generalize hdigits : charactersOf text = digits at h
  induction h generalizing text with
  | nil =>
    cases text with
    | nil => exact .nil
    | cons c more =>
      rcases charactersOf_cons_cases (htext c List.mem_cons_self) more with ⟨-, heq⟩ | ⟨_, _, -, heq⟩ <;>
        exact absurd (heq.symm.trans hdigits) (List.cons_ne_nil _ _)
  | @pair x y high low digits bytes hx hy _ ih =>
    obtain ⟨c, more, rfl, hc, hmore⟩ := exists_of_charactersOf_eq_cons htext hdigits hx
    rw [List.forall_mem_cons] at htext
    obtain ⟨d, rest, rfl, hd, hrest⟩ := exists_of_charactersOf_eq_cons htext.2 hmore hy
    rw [List.forall_mem_cons] at htext
    have hbyte : (UInt8.ofNat (16 * high + low)).toNat = 16 * high + low := by
      have := hx.1
      have := hy.1
      rw [UInt8.toNat_ofNat']
      omega
    have hhigh : (UInt8.ofNat (16 * high + low)).toNat / 16 = high := by
      have := hy.1
      omega
    have hlow : (UInt8.ofNat (16 * high + low)).toNat % 16 = low := by
      have := hy.1
      omega
    exact .byte _ (hhigh.symm ▸ hc) (hlow.symm ▸ hd) (ih htext.2.2 hrest)

theorem Writes.length_eq {digits bytes : List UInt8} (h : Writes digits bytes) : digits.length = 2 * bytes.length := by
  induction h with
  | nil => rfl
  | pair _ _ _ ih =>
    rw [List.length_cons, List.length_cons, ih, List.length_cons]
    omega

theorem hexBytes_eq_ok_iff {line : String} {bytes : List UInt8} :
    hexBytes line = .ok bytes ↔ Writes (characters line) bytes := by
  constructor
  · intro h
    by_cases hmalformed : Malformed line
    · rw [hexBytes_of_malformed hmalformed] at h
      cases h
    · obtain ⟨bytes', hok, hwrites⟩ := hexBytes_of_not_malformed hmalformed
      rw [hok] at h
      cases h
      exact hwrites
  · intro h
    have heven : (characters line).length % 2 = 0 := by
      have := h.length_eq
      omega
    have hline : hexBytes line = pairs (characters line) := if_pos heven
    rw [hline, pairs_eq_ok_iff.mpr h]

theorem exists_hexBytes_eq_ok_iff {line : String} : (∃ bytes, hexBytes line = .ok bytes) ↔ ¬Malformed line := by
  constructor
  · rintro ⟨bytes, hok⟩ h
    rw [hexBytes_of_malformed h] at hok
    cases hok
  · intro h
    obtain ⟨bytes, hok, -⟩ := hexBytes_of_not_malformed h
    exact ⟨bytes, hok⟩

theorem not_malformed_iff {line : String} :
    ¬Malformed line ↔ (characters line).length % 2 = 0 ∧ ∀ b ∈ characters line, ∃ n, Digit b n := by
  rw [Malformed, not_or, ← Ne, Nat.mod_two_ne_one]
  refine and_congr_right fun _ => ?_
  constructor
  · intro h b hb
    exact Classical.byContradiction fun hnot => h ⟨b, hb, fun n _ hdigit => hnot ⟨n, hdigit⟩⟩
  · rintro h ⟨b, hb, hnot⟩
    obtain ⟨n, hdigit⟩ := h b hb
    exact hnot n hdigit.1 hdigit

theorem hexBytes_eq_oddLength_iff {line : String} :
    hexBytes line = .error .oddLength ↔ (characters line).length % 2 = 1 := by
  constructor
  · intro h
    by_cases hmalformed : Malformed line
    · rw [hexBytes_of_malformed hmalformed, complaint] at h
      split at h
      · assumption
      · cases h
    · obtain ⟨bytes, hok⟩ := exists_hexBytes_eq_ok_iff.mpr hmalformed
      rw [hok] at h
      cases h
  · intro h
    rw [hexBytes_of_malformed (.inl h), complaint, if_pos h]

/-- A line is read as bytes exactly if it writes them. It is read at all exactly if its bytes other than blanks are an
    even number of digits, and of any other line an odd number is told first. -/
theorem hexBytes_reads_spelled (line : String) :
    (∀ bytes, hexBytes line = .ok bytes ↔ ∃ text, Spells text bytes ∧ Spaced text line.toList) ∧
      ((∃ bytes, hexBytes line = .ok bytes) ↔
        (unspaced line).length % 2 = 0 ∧ ∀ b ∈ unspaced line, ∃ n, Digit b n) ∧
      (hexBytes line = .error .oddLength ↔ (unspaced line).length % 2 = 1) := by
  rw [unspaced_eq]
  refine ⟨fun bytes => ?_, ?_, ?_⟩
  · rw [hexBytes_eq_ok_iff]
    constructor
    · intro h
      have hspaced := spaced_filter line.toList
      refine ⟨_, spells_of_writes (fun c hc => by simpa using (List.mem_filter.mp hc).2) ?_, hspaced⟩
      rwa [← hspaced.charactersOf_eq]
    · rintro ⟨text, hspells, hspaced⟩
      have hwrites := hspells.writes
      rwa [← hspaced.charactersOf_eq] at hwrites
  · rw [exists_hexBytes_eq_ok_iff, not_malformed_iff]
  · exact hexBytes_eq_oddLength_iff

example : hexBytes "4 1\t\nA b" = .ok [0x41, 0xab] := rfl

end MicroDebug.InputText

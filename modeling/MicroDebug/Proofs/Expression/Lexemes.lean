import Mathlib.Data.Nat.Digits.Defs
import MicroDebug.Expression.Token

/-! What single tokens are written as, said apart from how a line is read: a sign is its own text, a name is a letter
    or underscore and then letters, digits and underscores, and an integer is one or more digits, after `0x` or `0X`
    in base 16. The piece that is split off a line is written so, and nothing longer at that place is. -/

namespace MicroDebug

/-! ### Signs -/

namespace Sign

theorem ofPair?_eq_some_iff {c d : Char} {s : Sign} : ofPair? c d = some s ↔ s.text.toList = [c, d] := by
  constructor
  · intro h
    unfold ofPair? at h
    split at h <;> cases h <;> rfl
  · intro h
    cases s <;> cases h <;> rfl

theorem ofChar?_eq_some_iff {c : Char} {s : Sign} : ofChar? c = some s ↔ s.text.toList = [c] := by
  constructor
  · intro h
    unfold ofChar? at h
    split at h <;> cases h <;> rfl
  · intro h
    cases s <;> cases h <;> rfl

/-- A sign has one character or two, and none that starts a name, an integer or a stretch between tokens. -/
theorem head_text {s : Sign} {c : Char} {cs : List Char} (h : s.text.toList = c :: cs) :
    ¬ Token.isSpace c ∧ ¬ Token.isNameStart c ∧ ¬ c.isDigit ∧ cs.length ≤ 1 := by
  cases s <;> cases h <;> decide

theorem eq_of_text {s s' : Sign} (h : s.text.toList = s'.text.toList) : s = s' := by
  rcases hs : s.text.toList with _ | ⟨c, cs⟩
  · cases s <;> cases hs
  · have hlength := (head_text hs).2.2.2
    rw [hs] at h
    rcases cs with _ | ⟨d, _ | ⟨e, cs⟩⟩
    · exact Option.some.inj ((ofChar?_eq_some_iff.mpr hs).symm.trans (ofChar?_eq_some_iff.mpr h.symm))
    · exact Option.some.inj ((ofPair?_eq_some_iff.mpr hs).symm.trans (ofPair?_eq_some_iff.mpr h.symm))
    · simp at hlength

end Sign

namespace Token

/-! ### Texts of tokens -/

/-- A digit of base 16, in either case. -/
def HexDigit (c : Char) : Prop := c.isDigit ∨ 'a' ≤ c ∧ c ≤ 'f' ∨ 'A' ≤ c ∧ c ≤ 'F'

/-- The value of a digit. -/
def digitValue (c : Char) : Nat :=
  ['0', '1', '2', '3', '4', '5', '6', '7', '8', '9', 'a', 'b', 'c', 'd', 'e', 'f'].idxOf c.toLower

/-- The integer that digits of a base write, the last one counting ones. -/
def valueOf (base : Nat) (digits : List Char) : Nat := Nat.ofDigits base (digits.map digitValue).reverse

/-- The text is that of a token. -/
inductive Spells : List Char → Lexeme → Prop
  | sign (s : Sign) : Spells s.text.toList (.sign s)
  | name {c : Char} {cs : List Char} (hc : isNameStart c) (hcs : ∀ d ∈ cs, isNamePart d) :
      Spells (c :: cs) (.name (String.ofList (c :: cs)))
  | decimal {d : Char} {ds : List Char} (hd : d.isDigit) (hds : ∀ e ∈ ds, e.isDigit) :
      Spells (d :: ds) (.number (valueOf 10 (d :: ds)))
  | hexadecimal {x d : Char} {ds : List Char} (hx : x = 'x' ∨ x = 'X') (hd : HexDigit d)
      (hds : ∀ e ∈ ds, HexDigit e) : Spells ('0' :: x :: d :: ds) (.number (valueOf 16 (d :: ds)))

/-- The text of a token does not go on, with characters that follow it, to a longer one. -/
def Longest (text rest : List Char) : Prop :=
  ∀ more after lexeme, rest = more ++ after → Spells (text ++ more) lexeme → more = []

/-- The characters that texts are written with: letters, digits, signs and what may stand between tokens. -/
def Writable (c : Char) : Prop :=
  c.isAlpha ∨ c.isDigit ∨
    c ∈ ['_', '&', '!', '=', '<', '>', '|', '(', ')', '[', ']', '+', '-', ' ', '\t', '\r', '\n']

/-! ### Digits -/

/-- What holds of all characters in a stretch of codes holds of a character with a code in it. -/
theorem of_toNat {P : Char → Prop} {low high : Nat}
    (h : ∀ n ∈ List.range' low (high + 1 - low), P (Char.ofNat n)) {c : Char} (hlow : low ≤ c.toNat)
    (hhigh : c.toNat ≤ high) : P c := by
  have hc := h c.toNat (by rw [List.mem_range'_1]; omega)
  rwa [Char.ofNat_toNat] at hc

theorem isDigit_iff {c : Char} : c.isDigit ↔ 48 ≤ c.toNat ∧ c.toNat ≤ 57 := by
  simp [Char.isDigit, UInt32.le_iff_toNat_le]

theorem hexDigit_iff {c : Char} :
    HexDigit c ↔ 48 ≤ c.toNat ∧ c.toNat ≤ 57 ∨ 97 ≤ c.toNat ∧ c.toNat ≤ 102 ∨ 65 ≤ c.toNat ∧ c.toNat ≤ 70 := by
  rw [HexDigit, isDigit_iff]
  rfl

theorem digitIn?_of_isDigit {c : Char} (h : c.isDigit) : Numeral.digitIn? 10 c = some (digitValue c) := by
  obtain ⟨hlow, hhigh⟩ := isDigit_iff.mp h
  exact of_toNat (P := fun c => Numeral.digitIn? 10 c = some (digitValue c)) (by decide) hlow hhigh

theorem digitIn?_of_hexDigit {c : Char} (h : HexDigit c) : Numeral.digitIn? 16 c = some (digitValue c) := by
  rcases hexDigit_iff.mp h with ⟨hlow, hhigh⟩ | ⟨hlow, hhigh⟩ | ⟨hlow, hhigh⟩
  all_goals exact of_toNat (P := fun c => Numeral.digitIn? 16 c = some (digitValue c)) (by decide) hlow hhigh

theorem isHexDigit_iff {c : Char} : isHexDigit c ↔ HexDigit c := by
  constructor
  · intro h
    rw [hexDigit_iff]
    rw [isHexDigit, Numeral.digitIn?, Numeral.digit?] at h
    split at h
    · next hc => exact .inl hc
    · split at h
      · next hc =>
        have hlow : 97 ≤ c.toNat := hc.1
        have hvalue : c.toNat - 97 + 10 < 16 := by simpa using h
        exact .inr (.inl ⟨hlow, by omega⟩)
      · split at h
        · next hc =>
          have hlow : 65 ≤ c.toNat := hc.1
          have hvalue : c.toNat - 65 + 10 < 16 := by simpa using h
          exact .inr (.inr ⟨hlow, by omega⟩)
        · cases h
  · intro h
    rw [isHexDigit, digitIn?_of_hexDigit h]
    rfl

/-- Digits that follow a number shift it up. -/
theorem valueFrom?_eq {base : Nat} {ds : List Char}
    (h : ∀ d ∈ ds, Numeral.digitIn? base d = some (digitValue d)) (high : Nat) :
    Numeral.valueFrom? base high ds = some (base ^ ds.length * high + valueOf base ds) := by
  induction ds generalizing high with
  | nil => simp [Numeral.valueFrom?, valueOf]
  | cons d ds ih =>
    rw [Numeral.valueFrom?, h d (List.mem_cons_self ..), Option.bind_some,
      ih fun e he => h e (List.mem_cons_of_mem _ he)]
    have hvalue : valueOf base (d :: ds) = valueOf base ds + base ^ ds.length * digitValue d := by
      rw [valueOf, valueOf, List.map_cons, Nat.ofDigits_reverse_cons, List.length_map]
    rw [hvalue, List.length_cons, pow_succ]
    congr 1
    ring

theorem number_eq {base : Nat} {d : Char} {ds : List Char}
    (h : ∀ e ∈ d :: ds, Numeral.digitIn? base e = some (digitValue e)) :
    number base (d :: ds) = .number (valueOf base (d :: ds)) := by
  rw [number, Numeral.value?, valueFrom?_eq h, Nat.mul_zero, Nat.zero_add]
  · rfl
  · simp

/-! ### Texts by their first character -/

theorem not_isNameStart_of_isDigit {c : Char} (h : c.isDigit) : ¬ isNameStart c := by
  obtain ⟨hlow, hhigh⟩ := isDigit_iff.mp h
  exact of_toNat (P := fun c => ¬ isNameStart c) (by decide) hlow hhigh

theorem not_isDigit_of_mark {x : Char} (h : x = 'x' ∨ x = 'X') : ¬ x.isDigit := by
  rcases h with rfl | rfl <;> decide

namespace Spells

variable {c : Char} {cs : List Char} {lexeme : Lexeme}

theorem ne_nil {text : List Char} (h : Spells text lexeme) : text ≠ [] := by
  cases h with
  | sign s => cases s <;> decide
  | _ => exact List.cons_ne_nil _ _

theorem of_isNameStart (h : Spells (c :: cs) lexeme) (hc : isNameStart c) :
    (∀ d ∈ cs, isNamePart d) ∧ lexeme = .name (String.ofList (c :: cs)) := by
  generalize htext : c :: cs = text at h
  cases h with
  | sign s => exact absurd hc (Sign.head_text htext.symm).2.1
  | name _ hcs =>
    cases htext
    exact ⟨hcs, rfl⟩
  | decimal hd =>
    cases htext
    exact absurd hc (not_isNameStart_of_isDigit hd)
  | hexadecimal =>
    cases htext
    exact absurd hc (by decide)

theorem of_isDigit (h : Spells (c :: cs) lexeme) (hc : c.isDigit) :
    (∀ d ∈ cs, d.isDigit) ∧ lexeme = .number (valueOf 10 (c :: cs)) ∨
      ∃ x d ds, c = '0' ∧ cs = x :: d :: ds ∧ (x = 'x' ∨ x = 'X') ∧ HexDigit d ∧ (∀ e ∈ ds, HexDigit e) ∧
        lexeme = .number (valueOf 16 (d :: ds)) := by
  generalize htext : c :: cs = text at h
  cases h with
  | sign s => exact absurd hc (Sign.head_text htext.symm).2.2.1
  | name hstart =>
    cases htext
    exact absurd hstart (not_isNameStart_of_isDigit hc)
  | decimal _ hds =>
    cases htext
    exact .inl ⟨hds, rfl⟩
  | hexadecimal hx hd hds =>
    cases htext
    exact .inr ⟨_, _, _, rfl, rfl, hx, hd, hds, rfl⟩

theorem of_sign (h : Spells (c :: cs) lexeme) (hname : ¬ isNameStart c) (hdigit : ¬ c.isDigit) :
    ∃ s : Sign, s.text.toList = c :: cs ∧ lexeme = .sign s := by
  generalize htext : c :: cs = text at h
  cases h with
  | sign s => exact ⟨s, rfl, rfl⟩
  | name hc =>
    cases htext
    exact absurd hc hname
  | decimal hd =>
    cases htext
    exact absurd hd hdigit
  | hexadecimal =>
    cases htext
    exact absurd rfl hdigit

theorem head_cases (h : Spells (c :: cs) lexeme) :
    isNameStart c ∨ c.isDigit ∨ ∃ s : Sign, s.text.toList = c :: cs ∧ lexeme = .sign s := by
  by_cases hname : isNameStart c
  · exact .inl hname
  · by_cases hdigit : c.isDigit
    · exact .inr (.inl hdigit)
    · exact .inr (.inr (h.of_sign hname hdigit))

theorem not_isSpace (h : Spells (c :: cs) lexeme) : ¬ isSpace c := by
  intro hc
  have hspace : c = ' ' ∨ c = '\t' ∨ c = '\r' ∨ c = '\n' := by simpa [isSpace, or_assoc] using hc
  rcases h.head_cases with hname | hdigit | ⟨s, hs, -⟩
  · rcases hspace with rfl | rfl | rfl | rfl <;> exact absurd hname (by decide)
  · rcases hspace with rfl | rfl | rfl | rfl <;> exact absurd hdigit (by decide)
  · exact (Sign.head_text hs).1 hc

/-- A text is that of one token only. -/
theorem unique {lexeme' : Lexeme} (h : Spells (c :: cs) lexeme) (h' : Spells (c :: cs) lexeme') :
    lexeme = lexeme' := by
  rcases h.head_cases with hname | hdigit | ⟨s, hs, rfl⟩
  · exact (h.of_isNameStart hname).2.trans (h'.of_isNameStart hname).2.symm
  · rcases h.of_isDigit hdigit with ⟨hds, rfl⟩ | ⟨x, d, ds, rfl, rfl, hx, -, -, rfl⟩ <;>
      rcases h'.of_isDigit hdigit with ⟨hds', rfl⟩ | ⟨x', d', ds', hc', hcs', hx', -, -, rfl⟩
    · rfl
    · subst hcs'
      exact absurd (hds x' (by simp)) (not_isDigit_of_mark hx')
    · exact absurd (hds' x (by simp)) (not_isDigit_of_mark hx)
    · cases hcs'
      rfl
  · obtain ⟨-, hname, hdigit, -⟩ := Sign.head_text hs
    obtain ⟨s', hs', rfl⟩ := h'.of_sign hname hdigit
    rw [Sign.eq_of_text (hs.trans hs'.symm)]

end Spells

theorem writable_of_isNamePart {c : Char} (h : isNamePart c) : Writable c := by
  rw [isNamePart, Char.isAlphanum, Bool.or_eq_true, Bool.or_eq_true] at h
  rcases h with hmark | halpha | hdigit
  · exact .inr (.inr (by simp [beq_iff_eq.mp hmark]))
  · exact .inl halpha
  · exact .inr (.inl hdigit)

theorem isNamePart_of_isNameStart {c : Char} (h : isNameStart c) : isNamePart c := by
  rw [isNameStart, Bool.or_eq_true] at h
  rcases h with hmark | halpha <;> simp_all [isNamePart, Char.isAlphanum]

theorem isNamePart_of_hexDigit {c : Char} (h : HexDigit c) : isNamePart c := by
  rcases hexDigit_iff.mp h with ⟨hlow, hhigh⟩ | ⟨hlow, hhigh⟩ | ⟨hlow, hhigh⟩
  all_goals exact of_toNat (P := fun c => isNamePart c) (by decide) hlow hhigh

theorem writable_of_isSpace {c : Char} (h : isSpace c) : Writable c := by
  have hspace : c = ' ' ∨ c = '\t' ∨ c = '\r' ∨ c = '\n' := by simpa [isSpace, or_assoc] using h
  rcases hspace with rfl | rfl | rfl | rfl <;> exact .inr (.inr (by decide))

/-- The text of a token is made of characters that texts are written with. -/
theorem Spells.writable {text : List Char} {lexeme : Lexeme} (h : Spells text lexeme) : ∀ c ∈ text, Writable c := by
  cases h with
  | sign s => cases s <;> simp [Sign.text, Writable]
  | name hc hcs =>
    simp only [List.mem_cons, forall_eq_or_imp]
    exact ⟨writable_of_isNamePart (isNamePart_of_isNameStart hc), fun d hd => writable_of_isNamePart (hcs d hd)⟩
  | decimal hd hds =>
    simp only [List.mem_cons, forall_eq_or_imp]
    exact ⟨.inr (.inl hd), fun e he => .inr (.inl (hds e he))⟩
  | hexadecimal hx hd hds =>
    simp only [List.mem_cons, forall_eq_or_imp]
    refine ⟨.inr (.inl rfl), .inl ?_, writable_of_isNamePart (isNamePart_of_hexDigit hd), fun e he =>
      writable_of_isNamePart (isNamePart_of_hexDigit (hds e he))⟩
    rcases hx with rfl | rfl <;> rfl

/-! ### The longest piece -/

/-- What is taken from the start of a stretch of characters goes on no further. -/
theorem not_of_dropWhile {p : Char → Bool} {cs after : List Char} {d : Char} (h : cs.dropWhile p = d :: after) :
    ¬ p d := by
  have hhead := List.head?_dropWhile_not p cs
  rw [h] at hhead
  simpa using hhead

theorem mem_takeWhile {p : Char → Bool} {cs : List Char} {d : Char} (h : d ∈ cs.takeWhile p) : p d :=
  List.all_eq_true.mp List.all_takeWhile d h

/-- A text goes on at most as far as its characters are of a kind that all longer ones consist of. -/
theorem longest_dropWhile {p : Char → Bool} {text cs : List Char}
    (h : ∀ d more after lexeme, cs.dropWhile p = d :: more ++ after → Spells (text ++ d :: more) lexeme → p d) :
    Longest text (cs.dropWhile p) := by
  intro more after lexeme hrest hspells
  rcases more with _ | ⟨d, more⟩
  · rfl
  · exact absurd (h d more after lexeme hrest hspells) (not_of_dropWhile hrest)

/-- A piece that is a token: the longest one at its place, with what comes after it. -/
def Takes (c : Char) (rest : List Char) (split : Piece × List Char × List Char) : Prop :=
  ∃ lexeme more after, split = (.token lexeme, more, after) ∧ rest = more ++ after ∧ Spells (c :: more) lexeme ∧
    Longest (c :: more) after

theorem takes_name {c : Char} (rest : List Char) (hc : isNameStart c) :
    Takes c rest (.token (.name (String.ofList (c :: rest.takeWhile isNamePart))), rest.takeWhile isNamePart,
      rest.dropWhile isNamePart) := by
  refine ⟨_, _, _, rfl, List.takeWhile_append_dropWhile.symm, .name hc fun d => mem_takeWhile, ?_⟩
  refine longest_dropWhile fun d more after lexeme _ hspells => ?_
  rw [List.cons_append] at hspells
  exact (hspells.of_isNameStart hc).1 d (by simp)

theorem takes_decimal {c : Char} {rest : List Char} (hc : c.isDigit)
    (hhex : ∀ x d after, c = '0' → rest = x :: d :: after → x = 'x' ∨ x = 'X' → ¬ HexDigit d) :
    Takes c rest (split.decimal c rest) := by
  have hdigits : ∀ e ∈ rest.takeWhile Char.isDigit, e.isDigit := fun e => mem_takeWhile
  refine ⟨_, _, _, rfl, List.takeWhile_append_dropWhile.symm, ?_, ?_⟩
  · rw [number_eq]
    · exact .decimal hc hdigits
    · intro e he
      rcases List.mem_cons.mp he with rfl | he
      · exact digitIn?_of_isDigit hc
      · exact digitIn?_of_isDigit (hdigits e he)
  · refine longest_dropWhile fun d more after lexeme hdrop hspells => ?_
    rw [List.cons_append] at hspells
    rcases hspells.of_isDigit hc with ⟨hds, -⟩ | ⟨x, e, es, rfl, heq, hx, he, -⟩
    · exact hds d (by simp)
    · -- the mark of base 16 is no digit, so it comes right after the first one
      rcases htake : rest.takeWhile Char.isDigit with _ | ⟨y, ys⟩ <;> rw [htake] at heq
      · have hrest : rest = x :: e :: (es ++ after) := by
          rw [← List.takeWhile_append_dropWhile (p := Char.isDigit) (l := rest), htake, hdrop]
          rw [List.nil_append] at heq
          rw [List.nil_append, heq]
          rfl
        exact absurd he (hhex x e _ rfl hrest hx)
      · obtain ⟨rfl, -⟩ := List.cons.inj heq
        exact absurd (hdigits y (by simp [htake])) (not_isDigit_of_mark hx)

theorem takes_hexadecimal {x d : Char} (after : List Char) (hx : x = 'x' ∨ x = 'X') (hd : isHexDigit d) :
    Takes '0' (x :: d :: after) (.token (number 16 (d :: after.takeWhile isHexDigit)),
      x :: d :: after.takeWhile isHexDigit, after.dropWhile isHexDigit) := by
  have hdigits : ∀ e ∈ after.takeWhile isHexDigit, HexDigit e := fun e he => isHexDigit_iff.mp (mem_takeWhile he)
  refine ⟨_, _, _, rfl, ?_, ?_, ?_⟩
  · rw [List.cons_append, List.cons_append, List.takeWhile_append_dropWhile]
  · rw [number_eq]
    · exact .hexadecimal hx (isHexDigit_iff.mp hd) hdigits
    · intro e he
      rcases List.mem_cons.mp he with rfl | he
      · exact digitIn?_of_hexDigit (isHexDigit_iff.mp hd)
      · exact digitIn?_of_hexDigit (hdigits e he)
  · refine longest_dropWhile fun e more _ lexeme _ hspells => ?_
    rw [List.cons_append, List.cons_append, List.cons_append] at hspells
    rcases hspells.of_isDigit rfl with ⟨hds, -⟩ | ⟨_, _, _, -, heq, -, -, hes, -⟩
    · exact absurd (hds x (by simp)) (not_isDigit_of_mark hx)
    · cases heq
      exact isHexDigit_iff.mpr (hes e (by simp))

theorem takes_pair {c d : Char} {s : Sign} (after : List Char) (h : Sign.ofPair? c d = some s) :
    Takes c (d :: after) (.token (.sign s), [d], after) := by
  have htext := Sign.ofPair?_eq_some_iff.mp h
  obtain ⟨-, hname, hdigit, -⟩ := Sign.head_text htext
  refine ⟨_, _, _, rfl, rfl, htext ▸ .sign s, ?_⟩
  intro more rest lexeme _ hspells
  obtain ⟨s', hs', -⟩ := hspells.of_sign hname hdigit
  have hlength := (Sign.head_text hs').2.2.2
  simpa using hlength

theorem takes_single {c : Char} {rest : List Char} {s : Sign} (h : Sign.ofChar? c = some s)
    (hpair : ∀ d after, rest = d :: after → Sign.ofPair? c d = none) : Takes c rest (.token (.sign s), [], rest) := by
  have htext := Sign.ofChar?_eq_some_iff.mp h
  obtain ⟨-, hname, hdigit, -⟩ := Sign.head_text htext
  refine ⟨_, _, _, rfl, rfl, htext ▸ .sign s, ?_⟩
  intro more after lexeme hrest hspells
  obtain ⟨s', hs', -⟩ := hspells.of_sign hname hdigit
  have hlength := (Sign.head_text hs').2.2.2
  rcases more with _ | ⟨d, _ | ⟨e, more⟩⟩
  · rfl
  · have hnone := hpair d after hrest
    rw [Sign.ofPair?_eq_some_iff.mpr hs'] at hnone
    cases hnone
  · simp at hlength

theorem not_writable {c : Char} (hspace : ¬ isSpace c) (hname : ¬ isNameStart c) (hdigit : ¬ c.isDigit)
    (hsign : Sign.ofChar? c = none) : ¬ Writable c := by
  rintro (halpha | hdigit' | hmark)
  · exact hname (by simp [isNameStart, halpha])
  · exact hdigit hdigit'
  · have hmarks : ['_', '&', '!', '=', '<', '>', '|', '(', ')', '[', ']', '+', '-', ' ', '\t', '\r', '\n'].all
        fun c => isNameStart c || isSpace c || (Sign.ofChar? c).isSome := by decide
    simpa [hname, hspace, hsign] using List.all_eq_true.mp hmarks c hmark

theorem single_cases {c : Char} {rest : List Char} (hspace : ¬ isSpace c) (hname : ¬ isNameStart c)
    (hdigit : ¬ c.isDigit) (hpair : ∀ d after, rest = d :: after → Sign.ofPair? c d = none) :
    Takes c rest (split.single c, [], rest) ∨
      (¬ Writable c ∧ (split.single c, ([] : List Char), rest) = (.invalid c, [], rest)) := by
  rw [split.single]
  rcases hsign : Sign.ofChar? c with _ | s
  · exact .inr ⟨not_writable hspace hname hdigit hsign, rfl⟩
  · exact .inl (takes_single hsign hpair)

/-- A line starts with a stretch between tokens, with a token as long as can be, or with a character that no text is
    written with. -/
theorem split_cases (c : Char) (rest : List Char) :
    (isSpace c ∧ split c rest = (.space, [], rest)) ∨ Takes c rest (split c rest) ∨
      (¬ Writable c ∧ split c rest = (.invalid c, [], rest)) := by
  unfold split
  split
  · next hspace => exact .inl ⟨hspace, rfl⟩
  · next hspace =>
    refine .inr ?_
    split
    · next hname => exact .inl (takes_name rest hname)
    · next hname =>
      split
      · next hdigit =>
        refine .inl ?_
        split
        · next x d after =>
          split
          · next hmark => exact takes_hexadecimal after hmark.1 hmark.2
          · next hmark =>
            refine takes_decimal hdigit fun x' d' after' _ hrest hx hd => hmark ?_
            cases hrest
            exact ⟨hx, isHexDigit_iff.mpr hd⟩
        · next hother =>
          exact takes_decimal hdigit fun x d after hc hrest _ _ => hother x d after hc hrest
      · next hdigit =>
        split
        · next d after =>
          split
          · next s hpair => exact .inl (takes_pair after hpair)
          · next hpair =>
            refine single_cases hspace hname hdigit fun d' after' heq => ?_
            cases heq
            exact hpair
        · exact single_cases hspace hname hdigit nofun

end Token
end MicroDebug

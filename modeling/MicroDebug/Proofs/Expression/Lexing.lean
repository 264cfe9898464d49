import MicroDebug.Proofs.Expression.Lexemes
import MicroDebug.Proofs.Source.Slices

/-! Reading a whole line. Tokens are those of a line if it falls, from its start to its end, into stretches between
    tokens and texts of the tokens, each as long as can be. A line without characters that no text is written with
    falls apart so in exactly one way, and `tokenize` finds it; on any other line it stops at the first of these
    characters. -/

namespace MicroDebug.Token

/-! ### Lines and their tokens -/

/-- The tokens are those of a line that starts at an offset. -/
inductive Lexes : Nat → List Char → List Token → Prop
  | nil (offset : Nat) : Lexes offset [] []
  | space {offset : Nat} {c : Char} {cs : List Char} {ts : List Token} (hc : isSpace c)
      (h : Lexes (offset + c.utf8Size) cs ts) : Lexes offset (c :: cs) ts
  | token {offset : Nat} {text rest : List Char} {lexeme : Lexeme} {ts : List Token} (htext : Spells text lexeme)
      (hlongest : Longest text rest) (h : Lexes (offset + byteCount text) rest ts) :
      Lexes offset (text ++ rest) (⟨.ofLength offset (byteCount text), lexeme⟩ :: ts)

/-- The error is that for the first character that no text is written with. -/
def Stumbles (offset : Nat) (cs : List Char) (d : Diagnostic) : Prop :=
  ∃ before c after, cs = before ++ c :: after ∧ (∀ b ∈ before, Writable b) ∧ ¬ Writable c ∧
    d = invalid (.ofLength (offset + byteCount before) c.utf8Size) c

theorem Stumbles.prepend {offset : Nat} {cs : List Char} {d : Diagnostic} (text : List Char)
    (htext : ∀ c ∈ text, Writable c) (h : Stumbles (offset + byteCount text) cs d) : Stumbles offset (text ++ cs) d := by
  obtain ⟨before, c, after, rfl, hbefore, hc, rfl⟩ := h
  refine ⟨text ++ before, c, after, by simp, ?_, hc, by rw [byteCount_append, Nat.add_assoc]⟩
  intro b hb
  rcases List.mem_append.mp hb with hb | hb
  · exact htext b hb
  · exact hbefore b hb

theorem Longest.eq {text rest text' rest' : List Char} {lexeme lexeme' : Lexeme} (h : text ++ rest = text' ++ rest')
    (hlongest : Longest text rest) (hlongest' : Longest text' rest') (htext : Spells text lexeme)
    (htext' : Spells text' lexeme') : text = text' ∧ rest = rest' := by
  rcases List.append_eq_append_iff.mp h with ⟨more, rfl, hrest⟩ | ⟨more, rfl, hrest⟩
  · cases hlongest more rest' lexeme' hrest htext'
    simpa using hrest
  · cases hlongest' more rest lexeme hrest htext
    simpa using hrest.symm

namespace Lexes

variable {offset : Nat} {cs : List Char} {ts : List Token}

theorem writable (h : Lexes offset cs ts) : ∀ c ∈ cs, Writable c := by
  induction h with
  | nil => simp
  | space hc h ih => exact List.forall_mem_cons.mpr ⟨writable_of_isSpace hc, ih⟩
  | token htext hlongest h ih => exact List.forall_mem_append.mpr ⟨htext.writable, ih⟩

/-- A line falls apart in one way only. -/
theorem unique {ts' : List Token} (h : Lexes offset cs ts) (h' : Lexes offset cs ts') : ts = ts' := by
  induction h generalizing ts' with
  | nil offset =>
    generalize hcs : ([] : List Char) = cs at h'
    cases h' with
    | nil => rfl
    | space => cases hcs
    | token htext => exact absurd (List.append_eq_nil_iff.mp hcs.symm).1 htext.ne_nil
  | @space offset c cs ts hc h ih =>
    generalize hline : c :: cs = line at h'
    cases h' with
    | nil => cases hline
    | space hc' h' =>
      cases hline
      exact ih h'
    | @token _ text rest lexeme _ htext =>
      obtain ⟨d, more, rfl⟩ := List.exists_cons_of_ne_nil htext.ne_nil
      cases hline
      exact absurd hc htext.not_isSpace
  | @token offset text rest lexeme ts htext hlongest h ih =>
    obtain ⟨d, more, rfl⟩ := List.exists_cons_of_ne_nil htext.ne_nil
    generalize hline : d :: more ++ rest = line at h'
    cases h' with
    | nil => cases hline
    | space hc =>
      cases hline
      exact absurd hc htext.not_isSpace
    | token htext' hlongest' h' =>
      obtain ⟨rfl, rfl⟩ := Longest.eq hline hlongest hlongest' htext htext'
      rw [htext.unique htext', ih h']

end Lexes

/-- A line is read to its end, or up to the first character that no text is written with. -/
theorem scanFrom_cases (fuel offset : Nat) (cs : List Char) (hfuel : cs.length ≤ fuel) :
    (∃ ts, collect (scanFrom fuel offset cs) = .ok ts ∧ Lexes offset cs ts) ∨
      ∃ d, collect (scanFrom fuel offset cs) = .error d ∧ Stumbles offset cs d := by
  induction fuel generalizing offset cs with
  | zero =>
    cases List.length_eq_zero_iff.mp (Nat.le_zero.mp hfuel)
    exact .inl ⟨[], rfl, .nil offset⟩
  | succ fuel ih =>
    rcases cs with _ | ⟨c, cs⟩
    · exact .inl ⟨[], rfl, .nil offset⟩
    · rw [List.length_cons] at hfuel
      rw [scanFrom]
      rcases split_cases c cs with ⟨hc, hsplit⟩ | ⟨lexeme, more, after, hsplit, rfl, htext, hlongest⟩ |
        ⟨hc, hsplit⟩ <;> rw [hsplit]
      · rcases ih (offset + c.utf8Size) cs (by omega) with ⟨ts, hts, hlexes⟩ | ⟨d, hd, hstumbles⟩
        · exact .inl ⟨ts, hts, .space hc hlexes⟩
        · refine .inr ⟨d, hd, Stumbles.prepend [c] ?_ hstumbles⟩
          simpa using writable_of_isSpace hc
      · rw [List.length_append] at hfuel
        rcases ih (offset + byteCount (c :: more)) after (by omega) with
          ⟨ts, hts, hlexes⟩ | ⟨d, hd, hstumbles⟩
        · refine .inl ⟨_, ?_, .token htext hlongest hlexes⟩
          rw [collect]
          exact congrArg _ hts
        · refine .inr ⟨d, ?_, Stumbles.prepend _ htext.writable hstumbles⟩
          rw [collect]
          exact congrArg _ hd
      · exact .inr ⟨_, rfl, [], c, cs, rfl, nofun, hc, rfl⟩

theorem tokenize_cases (source : String) :
    (∃ ts, tokenize source = .ok ts ∧ Lexes 0 source.toList ts) ∨
      ∃ d, tokenize source = .error d ∧ Stumbles 0 source.toList d :=
  scanFrom_cases _ 0 _ (Nat.le_refl _)

theorem tokenize_eq_ok_iff {source : String} {ts : List Token} :
    tokenize source = .ok ts ↔ Lexes 0 source.toList ts := by
  rcases tokenize_cases source with ⟨ts', hts', hlexes⟩ | ⟨d, hd, hstumbles⟩
  · constructor
    · intro h
      rw [hts'] at h
      cases h
      exact hlexes
    · intro h
      rw [hts', h.unique hlexes]
  · constructor
    · intro h
      rw [hd] at h
      cases h
    · intro h
      obtain ⟨before, c, after, hsource, -, hc, -⟩ := hstumbles
      exact absurd (h.writable c (by simp [hsource])) hc

theorem tokenize_eq_error {source : String} {d : Diagnostic} (h : tokenize source = .error d) :
    Stumbles 0 source.toList d := by
  rcases tokenize_cases source with ⟨ts, hts, -⟩ | ⟨d', hd', hstumbles⟩
  · rw [hts] at h
    cases h
  · rw [hd'] at h
    cases h
    exact hstumbles

/-! ### Where tokens are -/

/-- No token is empty, and each one ends before the next one starts. -/
structure InOrder (ts : List Token) : Prop where
  nonempty : ∀ t ∈ ts, t.span.start < t.span.stop
  ordered : ts.Pairwise fun t u => t.span.stop ≤ u.span.start

theorem InOrder.sublist {ts us : List Token} (h : InOrder ts) (hsub : us.Sublist ts) : InOrder us :=
  ⟨fun t ht => h.nonempty t (hsub.mem ht), h.ordered.sublist hsub⟩

namespace Lexes

variable {offset : Nat} {cs : List Char} {ts : List Token}

theorem offset_le (h : Lexes offset cs ts) : ∀ t ∈ ts, offset ≤ t.span.start := by
  induction h with
  | nil => simp
  | space hc h ih => exact fun t ht => Nat.le_trans (Nat.le_add_right ..) (ih t ht)
  | token htext hlongest h ih =>
    exact List.forall_mem_cons.mpr ⟨Nat.le_refl _, fun t ht => Nat.le_trans (Nat.le_add_right ..) (ih t ht)⟩

theorem inOrder (h : Lexes offset cs ts) : InOrder ts := by
  induction h with
  | nil => exact ⟨nofun, .nil⟩
  | space hc h ih => exact ih
  | token htext hlongest h ih =>
    refine ⟨List.forall_mem_cons.mpr ⟨?_, ih.nonempty⟩, ih.ordered.cons h.offset_le⟩
    exact Nat.lt_add_of_pos_right (byteCount_pos htext.ne_nil)

/-- Each token has its text at its place, which does not go on to a longer one. -/
theorem exists_text (h : Lexes offset cs ts) {t : Token} (ht : t ∈ ts) :
    ∃ before text after, cs = before ++ text ++ after ∧
      t.span = .ofLength (offset + byteCount before) (byteCount text) ∧ Spells text t.lexeme ∧ Longest text after := by
  induction h with
  | nil => cases ht
  | @space offset c cs ts hc h ih =>
    obtain ⟨before, text, after, rfl, hspan, htext, hlongest⟩ := ih ht
    exact ⟨c :: before, text, after, rfl, by rw [hspan, byteCount_cons, Nat.add_assoc], htext, hlongest⟩
  | @token offset text rest lexeme ts htext hlongest h ih =>
    rcases List.mem_cons.mp ht with rfl | ht
    · exact ⟨[], text, rest, rfl, rfl, htext, hlongest⟩
    · obtain ⟨before, text', after, rfl, hspan, htext', hlongest'⟩ := ih ht
      exact ⟨text ++ before, text', after, by simp, by rw [hspan, byteCount_append, Nat.add_assoc], htext', hlongest'⟩

/-- A character outside all tokens stands between them. -/
theorem isSpace_of_outside (h : Lexes offset cs ts) (before : List Char) {after : List Char} {c : Char}
    (hcs : cs = before ++ c :: after)
    (hout : ∀ t ∈ ts, offset + byteCount (before ++ [c]) ≤ t.span.start ∨ t.span.stop ≤ offset + byteCount before) :
    isSpace c := by
  induction h generalizing before with
  | nil => simp at hcs
  | @space offset d cs ts hd h ih =>
    rcases before with _ | ⟨b, before⟩
    · cases hcs
      exact hd
    · cases hcs
      refine ih before rfl fun t ht => ?_
      simpa only [List.cons_append, byteCount_cons, Nat.add_assoc] using hout t ht
  | @token offset text rest lexeme ts htext hlongest h ih =>
    obtain ⟨hhead, htail⟩ := List.forall_mem_cons.mp hout
    rcases List.append_eq_append_iff.mp hcs with ⟨more, rfl, hrest⟩ | ⟨more, rfl, hrest⟩
    · refine ih more hrest fun t ht => ?_
      simpa only [List.append_assoc, byteCount_append, Nat.add_assoc] using htail t ht
    · rcases more with _ | ⟨d, more⟩
      · refine ih [] hrest.symm fun t ht => ?_
        simpa only [List.append_nil, List.nil_append, byteCount_append, byteCount_nil, Nat.add_zero, Nat.add_assoc]
          using htail t ht
      · -- the character is in the text of the first token
        cases hrest
        have hsize := c.utf8Size_pos
        simp only [Span.ofLength_start, Span.ofLength_stop, byteCount_append, byteCount_cons] at hhead
        omega

end Lexes

/-! ### Nothing is lost -/

/-- The tokens make up the text but for what stands between them. -/
structure Lossless (source : String) (ts : List Token) : Prop extends InOrder ts where
  /-- The text at a token's place is what writes it. -/
  spelled : ∀ t ∈ ts, ∃ text, t.span.Covers source text ∧ Spells text.toList t.lexeme
  /-- No longer text that starts where a token starts is that of any token. -/
  longest : ∀ t ∈ ts, ∀ (s : Span) (text : String) (lexeme : Lexeme), s.start = t.span.start →
    t.span.stop < s.stop → s.Covers source text → ¬ Spells text.toList lexeme
  /-- A character that is in no token is a space, a tab or part of a line end. -/
  between : ∀ (s : Span) (c : Char), s.Covers source (String.singleton c) →
    (∀ t ∈ ts, s.stop ≤ t.span.start ∨ t.span.stop ≤ s.start) → c ∈ [' ', '\t', '\r', '\n']

namespace Lexes

variable {source : String} {ts : List Token}

theorem covers (h : Lexes 0 source.toList ts) {t : Token} (ht : t ∈ ts) :
    ∃ text, t.span.Covers source text ∧ Spells text.toList t.lexeme := by
  obtain ⟨before, text, after, hsource, hspan, htext, -⟩ := h.exists_text ht
  refine ⟨String.ofList text, Span.covers_iff.mpr ⟨before, after, ?_, ?_, ?_⟩, ?_⟩
  · rw [String.toList_ofList, hsource]
  · rw [hspan, Span.ofLength_start, Nat.zero_add]
  · rw [hspan, Span.ofLength_stop, Nat.zero_add, String.toList_ofList, byteCount_append]
  · rwa [String.toList_ofList]

theorem not_longer (h : Lexes 0 source.toList ts) {t : Token} (ht : t ∈ ts) {s : Span} {text : String}
    {lexeme : Lexeme} (hstart : s.start = t.span.start) (hstop : t.span.stop < s.stop)
    (hcovers : s.Covers source text) : ¬ Spells text.toList lexeme := by
  intro hspells
  obtain ⟨before, own, after, hsource, hspan, -, hlongest⟩ := h.exists_text ht
  obtain ⟨before', after', hsource', hbefore', hstop'⟩ := Span.covers_iff.mp hcovers
  rw [hsource, List.append_assoc, List.append_assoc] at hsource'
  rw [hspan, Span.ofLength_start, Nat.zero_add] at hstart
  rw [hspan, Span.ofLength_stop, Nat.zero_add] at hstop
  obtain ⟨rfl, hrest⟩ := eq_of_byteCount_eq hsource' (hstart.symm.trans hbefore'.symm)
  rw [byteCount_append] at hstop'
  obtain ⟨more, htext, hafter⟩ := exists_append_of_byteCount_le hrest (by omega)
  rw [htext] at hspells
  cases hlongest more after' lexeme hafter hspells
  rw [htext, List.append_nil] at hstop'
  omega

theorem lossless (h : Lexes 0 source.toList ts) : Lossless source ts where
  toInOrder := h.inOrder
  spelled := fun t ht => h.covers ht
  longest := fun t ht s text lexeme hstart hstop hcovers => h.not_longer ht hstart hstop hcovers
  between := by
    intro s c hcovers hout
    obtain ⟨before, after, hsource, hstart, hstop⟩ := Span.covers_iff.mp hcovers
    rw [String.toList_singleton] at hsource hstop
    have hspace : isSpace c := by
      rw [List.append_assoc] at hsource
      refine h.isSpace_of_outside before hsource fun t ht => ?_
      rw [Nat.zero_add, Nat.zero_add, hstart, hstop]
      exact hout t ht
    simpa [isSpace, or_assoc] using hspace

end Lexes

/-- A text is refused exactly for a character that no text is written with, and then for the first of them; the tokens
    of any other text are all there is in it but for what stands between tokens. -/
theorem tokenize_lossless (source : String) :
    ((∃ d, tokenize source = .error d) ↔ ∃ c ∈ source.toList, ¬ Writable c) ∧
      (∀ d, tokenize source = .error d → ∃ c before after, source = before ++ String.singleton c ++ after ∧
        (∀ b ∈ before.toList, Writable b) ∧ ¬ Writable c ∧ d.span.start = before.utf8ByteSize ∧
        d.span.stop = (before ++ String.singleton c).utf8ByteSize ∧
        d.message = "invalid character: " ++ String.singleton c ∧ d.labels = []) ∧
      ∀ ts, tokenize source = .ok ts → Lossless source ts := by
  refine ⟨⟨?_, ?_⟩, ?_, ?_⟩
  · rintro ⟨d, hd⟩
    obtain ⟨before, c, after, hsource, -, hc, -⟩ := tokenize_eq_error hd
    exact ⟨c, by simp [hsource], hc⟩
  · rintro ⟨c, hc, hwritable⟩
    rcases tokenize_cases source with ⟨ts, -, hlexes⟩ | ⟨d, hd, -⟩
    · exact absurd (hlexes.writable c hc) hwritable
    · exact ⟨d, hd⟩
  · intro d hd
    obtain ⟨before, c, after, hsource, hbefore, hc, rfl⟩ := tokenize_eq_error hd
    refine ⟨c, String.ofList before, String.ofList after, String.toList_injective (by simp [hsource]),
      by simpa using hbefore, hc, ?_, ?_, rfl, rfl⟩
    · rw [← byteCount_eq]
      exact Nat.zero_add _
    · rw [String.utf8ByteSize_append, ← byteCount_eq, String.utf8ByteSize_singleton]
      exact congrArg (· + _) (Nat.zero_add _)
  · exact fun ts hts => (tokenize_eq_ok_iff.mp hts).lossless

/-- Of `0x1F<=r4` the integer takes four characters and the sign two. -/
theorem tokenize_lossless_hexadecimal :
    Lossless "0x1F<=r4" [⟨.ofLength 0 4, .number 31⟩, ⟨.ofLength 4 2, .sign .ltEq⟩, ⟨.ofLength 6 2, .name "r4"⟩] :=
  (tokenize_lossless "0x1F<=r4").2.2 _ (by decide)

end MicroDebug.Token

import MicroDebug.Expression.Assignment
import MicroDebug.Proofs.Expression.Spans
import MicroDebug.Proofs.Expression.SyntaxErrors
import MicroDebug.Proofs.Expression.Typing
import MicroDebug.Proofs.Source.Underlines

/-! Where errors point to. A text with a character that no text is written with is refused before it is parsed, for
    the first such character. In any other text each character takes one byte, and whatever is reported later is about
    the places of tokens, about what is between such places, or about the end of the text. -/

namespace MicroDebug

/-! ### Places of trees -/

namespace Expr

/-- The places of an expression, of its subexpressions, and of the operators and views in them. -/
def places : Expr → List Span
  | number s _ | name s _ => [s]
  | index s _ vs a => s :: vs :: a.places
  | unary s _ os e => s :: os :: e.places
  | binary s _ os l r => s :: os :: (l.places ++ r.places)

theorem span_mem_places (e : Expr) : e.span ∈ e.places := by
  cases e <;> exact List.mem_cons_self

theorem mem_places_withSpan {s t : Span} {e : Expr} (h : t ∈ (e.withSpan s).places) : t = s ∨ t ∈ e.places := by
  cases e <;> grind [withSpan, places]

theorem places_subset {e n : Expr} (h : n ∈ e.postorder) : n.places ⊆ e.places := by
  induction e with
  | number | name =>
    cases List.mem_singleton.mp h
    exact List.Subset.refl _
  | index s v vs a ih =>
    rcases List.mem_append.mp h with h | h
    · exact fun t ht => by simp [places, ih h ht]
    · cases List.mem_singleton.mp h
      exact List.Subset.refl _
  | unary s op os e ih =>
    rcases List.mem_append.mp h with h | h
    · exact fun t ht => by simp [places, ih h ht]
    · cases List.mem_singleton.mp h
      exact List.Subset.refl _
  | binary s op os l r ihl ihr =>
    rcases List.mem_append.mp h with h | h
    · rcases List.mem_append.mp h with h | h
      · exact fun t ht => by simp [places, ihl h ht]
      · exact fun t ht => by simp [places, ihr h ht]
    · cases List.mem_singleton.mp h
      exact List.Subset.refl _

end Expr

/-- The places of a target and of what is in it. -/
def Target.places : Target → List Span
  | name s _ => [s]
  | index s _ vs a => s :: vs :: a.places

/-! ### Errors about trees -/

/-- There are errors, and they speak of no other places. -/
structure Concerns (errors : List Diagnostic) (places : List Span) : Prop where
  ne_nil : errors ≠ []
  subset : ∀ d ∈ errors, d.places ⊆ places

theorem Concerns.mono {errors : List Diagnostic} {places places' : List Span} (h : Concerns errors places)
    (hsubset : places ⊆ places') : Concerns errors places' :=
  ⟨h.ne_nil, fun d hd => List.Subset.trans (h.subset d hd) hsubset⟩

theorem concerns_singleton {d : Diagnostic} {places : List Span} (h : d.places ⊆ places) : Concerns [d] places :=
  ⟨List.cons_ne_nil _ _, by simpa using h⟩

namespace Typing

theorem places_unknownView (span : Span) (view : String) : (unknownView span view).places = [span, span] := rfl

theorem places_mismatch (what : String) (span : Span) (wanted found : ValueType) :
    (mismatch what span wanted found).places = [span, span] := rfl

theorem places_badAddress (span : Span) (found : ValueType) : (badAddress span found).places = [span, span] :=
  places_mismatch ..

variable {errors : List Diagnostic} {es : List Expr} {d : Diagnostic} {e : Expr}

theorem Reports.exists_tells (h : Reports errors es) (hd : d ∈ errors) : ∃ n ∈ es, Tells d n := by
  induction h with
  | nil => cases hd
  | skip _ _ ih =>
    obtain ⟨n, hn, htells⟩ := ih hd
    exact ⟨n, .tail _ hn, htells⟩
  | tell _ htells _ ih =>
    cases hd with
    | head => exact ⟨_, .head _, htells⟩
    | tail _ hd =>
      obtain ⟨n, hn, htells⟩ := ih hd
      exact ⟨n, .tail _ hn, htells⟩

/-- What is wrong with an expression is told of places of it and of its operands. -/
theorem Tells.places_subset (h : Tells d e) : d.places ⊆ e.places := by
  cases h with
  | name s x => simp [Diagnostic.places, unknownName, Expr.places]
  | view s vs a => simp [places_unknownView, Expr.places]
  | @address a => simp [places_badAddress, Expr.places, a.span_mem_places]
  | @unary e => simp [Diagnostic.places, badUnary, typeLabel, Expr.places, e.span_mem_places]
  | @binary l r => simp [Diagnostic.places, badBinary, typeLabel, Expr.places, l.span_mem_places, r.span_mem_places]

theorem concerns_of_compile (h : e.compile = .error errors) : Concerns errors e.places := by
  have hreports := reports_check e
  rw [Expr.compile_eq] at h
  rcases hcheck : (check e).2 with _ | code
  · rw [hcheck] at h
    cases h
    refine ⟨fun hnil => ?_, fun d hd => ?_⟩
    · rw [hnil] at hreports
      exact not_typed_iff.mpr hcheck (typed_of_not_atFault fun n hn => hreports.not_atFault hn)
    · obtain ⟨n, hn, htells⟩ := hreports.exists_tells hd
      exact List.Subset.trans htells.places_subset (Expr.places_subset hn)
  · rw [hcheck] at h
    cases h

end Typing

namespace Assignment

theorem concerns_of_checkTarget {errors : List Diagnostic} {target : Target} (h : checkTarget target = .error errors) :
    Concerns errors target.places := by
  cases target with
  | name s x =>
    rw [checkTarget] at h
    split at h
    · cases h
    · cases h
    · cases h
      exact concerns_singleton (by simp [Diagnostic.places, badTarget, Target.places])
  | index s view vs a =>
    rw [checkTarget] at h
    split at h
    · cases h
      exact concerns_singleton (by simp [Typing.places_unknownView, Target.places])
    · split at h
      · next herrors =>
        cases h
        exact (Typing.concerns_of_compile herrors).mono fun t ht => by simp [Target.places, ht]
      · split at h
        · cases h
        · cases h
          exact concerns_singleton (by simp [Typing.places_badAddress, Target.places, a.span_mem_places])

theorem concerns_of_compile {errors : List Diagnostic} {target : Target} {e : Expr}
    (h : compile target e = .error errors) : Concerns errors (target.places ++ e.places) := by
  rw [compile] at h
  split at h
  · next herrors =>
    cases h
    exact (Typing.concerns_of_compile herrors).mono (List.subset_append_right ..)
  · split at h
    · next herrors =>
      cases h
      exact (concerns_of_checkTarget herrors).mono (List.subset_append_left ..)
    · split at h
      · cases h
      · cases h
        exact concerns_singleton (by simp [Typing.places_mismatch, e.span_mem_places])

end Assignment

/-! ### Places of tokens -/

section

variable {source : String} {ts : List Token}

/-- The places of a tree are those of its tokens, or reach from one to another. -/
theorem Grammar.Writes.liesIn {e : Expr} (h : Writes (.chain .or) ts e) (hts : ∀ t ∈ ts, t.span.LiesIn source) :
    ∀ s ∈ e.places, s.LiesIn source := by
  induction h using Writes.tree_induction with
  | number s n | name s x => simpa [Expr.places] using hts
  | group ts e s t _ _ ih =>
    simp only [List.forall_mem_cons, List.forall_mem_append] at hts
    obtain ⟨hopen, hinner, hclose, -⟩ := hts
    intro u hu
    rcases Expr.mem_places_withSpan hu with rfl | hu
    · exact hopen.merge hclose
    · exact ih hinner u hu
  | index ts a s view b t _ _ ih =>
    simp only [List.forall_mem_cons, List.forall_mem_append] at hts
    obtain ⟨hview, -, hinner, hclose, -⟩ := hts
    exact List.forall_mem_cons.mpr ⟨hview.merge hclose, List.forall_mem_cons.mpr ⟨hview, ih hinner⟩⟩
  | unary ts e s sign op _ _ ih =>
    obtain ⟨hop, hinner⟩ := List.forall_mem_cons.mp hts
    exact List.forall_mem_cons.mpr
      ⟨hop.merge (ih hinner _ e.span_mem_places), List.forall_mem_cons.mpr ⟨hop, ih hinner⟩⟩
  | binary ts us left right s sign op _ _ _ ihl ihr =>
    simp only [List.forall_mem_cons, List.forall_mem_append] at hts
    obtain ⟨hleft, hop, hright⟩ := hts
    have hl := ihl hleft
    have hr := ihr hright
    exact List.forall_mem_cons.mpr ⟨(hl _ left.span_mem_places).merge (hr _ right.span_mem_places),
      List.forall_mem_cons.mpr ⟨hop, List.forall_mem_append.mpr ⟨hl, hr⟩⟩⟩

theorem Grammar.Names.liesIn {target : Target} (h : Names ts target) (hts : ∀ t ∈ ts, t.span.LiesIn source) :
    ∀ s ∈ target.places, s.LiesIn source := by
  cases h with
  | name s x => simpa [Target.places] using hts
  | index s view b t h =>
    simp only [List.forall_mem_cons, List.forall_mem_append] at hts
    obtain ⟨hview, -, hinner, hclose, -⟩ := hts
    exact List.forall_mem_cons.mpr ⟨hview.merge hclose, List.forall_mem_cons.mpr ⟨hview, h.liesIn hinner⟩⟩

theorem Grammar.Assigns.liesIn {target : Target} {e : Expr} (h : Assigns ts target e)
    (hts : ∀ t ∈ ts, t.span.LiesIn source) : ∀ s ∈ target.places ++ e.places, s.LiesIn source := by
  obtain ⟨us, s, vs, rfl, hnames, hwrites⟩ := h
  obtain ⟨hleft, hright⟩ := List.forall_mem_append.mp hts
  exact List.forall_mem_append.mpr
    ⟨hnames.liesIn hleft, hwrites.liesIn (List.forall_mem_cons.mp hright).2⟩

theorem Parser.liesIn_of_diagnose {last : Token} (f : Failure) (hts : ∀ t ∈ ts, t.span.LiesIn source)
    (hlast : last ∈ ts) : ∀ s ∈ (diagnose ts last f).places, s.LiesIn source := by
  suffices hspan : (diagnose ts last f).span.LiesIn source by simpa [Diagnostic.places, diagnose] using hspan
  rw [diagnose]
  split
  · next t ht => exact hts t (List.mem_of_getElem? ht)
  · exact (hts last hlast).endpoint

/-- A parser stops at a token or at the end of the last one, or else there is no token. -/
theorem Parser.liesIn_of_parseWith {α : Type} {p : Parser α} {L : List Token → α → Prop} {what : String}
    {errors : List Diagnostic} (hp : Accepts p L) (h : parseWith what p ts = .error errors)
    (hts : ∀ t ∈ ts, t.span.LiesIn source) :
    errors ≠ [] ∧ ∀ d ∈ errors, ∀ s ∈ d.places, s.LiesIn source := by
  rcases eq_or_ne ts [] with rfl | hne
  · cases h
    have hzero := Span.boundary_zero source
    simpa [Diagnostic.places, missing] using Span.liesIn_iff.mpr ⟨hzero, hzero⟩
  · obtain ⟨fs, hparse, rfl⟩ := error_of_parseWith h hne
    obtain ⟨f, rfl, -⟩ := hp.recognizes.parse_eq_error hparse
    exact ⟨List.cons_ne_nil _ _, List.forall_mem_singleton.mpr (liesIn_of_diagnose f hts (List.getLast_mem hne))⟩

end

/-! ### Texts -/

namespace Token

theorem utf8Size_of_writable {c : Char} (h : Writable c) : c.utf8Size = 1 := by
  rw [Char.utf8Size_eq_one_iff]
  rcases h with halpha | hdigit | hsign
  · rcases Bool.or_eq_true_iff.mp halpha with hupper | hlower
    · have hle : c.val ≤ 'Z'.val := (of_decide_eq_true hupper).2
      exact UInt32.le_trans hle (by decide)
    · have hle : c.val ≤ 'z'.val := of_decide_eq_true (Bool.and_eq_true_iff.mp hlower).2
      exact UInt32.le_trans hle (by decide)
  · have hle : c.val ≤ '9'.val := of_decide_eq_true (Bool.and_eq_true_iff.mp hdigit).2
    exact UInt32.le_trans hle (by decide)
  · revert c
    simp

section

variable {source : String} {ts : List Token} {d : Diagnostic}

/-- A character that is refused may take more bytes than one, but those before it do not. -/
theorem Stumbles.printable (h : Stumbles 0 source.toList d) : d.Printable source := by
  obtain ⟨before, c, after, hsource, hbefore, -, rfl⟩ := h
  refine Diagnostic.printable_of_liesAfter (List.forall_mem_singleton.mpr ?_)
  refine ⟨String.ofList before, String.singleton c, String.ofList after, String.toList_injective (by simp [hsource]),
    ?_, ?_, ?_⟩
  · rw [← byteCount_eq]
    exact (Nat.zero_add _).symm
  · rw [String.utf8ByteSize_append, ← byteCount_eq, String.utf8ByteSize_singleton]
    exact congrArg (· + _) (Nat.zero_add _).symm
  · rw [String.length_ofList, ← byteCount_eq_length fun b hb => utf8Size_of_writable (hbefore b hb)]
    exact (Nat.zero_add _).symm

theorem Lexes.liesIn (h : Lexes 0 source.toList ts) : ∀ t ∈ ts, t.span.LiesIn source := fun _ ht => by
  obtain ⟨text, hcovers, -⟩ := h.covers ht
  exact ⟨text, hcovers⟩

theorem Lexes.printable (h : Lexes 0 source.toList ts) (hd : ∀ s ∈ d.places, s.LiesIn source) : d.Printable source :=
  Diagnostic.printable_of_liesAfter fun s hs =>
    (hd s hs).liesAfter fun c hc => utf8Size_of_writable (h.writable c hc)

end

end Token

namespace Parser

open Token

section

variable {α : Type} {parse : List Token → Except (List Diagnostic) α} {source : String} {errors : List Diagnostic}

/-- Errors from before there is a tree. -/
theorem printable_of_refused (h : (ofSource source).bind parse = .error errors)
    (hparse : ∀ ts, parse ts = .error errors → (∀ t ∈ ts, t.span.LiesIn source) →
      errors ≠ [] ∧ ∀ d ∈ errors, ∀ s ∈ d.places, s.LiesIn source) :
    errors ≠ [] ∧ ∀ d ∈ errors, d.Printable source := by
  rcases hts : tokenize source with d | ts <;> rw [ofSource, hts] at h
  · cases h
    exact ⟨List.cons_ne_nil _ _, List.forall_mem_singleton.mpr (tokenize_eq_error hts).printable⟩
  · have hlexes := tokenize_eq_ok_iff.mp hts
    obtain ⟨hne, hplaces⟩ := hparse ts h hlexes.liesIn
    exact ⟨hne, fun d hd => hlexes.printable (hplaces d hd)⟩

/-- Errors about the tree that a text writes. -/
theorem printable_of_concerns {x : α} {places : List Span} (h : (ofSource source).bind parse = .ok x)
    (hparse : ∀ ts, parse ts = .ok x → (∀ t ∈ ts, t.span.LiesIn source) → ∀ s ∈ places, s.LiesIn source)
    (herrors : Concerns errors places) : errors ≠ [] ∧ ∀ d ∈ errors, d.Printable source := by
  rcases hts : tokenize source with d' | ts <;> rw [ofSource, hts] at h
  · cases h
  · have hlexes := tokenize_eq_ok_iff.mp hts
    have hplaces := hparse ts h hlexes.liesIn
    exact ⟨herrors.ne_nil, fun d hd => hlexes.printable fun s hs => hplaces s (herrors.subset d hd hs)⟩

end

/-- A text that writes no expression, or no assignment, is refused with errors that can be shown under it. -/
theorem errors_printable {source : String} {errors : List Diagnostic}
    (h : Postfix.ofSource source = .error errors ∨ Assignment.ofSource source = .error errors) :
    errors ≠ [] ∧ ∀ d ∈ errors, d.Printable source := by
  rcases h with h | h
  · rw [Postfix.ofSource] at h
    split at h
    · next errors' herrors =>
      cases h
      exact printable_of_refused herrors fun ts => liesIn_of_parseWith accepts_expression
    · next e he =>
      exact printable_of_concerns he (fun ts hparse => ((parseExpr_eq_ok_iff ts e).mp hparse).liesIn)
        (Typing.concerns_of_compile h)
  · rw [Assignment.ofSource] at h
    split at h
    · next errors' herrors =>
      cases h
      exact printable_of_refused herrors fun ts => liesIn_of_parseWith accepts_assignment
    · next target e he =>
      exact printable_of_concerns he
        (fun ts hparse => ((parseAssignment_eq_ok_iff ts target e).mp hparse).liesIn)
        (Assignment.concerns_of_compile h)

/-- In `r4 + λ` the last character is refused, and in `r4 = -carry` the sign, with a label below the flag. -/
theorem errors_printable_lambda_flag :
    let refused := Token.invalid (.ofLength 5 2) 'λ'
    let wrong := Typing.badUnary .negate (.ofLength 5 1) (.ofLength 6 5) .bool
    (Postfix.ofSource "r4 + λ" = .error [refused] ∧ refused.Printable "r4 + λ") ∧
      Assignment.ofSource "r4 = -carry" = .error [wrong] ∧ wrong.Printable "r4 = -carry" := by
  intro refused wrong
  have hrefused : Postfix.ofSource "r4 + λ" = .error [refused] := by
    have htokens : (ofSource "r4 + λ").bind parseExpr = .error [refused] := by decide +kernel
    rw [Postfix.ofSource, htokens]
  have hwrong : Assignment.ofSource "r4 = -carry" = .error [wrong] := by
    have htokens : (ofSource "r4 = -carry").bind parseAssignment =
        .ok (.name (.ofLength 0 2) "r4",
          .unary (.ofLength 5 6) .negate (.ofLength 5 1) (.name (.ofLength 6 5) "carry")) := by decide +kernel
    rw [Assignment.ofSource, htokens]
    simp only [Assignment.compile, Expr.compile_eq]
    rfl
  exact ⟨⟨hrefused, (errors_printable (.inl hrefused)).2 _ (List.mem_singleton_self _)⟩,
    hwrong, (errors_printable (.inr hwrong)).2 _ (List.mem_singleton_self _)⟩

example : (Typing.badUnary .negate (.ofLength 5 1) (.ofLength 6 5) .bool).render "r4 = -carry" =
    "error: Cannot negate bool\n  r4 = -carry\n       ^\n        ----- this expression has type bool" := by
  decide

end Parser
end MicroDebug

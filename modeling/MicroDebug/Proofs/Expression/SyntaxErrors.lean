import MicroDebug.Proofs.Expression.Assigning

/-! Where tokens go wrong. Of all the ways that a parser gives up, the furthest failure is kept. What stands before it
    begins something that is accepted, and the parser would fail there whatever came after it, so it is the end of the
    longest beginning that anything can be made of. -/

namespace MicroDebug.Parser

open Grammar

/-! ### What can go on -/

/-- The tokens begin a list that is accepted. -/
def Begins {α : Type} (parse : List Token → Except (List Diagnostic) α) (ts : List Token) : Prop :=
  ∃ us x, parse (ts ++ us) = .ok x

/-- The error is about the first token after which nothing is accepted any more, or else about the end of the last
    token. -/
structure Pinpoints {α : Type} (parse : List Token → Except (List Diagnostic) α) (ts : List Token) (d : Diagnostic) :
    Prop where
  /-- There is such a token, or the tokens begin a list that is accepted. -/
  found : (∃ i < ts.length, Begins parse (ts.take i) ∧ ¬ Begins parse (ts.take (i + 1))) ∨ Begins parse ts
  token : ∀ i (hi : i < ts.length), Begins parse (ts.take i) → ¬ Begins parse (ts.take (i + 1)) →
    d = { span := ts[i].span, message := "unexpected " ++ ts[i].lexeme.kind }
  ending : Begins parse ts → ∀ last, ts.getLast? = some last →
    d = { span := last.span.endpoint, message := "unexpected end of input" }

section

variable {α : Type} {p : Parser α} {L : List Token → α → Prop} {what : String} {ts : List Token} {errors : List Diagnostic}

theorem Begins.take_of_le {parse : List Token → Except (List Diagnostic) α} {i j : Nat} (h : Begins parse (ts.take j))
    (hle : i ≤ j) : Begins parse (ts.take i) := by
  obtain ⟨us, x, hx⟩ := h
  refine ⟨(ts.drop i).take (j - i) ++ us, x, ?_⟩
  rw [← List.append_assoc, ← List.take_add, Nat.add_sub_cancel' hle]
  exact hx

theorem begins_iff (h : Accepts p L) : Begins (parseWith what p) ts ↔ ∃ us a, L (ts ++ us) a := by
  simp only [Begins, parseWith_eq_ok_iff h]

/-- The errors for a list that is refused are made of the failures of the parser. -/
theorem error_of_parseWith (h : parseWith what p ts = .error errors) (hts : ts ≠ []) :
    ∃ fs, p.parse ts = .error fs ∧ errors = fs.map (diagnose ts (ts.getLast hts)) := by
  rw [parseWith, List.getLast?_eq_some_getLast hts] at h
  rcases hfs : p.parse ts with fs | a <;> rw [hfs] at h <;> cases h
  exact ⟨fs, rfl, rfl⟩

/-- The tokens up to a failure begin a list that is accepted, and with the token there they no longer do. -/
theorem begins_take_iff (h : Accepts p L) {f : Failure} (hviable : Viable L ts 0 f)
    (hlooks : ∀ us, (∀ k ≤ f.index, us[k]? = ts[k]?) → p.parse us = .error [f]) (what : String) {i : Nat}
    (hi : i ≤ ts.length) : Begins (parseWith what p) (ts.take i) ↔ i ≤ f.index := by
  obtain ⟨-, us, vs, a, hus, ha⟩ := hviable
  rw [hus.eq_take] at ha
  refine ⟨fun hbegins => Nat.le_of_not_lt fun hlt => ?_, fun hle => ?_⟩
  · obtain ⟨ws, b, hb⟩ := (begins_iff h).mp (hbegins.take_of_le (Nat.succ_le_of_lt hlt))
    have herror := hlooks (ts.take (f.index + 1) ++ ws) fun k hk => by
      rw [List.getElem?_append_left (by rw [List.length_take]; omega), List.getElem?_take_of_lt (Nat.lt_succ_of_le hk)]
    cases herror.symm.trans (h.parse_eq_ok hb)
  · exact Begins.take_of_le ((begins_iff h).mpr ⟨vs, a, ha⟩) hle

theorem diagnose_of_lt {f : Failure} {last : Token} (hfound : f.found = ts[f.index]?) (hlt : f.index < ts.length) :
    diagnose ts last f =
      { span := ts[f.index].span, message := "unexpected " ++ ts[f.index].lexeme.kind } := by
  rw [diagnose, hfound, List.getElem?_eq_getElem hlt]

theorem diagnose_of_ge {f : Failure} {last : Token} (hfound : f.found = ts[f.index]?) (hge : ts.length ≤ f.index) :
    diagnose ts last f = { span := last.span.endpoint, message := "unexpected end of input" } := by
  rw [diagnose, hfound, List.getElem?_eq_none hge]

/-- What a parser refuses that accepts all of a language, it refuses for one error, where the tokens go wrong. -/
theorem pinpoints_of_accepts (h : Accepts p L) (hts : ts ≠ []) (herrors : parseWith what p ts = .error errors) :
    ∃ d, errors = [d] ∧ Pinpoints (parseWith what p) ts d := by
  obtain ⟨fs, hparse, rfl⟩ := error_of_parseWith herrors hts
  obtain ⟨f, rfl, hviable, hlooks⟩ := h.recognizes.parse_eq_error hparse
  have htake {i : Nat} (hi : i ≤ ts.length) : Begins (parseWith what p) (ts.take i) ↔ i ≤ f.index :=
    begins_take_iff h hviable hlooks what hi
  have hall : Begins (parseWith what p) ts ↔ ts.length ≤ f.index := by
    have hwhole := htake (Nat.le_refl ts.length)
    rwa [List.take_length] at hwhole
  refine ⟨_, rfl, ?_, fun i hi hbegins hnot => ?_, fun hbegins last hlast => ?_⟩
  · rcases Nat.lt_or_ge f.index ts.length with hlt | hge
    · refine .inl ⟨f.index, hlt, (htake (Nat.le_of_lt hlt)).mpr (Nat.le_refl _), fun hnext => ?_⟩
      exact Nat.not_succ_le_self _ ((htake hlt).mp hnext)
    · exact .inr (hall.mpr hge)
  · rw [htake (Nat.le_of_lt hi)] at hbegins
    rw [htake hi] at hnot
    obtain rfl : i = f.index := by omega
    exact diagnose_of_lt hviable.1 hi
  · obtain rfl : ts.getLast hts = last := Option.some.inj ((List.getLast?_eq_some_getLast hts).symm.trans hlast)
    exact diagnose_of_ge hviable.1 (hall.mp hbegins)

end

/-- The errors for tokens that no expression or no assignment is written as are one, and it tells where they go
    wrong. -/
theorem syntax_error_pinpoints (ts : List Token) (hts : ts ≠ []) :
    (∀ errors, parseExpr ts = .error errors → ∃ d, errors = [d] ∧ Pinpoints parseExpr ts d) ∧
      ∀ errors, parseAssignment ts = .error errors → ∃ d, errors = [d] ∧ Pinpoints parseAssignment ts d :=
  ⟨fun _ => pinpoints_of_accepts accepts_expression hts, fun _ => pinpoints_of_accepts accepts_assignment hts⟩

/-- The text `r1+` ends too early for an expression, and its sign cannot follow the target of an assignment. -/
theorem syntax_error_pinpoints_plus :
    Pinpoints parseExpr [⟨.ofLength 0 2, .name "r1"⟩, ⟨.ofLength 2 1, .sign .plus⟩]
        { span := .ofLength 3 0, message := "unexpected end of input" } ∧
      Pinpoints parseAssignment [⟨.ofLength 0 2, .name "r1"⟩, ⟨.ofLength 2 1, .sign .plus⟩]
        { span := .ofLength 2 1, message := "unexpected '+'" } := by
  obtain ⟨hexpr, hassignment⟩ :=
    syntax_error_pinpoints [⟨.ofLength 0 2, .name "r1"⟩, ⟨.ofLength 2 1, .sign .plus⟩] (by decide)
  obtain ⟨d, hd, hpinpoints⟩ := hexpr _ rfl
  obtain ⟨d', hd', hpinpoints'⟩ := hassignment _ rfl
  cases hd
  cases hd'
  exact ⟨hpinpoints, hpinpoints'⟩

end MicroDebug.Parser

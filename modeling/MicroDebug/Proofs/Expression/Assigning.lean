import MicroDebug.Proofs.Expression.Parsing

/-! The parser accepts the assignments that the grammar derives and nothing else. A target ends before the sign of the
    assignment, so a name that the sign follows is never taken for the beginning of a view of memory. -/

namespace MicroDebug.Parser

open Grammar

/-! ### What the parsers recognize -/

theorem recognizes_target : Recognizes target Names := by
  refine (recognizes_index recognizes_expression ?_).orElse (recognizes_identifier.map ?_)
  · exact fun s view b t _ _ ha => .index s view b t ha
  · rintro _ ⟨s, x⟩ rfl
    exact .name s x

theorem recognizes_assignment : Recognizes assignment fun ts x => Assigns ts x.1 x.2 := by
  refine (recognizes_target.andThen ((recognizes_symbol _).andThen recognizes_expression)).map ?_
  rintro _ ⟨t, ⟨s, _⟩, e⟩ ⟨us, _, rfl, hnames, _, vs, rfl, ⟨rfl, rfl⟩, hwrites⟩
  exact ⟨us, s, vs, rfl, hnames, hwrites⟩

/-! ### Derivations that are followed -/

theorem result_target {ts us : List Token} {i j rank : Nat} {t : Target} (h : Names us t) (hus : Stands ts i us j)
    (hends : Ends rank ts[j]?) : (target ts i).result = some (t, j) := by
  cases h with
  | name s x =>
    obtain ⟨hname, rfl⟩ := hus
    rw [target, result_orElse, result_index_of_ends _ hname hends, result_map, result_identifier hname]
    rfl
  | index s view b t h =>
    obtain ⟨hview, hopen, hrest⟩ := hus
    obtain ⟨k, hus, hclose, rfl⟩ := Stands.append_iff.mp hrest
    have hexpr := (follows_of_writes h).expression ts (i + 2) k (List.getElem?_eq_some_iff.mp hopen).1 hus
      (ends_of_sign hclose nofun rfl 0)
    rw [target, result_orElse, result_index _ hview hopen hexpr hclose, Option.some_or]

theorem accepts_assignment : Accepts assignment fun ts x => Assigns ts x.1 x.2 where
  recognizes := recognizes_assignment
  positive := by
    rintro _ ⟨t, e⟩ ⟨us, s, vs, rfl, -⟩
    simp
  parse_eq_ok := by
    rintro _ ⟨t, e⟩ ⟨us, s, vs, rfl, hnames, hwrites⟩
    obtain ⟨k, hus, heq, hvs⟩ := Stands.append_iff.mp (stands_self (us ++ ⟨s, .sign .eq⟩ :: vs))
    have htarget := result_target hnames hus (ends_of_sign heq nofun rfl 0)
    have hexpr := (follows_of_writes hwrites).expression _ (k + 1) _ (List.getElem?_eq_some_iff.mp heq).1 hvs
      (ends_length _ 0)
    refine parse_eq_ok_iff.mpr ⟨_, ?_, Nat.le_refl _⟩
    simp [assignment, result_map, result_andThen, htarget, result_symbol heq, hexpr]

/-! ### Assignments -/

theorem parseAssignment_eq_ok_iff (ts : List Token) (target : Target) (e : Expr) :
    parseAssignment ts = .ok (target, e) ↔ Assigns ts target e :=
  parseWith_eq_ok_iff accepts_assignment "assignment" ts (target, e)

/-- The parser accepts what the grammar derives, and builds the trees of the derivations. -/
theorem parses_grammar (ts : List Token) :
    (∀ e, parseExpr ts = .ok e ↔ Writes (.chain .or) ts e) ∧
      ∀ target e, parseAssignment ts = .ok (target, e) ↔ Assigns ts target e :=
  ⟨parseExpr_eq_ok_iff ts, parseAssignment_eq_ok_iff ts⟩

end MicroDebug.Parser

import MicroDebug.Expression.Parser
import MicroDebug.Proofs.Expression.Combinators
import MicroDebug.Proofs.Expression.Grammar

/-! The parser accepts the expressions that the grammar derives and nothing else, and builds the trees of the
    derivations. One way, each parser recognizes what the grammar derives for it. The other way, no choice on the way
    loses a derivation: where a phrase ends, no operator of its own chains and no bracket follows. -/

namespace MicroDebug.Parser

open Grammar

/-! ### Tokens -/

section

variable {α : Type} {f : Token → Option α} {ts : List Token} {i : Nat}

/-- A token that something can be made of. -/
def Single (f : Token → Option α) (us : List Token) (a : α) : Prop := ∃ t, us = [t] ∧ f t = some a

theorem token_of_none (h : ts[i]? = none) : token f ts i = ⟨none, some { index := i, found := none }⟩ := by
  unfold token tryMap any
  rw [h]

theorem token_of_some {t : Token} (h : ts[i]? = some t) :
    token f ts i =
      match f t with
      | some a => ⟨some (a, i + 1), none⟩
      | none => ⟨none, some (unexpected t i)⟩ := by
  unfold token tryMap any
  rw [h]
  cases hf : f t <;> simp [hf, Failure.further]

theorem result_token (f : Token → Option α) (ts : List Token) (i : Nat) :
    (token f ts i).result = ts[i]?.bind fun t => (f t).map fun a => (a, i + 1) := by
  rcases h : ts[i]? with _ | t
  · rw [token_of_none h]
    rfl
  · rw [token_of_some h]
    cases hf : f t <;> simp [hf]

theorem recognizes_token (h : ∃ t a, f t = some a) : Recognizes (token f) (Single f) where
  inhabited := by
    obtain ⟨t, a, ha⟩ := h
    exact ⟨[t], a, t, rfl, ha⟩
  reads {ts i a j} hresult := by
    rw [result_token, Option.bind_eq_some_iff] at hresult
    obtain ⟨t, ht, hf⟩ := hresult
    obtain ⟨b, hb, heq⟩ := Option.map_eq_some_iff.mp hf
    cases heq
    exact ⟨[t], ⟨ht, rfl⟩, t, rfl, hb⟩
  fails {ts i} hresult := by
    rcases ht : ts[i]? with _ | t
    · rw [token_of_none ht]
      rfl
    · rw [token_of_some ht] at hresult ⊢
      cases hf : f t <;> simp [hf] at hresult ⊢
  viable {ts i g} hg := by
    obtain ⟨t, a, ha⟩ := h
    have hviable : g.found = ts[i]? → g.index = i → Viable (Single f) ts i g := fun hfound hindex =>
      ⟨hindex ▸ hfound, [], [t], a, hindex.symm, t, rfl, ha⟩
    rcases ht : ts[i]? with _ | u
    · rw [token_of_none ht] at hg
      cases hg
      exact hviable ht.symm rfl
    · rw [token_of_some ht] at hg
      cases hf : f u <;> simp [hf] at hg
      cases hg
      exact hviable ht.symm rfl
  looks {ts us i n} heq _ hn := by
    have hi : i < n := by
      rcases ht : ts[i]? with _ | t
      · rw [token_of_none ht] at hn
        exact hn.furthest _ rfl
      · rw [token_of_some ht] at hn
        cases hf : f t <;> simp only [hf] at hn
        · exact hn.furthest _ rfl
        · exact Nat.lt_of_succ_lt (hn.result _ _ rfl)
    unfold token tryMap any
    rw [heq i hi]

end

theorem recognizes_symbol (sign : Sign) : Recognizes (symbol sign) fun us t => us = [t] ∧ t.lexeme = .sign sign := by
  refine (recognizes_token ?_).mono ?_
  · exact ⟨⟨.ofLength 0 0, .sign sign⟩, _, if_pos rfl⟩
  · rintro _ t ⟨u, rfl, hu⟩
    rcases Option.ite_none_right_eq_some.mp hu with ⟨hsign, heq⟩
    cases heq
    exact ⟨rfl, hsign⟩

theorem positive_symbol (sign : Sign) : Positive fun us t => us = [t] ∧ t.lexeme = .sign sign := by
  rintro _ t ⟨rfl, -⟩
  exact List.cons_ne_nil _ _

theorem recognizes_identifier : Recognizes identifier fun us x => us = [⟨x.1, .name x.2⟩] := by
  refine (recognizes_token ?_).mono ?_
  · exact ⟨⟨.ofLength 0 0, .name ""⟩, _, rfl⟩
  · rintro _ x ⟨⟨s, lexeme⟩, rfl, hx⟩
    cases lexeme <;> cases hx
    rfl

theorem positive_identifier : Positive fun us (x : Span × String) => us = [⟨x.1, .name x.2⟩] := by
  rintro _ x rfl
  exact List.cons_ne_nil _ _

theorem recognizes_integer : Recognizes integer (Writes .atom) := by
  refine (recognizes_token ?_).mono ?_
  · exact ⟨⟨.ofLength 0 0, .number 0⟩, _, rfl⟩
  · rintro _ e ⟨⟨s, lexeme⟩, rfl, he⟩
    cases lexeme <;> cases he
    exact .number s _

/-! ### Operators -/

theorem binaryOperator?_of_operator? {level : Level} {sign : Sign} {op : BinaryOperator}
    (h : level.operator? sign = some op) : binaryOperator? sign = some op := by
  cases level <;> cases sign <;> cases h <;> rfl

theorem operator?_of_rank {level : Level} {sign : Sign} {op : BinaryOperator} (h : binaryOperator? sign = some op)
    (hrank : op.rank = level.rank) : level.operator? sign = some op := by
  cases sign <;> cases h <;> cases level <;> first | rfl | cases hrank

/-- A sign before an operand. -/
def Prefixes (us : List Token) (x : Span × UnaryOperator) : Prop :=
  ∃ sign, us = [⟨x.1, .sign sign⟩] ∧ unaryOperator? sign = some x.2

theorem positive_prefixes : Positive Prefixes := by
  rintro _ _ ⟨sign, rfl, -⟩
  exact List.cons_ne_nil _ _

theorem recognizes_unary : Recognizes unary Prefixes := by
  refine (recognizes_token ?_).mono ?_
  · exact ⟨⟨.ofLength 0 0, .sign .minus⟩, _, rfl⟩
  · rintro _ x ⟨⟨s, lexeme⟩, rfl, hx⟩
    cases lexeme with
    | sign sign =>
      obtain ⟨op, hop, rfl⟩ := Option.map_eq_some_iff.mp hx
      exact ⟨sign, rfl, hop⟩
    | _ => cases hx

/-- A sign between the operands of a chain. -/
def Joins (level : Level) (us : List Token) (x : Span × BinaryOperator) : Prop :=
  ∃ sign, us = [⟨x.1, .sign sign⟩] ∧ level.operator? sign = some x.2

theorem positive_joins (level : Level) : Positive (Joins level) := by
  rintro _ _ ⟨sign, rfl, -⟩
  exact List.cons_ne_nil _ _

theorem recognizes_binary (level : Level) : Recognizes (binary level.rank) (Joins level) := by
  obtain ⟨sign, op, hsign⟩ : ∃ sign op, level.operator? sign = some op := by
    cases level
    case or => exact ⟨.pipePipe, _, rfl⟩
    case and => exact ⟨.ampAmp, _, rfl⟩
    case comparison => exact ⟨.eqEq, _, rfl⟩
    case sum => exact ⟨.plus, _, rfl⟩
  refine (recognizes_token ⟨⟨.ofLength 0 0, .sign sign⟩, (.ofLength 0 0, op), ?_⟩).mono ?_
  · simp [binaryOperator?_of_operator? hsign, Level.rank_of_operator? hsign]
  · rintro _ x ⟨⟨s, lexeme⟩, rfl, hx⟩
    cases lexeme with
    | sign sign =>
      obtain ⟨op, hop, rfl⟩ := Option.map_eq_some_iff.mp hx
      obtain ⟨hop, hrank⟩ := Option.filter_eq_some_iff.mp hop
      exact ⟨sign, rfl, operator?_of_rank hop (of_decide_eq_true hrank)⟩
    | _ => cases hx

/-! ### What the parsers recognize -/

section

variable {expr operand : Parser Expr}

theorem positive_both {α β : Type} {L : List Token → α → Prop} {M : List Token → β → Prop} (h : Positive L) :
    Positive (Both L M) := by
  rintro _ ⟨a, b⟩ ⟨us, vs, rfl, ha, -⟩
  exact List.append_ne_nil_of_left_ne_nil (h us a ha) vs

theorem recognizes_group (h : Recognizes expr (Writes (.chain .or))) : Recognizes (group expr) (Writes .atom) := by
  refine ((recognizes_symbol _).andThen (h.andThen (recognizes_symbol _))).map ?_
  rintro _ ⟨⟨s, _⟩, e, ⟨t, _⟩⟩ ⟨_, _, rfl, ⟨rfl, rfl⟩, us, _, rfl, he, rfl, rfl⟩
  exact .group s t he

theorem recognizes_index {α : Type} {make : Span → String → Span → Expr → α} {L : List Token → α → Prop}
    (h : Recognizes expr (Writes (.chain .or)))
    (hmake : ∀ s view b t us a, Writes (.chain .or) us a →
      L (⟨s, .name view⟩ :: ⟨b, .sign .bracketOpen⟩ :: (us ++ [⟨t, .sign .bracketClose⟩])) (make (s.merge t) view s a)) :
    Recognizes (index make expr) L := by
  refine (recognizes_identifier.andThen ((recognizes_symbol _).andThen (h.andThen (recognizes_symbol _)))).map ?_
  rintro _ ⟨⟨s, view⟩, ⟨b, _⟩, a, ⟨t, _⟩⟩ ⟨_, _, rfl, rfl, _, _, rfl, ⟨rfl, rfl⟩, us, _, rfl, ha, rfl, rfl⟩
  exact hmake s view b t us a ha

theorem recognizes_atom (h : Recognizes expr (Writes (.chain .or))) : Recognizes (atom expr) (Writes .atom) := by
  refine (recognizes_group h).orElse ((recognizes_index h ?_).orElse (Recognizes.orElse ?_ recognizes_integer))
  · exact fun s view b t _ _ ha => .index s view b t ha
  · refine recognizes_identifier.map ?_
    rintro _ ⟨s, x⟩ rfl
    exact .name s x

/-- Operators before an operand nest to the right. -/
theorem writes_prefixed {ts us : List Token} {e : Expr} {ops : List (Span × UnaryOperator)}
    (hops : Series Prefixes ts ops) (he : Writes .unary us e) : Writes .unary (ts ++ us) (ops.foldr prefixed e) := by
  induction hops with
  | nil => exact he
  | @cons _ vs op ops hop _ ih =>
    obtain ⟨s, op⟩ := op
    obtain ⟨sign, rfl, hop⟩ := hop
    rw [List.append_assoc, List.singleton_append, List.foldr_cons]
    cases sign <;> cases hop
    · exact ih.not s
    · exact ih.negate s

theorem recognizes_operation (h : Recognizes operand (Writes .atom)) :
    Recognizes (operation operand) (Writes .unary) := by
  refine ((recognizes_repeated recognizes_unary positive_prefixes).andThen h).map ?_
  rintro _ ⟨ops, e⟩ ⟨ts, us, rfl, hops, he⟩
  exact writes_prefixed hops (.atom he)

/-- An operator of a chain and the operand after it. -/
abbrev Links (level : Level) : List Token → (Span × BinaryOperator) × Expr → Prop :=
  Both (Joins level) (Writes level.operand)

theorem recognizes_link {level : Level} (h : Recognizes operand (Writes level.operand)) :
    Recognizes (link operand level.rank) (Links level) :=
  (recognizes_binary level).andThen h

theorem positive_links (level : Level) : Positive (Links level) := positive_both (positive_joins level)

/-- Operands with operators between them nest to the left. -/
theorem writes_linked {level : Level} {ts : List Token} {left : Expr} {links : List ((Span × BinaryOperator) × Expr)}
    (h : Series (Links level) ts links) : Writes (.links level left) ts (links.foldl linked left) := by
  induction h generalizing left with
  | nil => exact .done level left
  | cons h _ ih =>
    obtain ⟨_, us, rfl, ⟨sign, rfl, hop⟩, hright⟩ := h
    rw [List.append_assoc, List.singleton_append]
    exact .link _ hop hright ih

theorem recognizes_chain (level : Level) (h : Recognizes operand (Writes level.operand)) :
    Recognizes (chain operand level.rank) (Writes (.chain level)) := by
  refine (h.andThen (recognizes_repeated (recognizes_link h) (positive_links level))).map ?_
  rintro _ ⟨first, links⟩ ⟨ts, us, rfl, hfirst, hlinks⟩
  exact hfirst.chain (writes_linked hlinks)

theorem recognizes_expressionOver (h : Recognizes expr (Writes (.chain .or))) :
    Recognizes (expressionOver expr) (Writes (.chain .or)) :=
  recognizes_chain .or (recognizes_chain .and (recognizes_chain .comparison (recognizes_chain .sum
    (recognizes_operation (recognizes_atom h)))))

/-! ### How deep expressions go -/

variable {ts : List Token} {n : Nat} {expr' operand' : Parser Expr}

/-- What is within parentheses or brackets comes after a token. -/
theorem agree_atom (hexpr : Recognizes expr (Writes (.chain .or))) (h : Agree ts (n + 1) expr expr') :
    Agree ts n (atom expr) (atom expr') := by
  have hclose (sign : Sign) : Agree ts (n + 1) (expr.andThen (symbol sign)) (expr'.andThen (symbol sign)) :=
    h.andThen hexpr agree_refl
  have hgroup : Agree ts n (group expr) (group expr') :=
    ((hclose _).after (recognizes_symbol _) (positive_symbol _)).map _
  have hindex : Agree ts n (index Expr.index expr) (index Expr.index expr') :=
    ((agree_refl.andThen (recognizes_symbol _) (hclose _)).after recognizes_identifier positive_identifier).map _
  exact hgroup.orElse (hindex.orElse agree_refl)

theorem agree_operation (h : Agree ts n operand operand') : Agree ts n (operation operand) (operation operand') :=
  (agree_refl.andThen (recognizes_repeated recognizes_unary positive_prefixes) h).map _

theorem agree_chain (level : Level) (hoperand : Recognizes operand (Writes level.operand))
    (h : Agree ts n operand operand') : Agree ts n (chain operand level.rank) (chain operand' level.rank) := by
  have hlink : Agree ts n (link operand level.rank) (link operand' level.rank) :=
    agree_refl.andThen (recognizes_binary level) h
  exact (h.andThen hoperand (hlink.repeated (recognizes_link hoperand))).map _

/-- Expressions are read within expressions, always after a token. -/
theorem recurs_expressionOver : Recurs expressionOver (Writes (.chain .or)) where
  inhabited := ⟨_, _, (Writes.atom (.number (.ofLength 0 0) 0)).of_unary⟩
  recognizes := recognizes_expressionOver
  guarded hp _ h := by
    have hoperation := recognizes_operation (recognizes_atom hp)
    have hsum := recognizes_chain .sum hoperation
    have hcomparison := recognizes_chain .comparison hsum
    have hand := recognizes_chain .and hcomparison
    exact agree_chain .or hand (agree_chain .and hcomparison (agree_chain .comparison hsum (agree_chain .sum hoperation
      (agree_operation (agree_atom hp h)))))

theorem recognizes_expression : Recognizes expression (Writes (.chain .or)) :=
  recurs_expressionOver.recognizes_recursive

end

/-! ### Derivations that are followed -/

/-- What follows a phrase does not go on with it: no bracket, and no operator of a rank or a higher one. -/
def Ends (rank : Nat) (next : Option Token) : Prop :=
  ∀ t, next = some t → t.lexeme ≠ .sign .bracketOpen ∧
    ∀ sign op, t.lexeme = .sign sign → binaryOperator? sign = some op → op.rank < rank

theorem Ends.of_le {low high : Nat} {next : Option Token} (h : Ends low next) (hle : low ≤ high) : Ends high next :=
  fun t ht => ⟨(h t ht).1, fun sign op hsign hop => Nat.lt_of_lt_of_le ((h t ht).2 sign op hsign hop) hle⟩

/-- The parser reads the tree off the tokens wherever they stand, if what follows them does not go on. -/
def Takes (p : Parser Expr) (rank : Nat) (us : List Token) (e : Expr) : Prop :=
  ∀ ts i j, i ≤ ts.length → Stands ts i us j → Ends rank ts[j]? → (p ts i).result = some (e, j)

/-- What the operands of a chain are read by. -/
def operandOf : Level → Parser Expr
  | .or => chain (chain (chain (operation (atom expression)) 3) 2) 1
  | .and => chain (chain (operation (atom expression)) 3) 2
  | .comparison => chain (operation (atom expression)) 3
  | .sum => operation (atom expression)

/-- The parser of a phrase takes the tokens of a derivation and builds its tree. -/
def Follows : Phrase → List Token → Expr → Prop
  | .atom, us, e => Takes (atom expression) 4 us e
  | .unary, us, e => Takes (operation (atom expression)) 4 us e
  | .chain level, us, e => Takes (chain (operandOf level) level.rank) level.rank us e
  | .links level left, us, e => ∀ ts i j, i ≤ ts.length → Stands ts i us j → Ends level.rank ts[j]? →
      ∃ links, ((link (operandOf level) level.rank).repeated ts i).result = some (links, j) ∧
        links.foldl linked left = e

theorem Follows.operand {level : Level} {us : List Token} {e : Expr} (h : Follows level.operand us e) :
    Takes (operandOf level) (level.rank + 1) us e := by
  cases level <;> exact h

theorem Follows.expression {us : List Token} {e : Expr} (h : Follows (.chain .or) us e) : Takes expression 0 us e :=
  fun ts i j hi hus hends => by
    rw [Parser.expression, recurs_expressionOver.recursive_eq hi]
    exact h ts i j hi hus hends

/-! ### Atoms -/

section

variable {ts : List Token} {i j k : Nat} {s t b : Span} {x : String} {e : Expr} {sign : Sign} {expr : Parser Expr}

theorem result_symbol (h : ts[i]? = some ⟨s, .sign sign⟩) :
    (symbol sign ts i).result = some (⟨s, .sign sign⟩, i + 1) := by
  simp [symbol, result_token, h]

theorem result_symbol_of_ne (h : ∀ t, ts[i]? = some t → t.lexeme ≠ .sign sign) : (symbol sign ts i).result = none := by
  rw [symbol, result_token, Option.bind_eq_none_iff]
  intro t ht
  rw [if_neg (h t ht), Option.map_none]

theorem result_identifier (h : ts[i]? = some ⟨s, .name x⟩) : (identifier ts i).result = some ((s, x), i + 1) := by
  simp [identifier, result_token, h]

theorem result_group (hopen : ts[i]? = some ⟨s, .sign .parenOpen⟩) (h : (expr ts (i + 1)).result = some (e, k))
    (hclose : ts[k]? = some ⟨t, .sign .parenClose⟩) :
    (group expr ts i).result = some (e.withSpan (s.merge t), k + 1) := by
  simp [group, result_map, result_andThen, result_symbol hopen, h, result_symbol hclose]

theorem result_group_of_name (h : ts[i]? = some ⟨s, .name x⟩) : (group expr ts i).result = none := by
  have hopen : (symbol .parenOpen ts i).result = none := by simp [symbol, result_token, h]
  simp [group, result_map, result_andThen, hopen]

theorem result_index {α : Type} (make : Span → String → Span → Expr → α) (hview : ts[i]? = some ⟨s, .name x⟩)
    (hopen : ts[i + 1]? = some ⟨b, .sign .bracketOpen⟩) (h : (expr ts (i + 2)).result = some (e, k))
    (hclose : ts[k]? = some ⟨t, .sign .bracketClose⟩) :
    (index make expr ts i).result = some (make (s.merge t) x s e, k + 1) := by
  simp [index, result_map, result_andThen, result_identifier hview, result_symbol hopen, h, result_symbol hclose]

/-- A name that no bracket follows is no view of memory. -/
theorem result_index_of_ends {α : Type} (make : Span → String → Span → Expr → α) {rank : Nat}
    (hname : ts[i]? = some ⟨s, .name x⟩) (hends : Ends rank ts[i + 1]?) : (index make expr ts i).result = none := by
  have hopen := result_symbol_of_ne fun t ht => (hends t ht).1
  simp [index, result_map, result_andThen, result_identifier hname, hopen]

theorem ends_of_sign (hclose : ts[k]? = some ⟨t, .sign sign⟩) (hsign : sign ≠ .bracketOpen)
    (hop : binaryOperator? sign = none) (rank : Nat) : Ends rank ts[k]? := by
  rintro u hu
  cases hclose.symm.trans hu
  refine ⟨fun heq => hsign (Lexeme.sign.inj heq), fun sign' op heq hop' => ?_⟩
  cases heq
  cases hop.symm.trans hop'

end

theorem follows_number (s : Span) (n : Nat) : Follows .atom [⟨s, .number n⟩] (.number s n) := by
  rintro ts i j - ⟨hnumber, rfl⟩ -
  simp [atom, group, index, symbol, identifier, integer, result_orElse, result_map, result_andThen, result_token,
    hnumber]

theorem follows_name (s : Span) (x : String) : Follows .atom [⟨s, .name x⟩] (.name s x) := by
  rintro ts i j - ⟨hname, rfl⟩ hends
  simp [atom, result_orElse, result_group_of_name hname, result_index_of_ends _ hname hends, result_map,
    result_identifier hname]

theorem follows_group {us : List Token} {e : Expr} (s t : Span) (h : Follows (.chain .or) us e) :
    Follows .atom (⟨s, .sign .parenOpen⟩ :: (us ++ [⟨t, .sign .parenClose⟩])) (e.withSpan (s.merge t)) := by
  rintro ts i j hi ⟨hopen, hrest⟩ -
  obtain ⟨k, hus, hclose, rfl⟩ := Stands.append_iff.mp hrest
  have hexpr := h.expression ts (i + 1) k (List.getElem?_eq_some_iff.mp hopen).1 hus (ends_of_sign hclose nofun rfl 0)
  rw [atom, result_orElse, result_group hopen hexpr hclose, Option.some_or]

theorem follows_index {us : List Token} {a : Expr} (s : Span) (view : String) (b t : Span)
    (h : Follows (.chain .or) us a) :
    Follows .atom (⟨s, .name view⟩ :: ⟨b, .sign .bracketOpen⟩ :: (us ++ [⟨t, .sign .bracketClose⟩]))
      (.index (s.merge t) view s a) := by
  rintro ts i j hi ⟨hview, hopen, hrest⟩ -
  obtain ⟨k, hus, hclose, rfl⟩ := Stands.append_iff.mp hrest
  have hexpr := h.expression ts (i + 2) k (List.getElem?_eq_some_iff.mp hopen).1 hus (ends_of_sign hclose nofun rfl 0)
  rw [atom, result_orElse, result_orElse, result_group_of_name hview, result_index _ hview hopen hexpr hclose,
    Option.none_or, Option.some_or]

/-! ### Operators before an operand -/

theorem result_unary {ts : List Token} {i : Nat} {s : Span} {sign : Sign} {op : UnaryOperator}
    (h : ts[i]? = some ⟨s, .sign sign⟩) (hop : unaryOperator? sign = some op) :
    (unary ts i).result = some ((s, op), i + 1) := by
  simp [unary, result_token, h, hop]

/-- No atom starts with an operator. -/
theorem result_unary_of_atom {ts us : List Token} {i j : Nat} {e : Expr} (h : Writes .atom us e)
    (hus : Stands ts i us j) : (unary ts i).result = none := by
  cases h with
  | _ => simp [unary, result_token, hus.1, unaryOperator?]

theorem follows_atom {us : List Token} {e : Expr} (hwrites : Writes .atom us e) (h : Follows .atom us e) :
    Follows .unary us e := fun ts i j hi hus hends => by
  have hnone := result_unary_of_atom hwrites hus
  exact (result_foldr_nil recognizes_unary positive_prefixes hi prefixed hnone).trans (h ts i j hi hus hends)

theorem follows_prefixed {us : List Token} {e : Expr} (s : Span) {sign : Sign} {op : UnaryOperator}
    (hop : unaryOperator? sign = some op) (h : Follows .unary us e) :
    Follows .unary (⟨s, .sign sign⟩ :: us) (.unary (s.merge e.span) op s e) := by
  rintro ts i j hi ⟨hsign, hus⟩ hends
  have hrest := h ts (i + 1) j (List.getElem?_eq_some_iff.mp hsign).1 hus hends
  exact result_foldr_cons recognizes_unary positive_prefixes hi prefixed (result_unary hsign hop) hrest

/-! ### Chains -/

theorem recognizes_operandOf (level : Level) : Recognizes (operandOf level) (Writes level.operand) := by
  have hsum : Recognizes (operandOf .sum) (Writes .unary) :=
    recognizes_operation (recognizes_atom recognizes_expression)
  cases level with
  | or => exact recognizes_chain .and (recognizes_chain .comparison (recognizes_chain .sum hsum))
  | and => exact recognizes_chain .comparison (recognizes_chain .sum hsum)
  | comparison => exact recognizes_chain .sum hsum
  | sum => exact hsum

section

variable {level : Level} {ts us vs : List Token} {i j : Nat} {left right first e : Expr} {s : Span} {sign : Sign}
  {op : BinaryOperator}

theorem result_binary (h : ts[i]? = some ⟨s, .sign sign⟩) (hop : level.operator? sign = some op) :
    (binary level.rank ts i).result = some ((s, op), i + 1) := by
  simp [binary, result_token, h, binaryOperator?_of_operator? hop, Level.rank_of_operator? hop]

theorem result_link_of_ends (operand : Parser Expr) (hends : Ends level.rank ts[i]?) :
    (link operand level.rank ts i).result = none := by
  have hnone : (binary level.rank ts i).result = none := by
    rw [binary, result_token, Option.bind_eq_none_iff]
    rintro ⟨s, lexeme⟩ ht
    cases lexeme with
    | sign sign =>
      have hfilter : (binaryOperator? sign).filter (fun op => op.rank = level.rank) = none :=
        Option.filter_eq_none_iff.mpr fun op hop hrank =>
          absurd (of_decide_eq_true hrank) (Nat.ne_of_lt ((hends _ ht).2 sign op rfl hop))
      simp [hfilter]
    | _ => rfl
  rw [link, andThen_of_none hnone]

/-- The operand before an operator ends there. -/
theorem ends_of_links (h : Writes (.links level left) us e) (hus : Stands ts i us j) (hends : Ends level.rank ts[j]?) :
    Ends (level.rank + 1) ts[i]? := by
  cases h with
  | done =>
    cases (hus : i = j)
    exact hends.of_le (Nat.le_succ _)
  | @link _ _ right _ us vs sign op s hop hright h =>
    have hbinary := binaryOperator?_of_operator? hop
    intro t ht
    cases hus.1.symm.trans ht
    refine ⟨?_, fun sign' op' hsign hop' => ?_⟩
    · rintro ⟨⟩
      cases hbinary
    · cases hsign
      cases hbinary.symm.trans hop'
      exact Nat.lt_succ_of_le (Nat.le_of_eq (Level.rank_of_operator? hop))

theorem follows_chain (hlinks : Writes (.links level first) vs e) (ihfirst : Follows level.operand us first)
    (ih : Follows (.links level first) vs e) : Follows (.chain level) (us ++ vs) e := by
  intro ts i j hi hall hends
  obtain ⟨k, hus, hvs⟩ := Stands.append_iff.mp hall
  have hfirst := ihfirst.operand ts i k hi hus (ends_of_links hlinks hvs hends)
  obtain ⟨links, hrest, rfl⟩ := ih ts k j (hus.le_length hi) hvs hends
  rw [chain, foldl, result_map, result_andThen, hfirst, Option.bind_some, hrest]
  rfl

theorem follows_done (level : Level) (left : Expr) : Follows (.links level left) [] left := by
  rintro ts i j hi rfl hends
  have hlink := recognizes_link (recognizes_operandOf level)
  exact ⟨[], result_repeated_nil hlink (positive_links level) hi (result_link_of_ends _ hends), rfl⟩

theorem follows_link (hop : level.operator? sign = some op)
    (h : Writes (.links level (.binary (left.span.merge right.span) op s left right)) vs e)
    (ihright : Follows level.operand us right)
    (ih : Follows (.links level (.binary (left.span.merge right.span) op s left right)) vs e) :
    Follows (.links level left) (⟨s, .sign sign⟩ :: (us ++ vs)) e := by
  rintro ts i j hi ⟨hsign, hall⟩ hends
  obtain ⟨k, hus, hvs⟩ := Stands.append_iff.mp hall
  have hi' : i + 1 ≤ ts.length := (List.getElem?_eq_some_iff.mp hsign).1
  have hright := ihright.operand ts (i + 1) k hi' hus (ends_of_links h hvs hends)
  obtain ⟨links, hrest, rfl⟩ := ih ts k j (hus.le_length hi') hvs hends
  have hfirst : (link (operandOf level) level.rank ts i).result = some (((s, op), right), k) := by
    rw [link, result_andThen, result_binary hsign hop, Option.bind_some, hright]
    rfl
  have hlink := recognizes_link (recognizes_operandOf level)
  exact ⟨_, result_repeated_cons hlink (positive_links level) hi hfirst hrest, rfl⟩

end

/-- Every derivation is followed. -/
theorem follows_of_writes {phrase : Phrase} {us : List Token} {e : Expr} (h : Writes phrase us e) :
    Follows phrase us e := by
  induction h with
  | number s n => exact follows_number s n
  | name s x => exact follows_name s x
  | group s t h ih => exact follows_group s t ih
  | index s view b t h ih => exact follows_index s view b t ih
  | atom h ih => exact follows_atom h ih
  | negate s h ih => exact follows_prefixed s rfl ih
  | not s h ih => exact follows_prefixed s rfl ih
  | chain hfirst h ihfirst ih => exact follows_chain h ihfirst ih
  | done level left => exact follows_done level left
  | link s hop hright h ihright ih => exact follows_link hop h ihright ih

/-! ### Expressions -/

theorem parseWith_eq_ok_iff {α : Type} {p : Parser α} {L : List Token → α → Prop} (h : Accepts p L) (what : String)
    (ts : List Token) (a : α) : parseWith what p ts = .ok a ↔ L ts a := by
  unfold parseWith
  rcases hlast : ts.getLast? with _ | last
  · refine ⟨nofun, fun ha => ?_⟩
    exact absurd (List.getLast?_eq_none_iff.mp hlast) (h.positive ts a ha)
  · constructor
    · intro hparse
      rcases hfs : p.parse ts with fs | b <;> rw [hfs] at hparse <;> cases hparse
      exact h.recognizes.of_parse hfs
    · intro ha
      rw [h.parse_eq_ok ha]
      rfl

theorem ends_length (ts : List Token) (rank : Nat) : Ends rank ts[ts.length]? := by
  rw [List.getElem?_eq_none (Nat.le_refl _)]
  nofun

theorem accepts_expression : Accepts expression (Writes (.chain .or)) where
  recognizes := recognizes_expression
  positive _ _ h := by induction h using Writes.tree_induction <;> simp
  parse_eq_ok {ts e} h := by
    refine parse_eq_ok_iff.mpr ⟨ts.length, ?_, Nat.le_refl _⟩
    exact (follows_of_writes h).expression ts 0 ts.length (Nat.zero_le _) (stands_self ts) (ends_length ts 0)

theorem parseExpr_eq_ok_iff (ts : List Token) (e : Expr) : parseExpr ts = .ok e ↔ Writes (.chain .or) ts e :=
  parseWith_eq_ok_iff accepts_expression "expression" ts e

/-- Tokens write one tree at most. -/
theorem eq_of_writes {ts : List Token} {e e' : Expr} (h : Writes (.chain .or) ts e) (h' : Writes (.chain .or) ts e') :
    e = e' := by
  rw [← parseExpr_eq_ok_iff] at h h'
  exact Except.ok.inj (h.symm.trans h')

end MicroDebug.Parser

import MicroDebug.Expression.Expr
import MicroDebug.Expression.Token

/-! The grammar of expressions and assignments. A derivation reads tokens as a phrase and builds the tree that they
    write: chains of operators lean to the left, operators before an operand nest to the right and take no more than
    the atom they stand before, and parentheses leave nothing but a wider span. -/

namespace MicroDebug.Grammar

/-! ### Levels -/

/-- The chains of operators, the loosest first. -/
inductive Level where
  | or
  | and
  | comparison
  | sum
deriving DecidableEq, Repr

/-- What tokens can be read as. -/
inductive Phrase where
  | atom
  | unary
  | chain (level : Level)
  /-- What goes on with a chain after the operand `left`. -/
  | links (level : Level) (left : Expr)
deriving DecidableEq, Repr

namespace Level

/-- The operator of a chain that a sign stands for. -/
def operator? : Level → Sign → Option BinaryOperator
  | or, .pipePipe => some .or
  | and, .ampAmp => some .and
  | comparison, .eqEq => some .equal
  | comparison, .bangEq => some .notEqual
  | comparison, .lt => some .less
  | comparison, .ltEq => some .lessEqual
  | comparison, .gt => some .greater
  | comparison, .gtEq => some .greaterEqual
  | sum, .plus => some .plus
  | sum, .minus => some .minus
  | sum, .amp => some .bitAnd
  | sum, .pipe => some .bitOr
  | _, _ => none

/-- What the operators of a chain stand between. -/
def operand : Level → Phrase
  | or => .chain and
  | and => .chain comparison
  | comparison => .chain sum
  | sum => .unary

/-- How tightly the operators of a chain bind. -/
def rank : Level → Nat
  | or => 0
  | and => 1
  | comparison => 2
  | sum => 3

theorem rank_of_operator? {level : Level} {sign : Sign} {op : BinaryOperator}
    (h : level.operator? sign = some op) : op.rank = level.rank := by
  cases level <;> cases sign <;> cases h <;> rfl

end Level

/-! ### Derivations -/

/-- The tokens read as a phrase write the tree. -/
inductive Writes : Phrase → List Token → Expr → Prop
  | number (s : Span) (n : Nat) : Writes .atom [⟨s, .number n⟩] (.number s n)
  | name (s : Span) (x : String) : Writes .atom [⟨s, .name x⟩] (.name s x)
  | group {ts : List Token} {e : Expr} (s t : Span) (h : Writes (.chain .or) ts e) :
      Writes .atom (⟨s, .sign .parenOpen⟩ :: (ts ++ [⟨t, .sign .parenClose⟩])) (e.withSpan (s.merge t))
  | index {ts : List Token} {a : Expr} (s : Span) (view : String) (b t : Span) (h : Writes (.chain .or) ts a) :
      Writes .atom (⟨s, .name view⟩ :: ⟨b, .sign .bracketOpen⟩ :: (ts ++ [⟨t, .sign .bracketClose⟩]))
        (.index (s.merge t) view s a)
  | atom {ts : List Token} {e : Expr} (h : Writes .atom ts e) : Writes .unary ts e
  | negate {ts : List Token} {e : Expr} (s : Span) (h : Writes .unary ts e) :
      Writes .unary (⟨s, .sign .minus⟩ :: ts) (.unary (s.merge e.span) .negate s e)
  | not {ts : List Token} {e : Expr} (s : Span) (h : Writes .unary ts e) :
      Writes .unary (⟨s, .sign .bang⟩ :: ts) (.unary (s.merge e.span) .not s e)
  | chain {level : Level} {ts us : List Token} {first e : Expr} (hfirst : Writes level.operand ts first)
      (h : Writes (.links level first) us e) : Writes (.chain level) (ts ++ us) e
  | done (level : Level) (left : Expr) : Writes (.links level left) [] left
  | link {level : Level} {left right e : Expr} {ts us : List Token} {sign : Sign} {op : BinaryOperator} (s : Span)
      (hop : level.operator? sign = some op) (hright : Writes level.operand ts right)
      (h : Writes (.links level (.binary (left.span.merge right.span) op s left right)) us e) :
      Writes (.links level left) (⟨s, .sign sign⟩ :: (ts ++ us)) e

/-- The tokens name what an assignment assigns to. -/
inductive Names : List Token → Target → Prop
  | name (s : Span) (x : String) : Names [⟨s, .name x⟩] (.name s x)
  | index {ts : List Token} {a : Expr} (s : Span) (view : String) (b t : Span) (h : Writes (.chain .or) ts a) :
      Names (⟨s, .name view⟩ :: ⟨b, .sign .bracketOpen⟩ :: (ts ++ [⟨t, .sign .bracketClose⟩]))
        (.index (s.merge t) view s a)

/-- The tokens write an assignment. -/
def Assigns (ts : List Token) (target : Target) (e : Expr) : Prop :=
  ∃ us s vs, ts = us ++ ⟨s, .sign .eq⟩ :: vs ∧ Names us target ∧ Writes (.chain .or) vs e

/-! ### Tiers -/

/-- The phrase in which operators bind at least so tightly. -/
def tier : Nat → Phrase
  | 0 => .chain .or
  | 1 => .chain .and
  | 2 => .chain .comparison
  | 3 => .chain .sum
  | _ => .unary

theorem chain_eq_tier (level : Level) : Phrase.chain level = tier level.rank := by
  cases level <;> rfl

namespace Writes

variable {ts us : List Token} {e f : Expr} {level : Level}

/-- An operand alone is a chain. -/
theorem single (h : Writes level.operand ts e) : Writes (.chain level) ts e := by
  have hchain := h.chain (.done level e)
  rwa [List.append_nil] at hchain

theorem of_succ {rank : Nat} (h : Writes (tier (rank + 1)) ts e) : Writes (tier rank) ts e := by
  match rank with
  | 0 => exact (show Writes Level.or.operand ts e from h).single
  | 1 => exact (show Writes Level.and.operand ts e from h).single
  | 2 => exact (show Writes Level.comparison.operand ts e from h).single
  | 3 => exact (show Writes Level.sum.operand ts e from h).single
  | _ + 4 => exact h

theorem of_le {low high : Nat} (hle : low ≤ high) (h : Writes (tier high) ts e) : Writes (tier low) ts e := by
  induction hle with
  | refl => exact h
  | step _ ih => exact ih h.of_succ

/-- Links go on with one more operator and operand. -/
theorem links_snoc {left right : Expr} {sign : Sign} {op : BinaryOperator}
    (h : Writes (.links level left) ts e) (s : Span) (hop : level.operator? sign = some op)
    (hright : Writes level.operand us right) :
    Writes (.links level left) (ts ++ ⟨s, .sign sign⟩ :: us)
      (.binary (e.span.merge right.span) op s e right) := by
  generalize hphrase : Phrase.links level left = phrase at h
  induction h generalizing left with
  | done level left =>
    cases hphrase
    simpa using Writes.link s hop hright (.done _ _)
  | link s' hop' hright' hrest _ ih =>
    cases hphrase
    simpa using Writes.link s' hop' hright' (ih rfl)
  | _ => cases hphrase

/-- A chain goes on with one more operator and operand. -/
theorem snoc {right : Expr} {sign : Sign} {op : BinaryOperator} (h : Writes (.chain level) ts e) (s : Span)
    (hop : level.operator? sign = some op) (hright : Writes level.operand us right) :
    Writes (.chain level) (ts ++ ⟨s, .sign sign⟩ :: us) (.binary (e.span.merge right.span) op s e right) := by
  cases h with
  | chain hfirst hlinks =>
    rw [List.append_assoc]
    exact hfirst.chain (hlinks.links_snoc s hop hright)

theorem of_unary (h : Writes .unary ts e) : Writes (.chain .or) ts e :=
  show Writes (tier 0) ts e from of_le (Nat.zero_le 4) h

theorem of_chain (h : Writes (.chain level) ts e) : Writes (.chain .or) ts e := by
  rw [chain_eq_tier] at h
  exact show Writes (tier 0) ts e from of_le (Nat.zero_le _) h

end Writes

/-! ### Trees -/

/-- What a phrase brings about if `P` passes from operands to trees; links are taken with the operand before them. -/
def Carries (P : List Token → Expr → Prop) : Phrase → List Token → Expr → Prop
  | .links level left, ts, e => ∀ us, Writes (.chain level) us left → P us left → P (us ++ ts) e
  | _, ts, e => P ts e

/-- Induction over the tree that tokens write, whatever the phrases are that its operands are read as. -/
theorem Writes.tree_induction {P : ∀ (ts : List Token) (e : Expr), Writes (.chain .or) ts e → Prop}
    (number : ∀ s n h, P [⟨s, .number n⟩] (.number s n) h)
    (name : ∀ s x h, P [⟨s, .name x⟩] (.name s x) h)
    (group : ∀ ts e s t h hroot, P ts e h →
      P (⟨s, .sign .parenOpen⟩ :: (ts ++ [⟨t, .sign .parenClose⟩])) (e.withSpan (s.merge t)) hroot)
    (index : ∀ ts a s view b t h hroot, P ts a h →
      P (⟨s, .name view⟩ :: ⟨b, .sign .bracketOpen⟩ :: (ts ++ [⟨t, .sign .bracketClose⟩]))
        (.index (s.merge t) view s a) hroot)
    (unary : ∀ ts e s sign op h hroot, P ts e h →
      P (⟨s, .sign sign⟩ :: ts) (.unary (s.merge e.span) op s e) hroot)
    (binary : ∀ ts us left right s sign op hleft hright hroot, P ts left hleft → P us right hright →
      P (ts ++ ⟨s, .sign sign⟩ :: us) (.binary (left.span.merge right.span) op s left right) hroot)
    {ts : List Token} {e : Expr} (h : Writes (.chain .or) ts e) : P ts e h := by
  suffices hcarries : ∀ {phrase ts e}, Writes phrase ts e → Carries (fun ts e => ∀ h, P ts e h) phrase ts e from
    hcarries h h
  intro phrase ts e h
  -- on the derivation: a chain hands its first operand to its links, and each link hands on the tree so far
  induction h with
  | number s n => exact number s n
  | name s x => exact name s x
  | group s t h ih => exact fun hroot => group _ _ s t h hroot (ih h)
  | index s view b t h ih => exact fun hroot => index _ _ s view b t h hroot (ih h)
  | atom h ih => exact ih
  | negate s h ih => exact fun hroot => unary _ _ s _ _ h.of_unary hroot (ih h.of_unary)
  | not s h ih => exact fun hroot => unary _ _ s _ _ h.of_unary hroot (ih h.of_unary)
  | @chain level ts us first e hfirst h ihfirst ih =>
    refine ih ts hfirst.single ?_
    cases level <;> exact ihfirst
  | done level left =>
    intro us _ hleft
    rwa [List.append_nil]
  | @link level left right e ts us sign op s hop hright h ihright ih =>
    intro vs hwrites hleft
    have hP : P ts right hright.single.of_chain := by cases level <;> exact ihright _
    have hsnoc := hwrites.snoc s hop hright
    have hlinks := ih _ hsnoc fun hroot => binary _ _ _ _ s sign op _ _ hroot (hleft hwrites.of_chain) hP
    rwa [List.append_assoc] at hlinks

end MicroDebug.Grammar

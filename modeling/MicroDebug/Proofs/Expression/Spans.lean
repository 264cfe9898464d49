import MicroDebug.Expression.Compiler
import MicroDebug.Proofs.Expression.Lexing
import MicroDebug.Proofs.Expression.Parsing

/-! What spans of expressions are for. The tokens of a subexpression are a stretch of all tokens, and its span reaches
    from the first of them to the last. The text there has the same tokens when it stands alone, since a token that is
    as long as can be stays so where less follows it, and they write the same tree, only further left. -/

namespace MicroDebug

/-! ### Moving spans -/

namespace Span

/-- The span lies within another. -/
def Within (s t : Span) : Prop := t.start ≤ s.start ∧ s.stop ≤ t.stop

/-- The span moved left, but not beyond the start of the text. -/
def unshift (s : Span) (distance : Nat) : Span where
  start := s.start - distance
  stop := s.stop - distance
  start_le_stop := Nat.sub_le_sub_right s.start_le_stop distance

theorem merge_shift (s t : Span) (distance : Nat) :
    (s.merge t).shift distance = (s.shift distance).merge (t.shift distance) := by
  simp only [shift, merge, mk.injEq]
  omega

theorem merge_unshift (s t : Span) (distance : Nat) :
    (s.merge t).unshift distance = (s.unshift distance).merge (t.unshift distance) := by
  simp only [unshift, merge, mk.injEq]
  omega

theorem unshift_shift (s : Span) (distance : Nat) : (s.shift distance).unshift distance = s := by
  simp [shift, unshift]

theorem shift_ofLength (start length distance : Nat) :
    (ofLength start length).shift distance = ofLength (start + distance) length := by
  simp only [shift, ofLength, Nat.add_right_comm start length distance]

theorem Within.trans {s t u : Span} (h : s.Within t) (h' : t.Within u) : s.Within u :=
  ⟨Nat.le_trans h'.1 h.1, Nat.le_trans h.2 h'.2⟩

theorem within_merge_left (s t : Span) : s.Within (s.merge t) := ⟨Nat.min_le_left .., Nat.le_max_left ..⟩

theorem within_merge_right (s t : Span) : t.Within (s.merge t) := ⟨Nat.min_le_right .., Nat.le_max_right ..⟩

theorem within_merge_of_between {s t u : Span} (hs : s.stop ≤ u.start) (ht : u.stop ≤ t.start) :
    u.Within (s.merge t) :=
  ⟨Nat.le_trans (Nat.min_le_left ..) (Nat.le_trans s.start_le_stop hs),
    Nat.le_trans (Nat.le_trans ht t.start_le_stop) (Nat.le_max_right ..)⟩

end Span

/-- The same token at another place. -/
def Token.mapSpan (f : Span → Span) (t : Token) : Token := { t with span := f t.span }

namespace Expr

/-- The same expression with all its parts at other places. -/
def mapSpans (f : Span → Span) : Expr → Expr
  | number s n => number (f s) n
  | name s x => name (f s) x
  | index s v vs a => index (f s) v (f vs) (a.mapSpans f)
  | unary s op os e => unary (f s) op (f os) (e.mapSpans f)
  | binary s op os l r => binary (f s) op (f os) (l.mapSpans f) (r.mapSpans f)

/-- The same expression written further right. -/
def shift (e : Expr) (distance : Nat) : Expr := e.mapSpans (·.shift distance)

theorem span_mapSpans (f : Span → Span) (e : Expr) : (e.mapSpans f).span = f e.span := by
  cases e <;> rfl

theorem mapSpans_withSpan (f : Span → Span) (s : Span) (e : Expr) :
    (e.withSpan s).mapSpans f = (e.mapSpans f).withSpan (f s) := by
  cases e <;> rfl

theorem span_withSpan (s : Span) (e : Expr) : (e.withSpan s).span = s := by
  cases e <;> rfl

/-- Parentheses change nothing below an expression. -/
theorem mem_postorder_withSpan {s : Span} {e n : Expr} (h : n ∈ (e.withSpan s).postorder) :
    n = e.withSpan s ∨ n ∈ e.postorder := by
  cases e <;> grind [withSpan, postorder]

/-- Operands and operators lie within the expression that they are parts of, and operators beside their operands. -/
def Nested : Expr → Prop
  | number _ _ | name _ _ => True
  | index s _ viewSpan address =>
    viewSpan.Within s ∧ address.span.Within s ∧ viewSpan.stop < address.span.start
  | unary s _ opSpan operand =>
    opSpan.Within s ∧ operand.span.Within s ∧ opSpan.start < opSpan.stop ∧ opSpan.stop ≤ operand.span.start
  | binary s _ opSpan left right =>
    left.span.Within s ∧ right.span.Within s ∧ left.span.stop ≤ opSpan.start ∧ opSpan.start < opSpan.stop ∧
      opSpan.stop ≤ right.span.start

theorem Nested.withSpan {s : Span} {e : Expr} (h : Nested e) (hs : e.span.Within s) : Nested (e.withSpan s) := by
  cases e with
  | number | name => trivial
  | index =>
    obtain ⟨hview, haddress, hgap⟩ := h
    exact ⟨hview.trans hs, haddress.trans hs, hgap⟩
  | unary =>
    obtain ⟨hop, hoperand, hgap⟩ := h
    exact ⟨hop.trans hs, hoperand.trans hs, hgap⟩
  | binary =>
    obtain ⟨hleft, hright, hgaps⟩ := h
    exact ⟨hleft.trans hs, hright.trans hs, hgaps⟩

end Expr

namespace Grammar

/-! ### The same tree elsewhere -/

/-- The same phrase with all parts of what it follows at other places. -/
def Phrase.mapSpans (f : Span → Span) : Phrase → Phrase
  | links level left => links level (left.mapSpans f)
  | phrase => phrase

theorem Level.mapSpans_operand (f : Span → Span) (level : Level) : level.operand.mapSpans f = level.operand := by
  cases level <;> rfl

theorem Writes.mapSpans {phrase : Phrase} {ts : List Token} {e : Expr} (f : Span → Span)
    (hf : ∀ s t, f (s.merge t) = (f s).merge (f t)) (h : Writes phrase ts e) :
    Writes (phrase.mapSpans f) (ts.map (Token.mapSpan f)) (e.mapSpans f) := by
  induction h with
  | number s n => exact .number (f s) n
  | name s x => exact .name (f s) x
  | group s t h ih =>
    rw [Expr.mapSpans_withSpan, hf, List.map_cons, List.map_append]
    exact .group (f s) (f t) ih
  | index s view b t h ih =>
    rw [Expr.mapSpans, hf, List.map_cons, List.map_cons, List.map_append]
    exact .index (f s) view (f b) (f t) ih
  | atom h ih => exact .atom ih
  | negate s h ih =>
    rw [Expr.mapSpans, hf, ← Expr.span_mapSpans f]
    exact .negate (f s) ih
  | not s h ih =>
    rw [Expr.mapSpans, hf, ← Expr.span_mapSpans f]
    exact .not (f s) ih
  | chain hfirst h ihfirst ih =>
    rw [Level.mapSpans_operand] at ihfirst
    rw [List.map_append]
    exact .chain ihfirst ih
  | done level left => exact .done level _
  | link s hop hright h ihright ih =>
    rw [Level.mapSpans_operand] at ihright
    rw [Phrase.mapSpans, Expr.mapSpans, hf, ← Expr.span_mapSpans f, ← Expr.span_mapSpans f] at ih
    rw [List.map_cons, List.map_append]
    exact .link (f s) hop ihright ih

theorem map_unshift (ts : List Token) (distance : Nat) :
    (ts.map (Token.mapSpan (·.shift distance))).map (Token.mapSpan (·.unshift distance)) = ts := by
  rw [List.map_map]
  refine (List.map_congr_left fun t _ => ?_).trans (List.map_id ts)
  rw [Function.comp_apply, Token.mapSpan, Token.mapSpan, Span.unshift_shift]
  rfl

/-- Tokens that stand further left write the same tree further left. -/
theorem Writes.exists_of_shift {ts : List Token} {e : Expr} {distance : Nat}
    (h : Writes (.chain .or) (ts.map (Token.mapSpan (·.shift distance))) e) :
    ∃ e', Writes (.chain .or) ts e' ∧ e = e'.shift distance := by
  -- moved left and back, the tree is written by the same tokens as before, and these write one tree only
  have hleft := h.mapSpans (·.unshift distance) fun s t => Span.merge_unshift s t distance
  rw [map_unshift] at hleft
  have hright := hleft.mapSpans (·.shift distance) fun s t => Span.merge_shift s t distance
  exact ⟨_, hleft, Parser.eq_of_writes h hright⟩

/-! ### Stretches of tokens -/

/-- The span reaches from the first of the tokens to the last. -/
structure Stretches (ts : List Token) (s : Span) : Prop where
  first : ∃ t, ts.head? = some t ∧ t.span.start = s.start
  last : ∃ t, ts.getLast? = some t ∧ t.span.stop = s.stop

theorem Stretches.token (s : Span) (lexeme : Lexeme) : Stretches [⟨s, lexeme⟩] s := ⟨⟨_, rfl, rfl⟩, ⟨_, rfl, rfl⟩⟩

section

variable {ts us ws : List Token} {s t : Span}

/-- Of two stretches the first ends before the second starts. -/
theorem Stretches.stop_le (hs : Stretches ts s) (ht : Stretches us t) (h : Token.InOrder ws)
    (hsub : (ts ++ us).Sublist ws) : s.stop ≤ t.start := by
  obtain ⟨-, last, hlast, hstop⟩ := hs
  obtain ⟨⟨first, hfirst, hstart⟩, -⟩ := ht
  have hpairs := (List.pairwise_append.mp (h.ordered.sublist hsub)).2.2
  rw [← hstop, ← hstart]
  exact hpairs last (List.mem_of_getLast? hlast) first (List.mem_of_head? hfirst)

theorem Stretches.append (hs : Stretches ts s) (ht : Stretches us t) (hle : s.stop ≤ t.start) (vs : List Token) :
    Stretches (ts ++ vs ++ us) (s.merge t) := by
  obtain ⟨⟨first, hfirst, hstart⟩, -⟩ := hs
  obtain ⟨-, last, hlast, hstop⟩ := ht
  have hs := s.start_le_stop
  have ht := t.start_le_stop
  refine ⟨⟨first, by simp [hfirst], ?_⟩, ⟨last, by simp [hlast], ?_⟩⟩
  · exact hstart.trans (Nat.min_eq_left (by omega)).symm
  · exact hstop.trans (Nat.max_eq_right (by omega)).symm

end

/-- The span of an expression is that of its tokens, and its parts have their places within it. -/
theorem Writes.stretches {ts : List Token} {e : Expr} (h : Writes (.chain .or) ts e) (hts : Token.InOrder ts) :
    Stretches ts e.span ∧ e.Nested := by
  induction h using Writes.tree_induction with
  | number s n => exact ⟨.token s _, trivial⟩
  | name s x => exact ⟨.token s _, trivial⟩
  | group ts e s t _ _ ih =>
    obtain ⟨he, hnested⟩ := ih (hts.sublist (List.IsInfix.sublist ⟨[_], [_], rfl⟩))
    have hopen := (Stretches.token s (.sign .parenOpen)).stop_le he hts (by simp)
    have hclose := he.stop_le (.token t (.sign .parenClose)) hts (by simp)
    have hends : s.stop ≤ t.start := Nat.le_trans hopen (Nat.le_trans e.span.start_le_stop hclose)
    rw [Expr.span_withSpan]
    exact ⟨(Stretches.token s _).append (.token t _) hends ts,
      hnested.withSpan (Span.within_merge_of_between hopen hclose)⟩
  | index ts a s view b t _ _ ih =>
    obtain ⟨ha, -⟩ := ih (hts.sublist (List.IsInfix.sublist ⟨[_, _], [_], rfl⟩))
    have hview := (Stretches.token s (.name view)).stop_le (.token b (.sign .bracketOpen)) hts (by simp)
    have hopen := (Stretches.token b (.sign .bracketOpen)).stop_le ha hts (by simp)
    have hclose := ha.stop_le (.token t (.sign .bracketClose)) hts (by simp)
    have hbracket : b.start < b.stop := hts.nonempty ⟨b, .sign .bracketOpen⟩ (by simp)
    have haddress : s.stop < a.span.start := Nat.lt_of_le_of_lt hview (Nat.lt_of_lt_of_le hbracket hopen)
    have hends : s.stop ≤ t.start :=
      Nat.le_trans (Nat.le_of_lt haddress) (Nat.le_trans a.span.start_le_stop hclose)
    exact ⟨(Stretches.token s _).append (.token t _) hends (⟨b, .sign .bracketOpen⟩ :: ts),
      Span.within_merge_left .., Span.within_merge_of_between (Nat.le_of_lt haddress) hclose, haddress⟩
  | unary ts e s sign op _ _ ih =>
    obtain ⟨he, -⟩ := ih (hts.sublist (List.sublist_cons_self ..))
    have hoperand := (Stretches.token s (.sign sign)).stop_le he hts (by simp)
    have hop : s.start < s.stop := hts.nonempty ⟨s, .sign sign⟩ (by simp)
    exact ⟨(Stretches.token s _).append he hoperand [], Span.within_merge_left .., Span.within_merge_right .., hop,
      hoperand⟩
  | binary ts us left right s sign op _ _ _ ihl ihr =>
    obtain ⟨hl, -⟩ := ihl (hts.sublist (List.sublist_append_left ..))
    obtain ⟨hr, -⟩ := ihr (hts.sublist (by simp))
    have hleft := hl.stop_le (.token s (.sign sign)) hts (by simp)
    have hright := (Stretches.token s (.sign sign)).stop_le hr hts (by simp)
    have hop : s.start < s.stop := hts.nonempty ⟨s, .sign sign⟩ (by simp)
    have hspan := hl.append hr (Nat.le_trans hleft (Nat.le_trans s.start_le_stop hright)) [⟨s, .sign sign⟩]
    rw [List.append_assoc] at hspan
    exact ⟨hspan, Span.within_merge_left .., Span.within_merge_right .., hleft, hop, hright⟩

/-- The tokens of a subexpression are a stretch of all tokens. -/
theorem Writes.exists_stretch {ts : List Token} {e : Expr} (h : Writes (.chain .or) ts e) {n : Expr}
    (hn : n ∈ e.postorder) : ∃ us, us <:+: ts ∧ Writes (.chain .or) us n := by
  induction h using Writes.tree_induction with
  | number s k h =>
    cases List.mem_singleton.mp hn
    exact ⟨_, List.infix_refl _, h⟩
  | name s x h =>
    cases List.mem_singleton.mp hn
    exact ⟨_, List.infix_refl _, h⟩
  | group ts e s t _ hroot ih =>
    rcases Expr.mem_postorder_withSpan hn with rfl | hn
    · exact ⟨_, List.infix_refl _, hroot⟩
    · obtain ⟨us, hus, hwrites⟩ := ih hn
      exact ⟨us, hus.trans ⟨[_], [_], rfl⟩, hwrites⟩
  | index ts a s view b t _ hroot ih =>
    rcases List.mem_append.mp hn with hn | hn
    · obtain ⟨us, hus, hwrites⟩ := ih hn
      exact ⟨us, hus.trans ⟨[_, _], [_], rfl⟩, hwrites⟩
    · cases List.mem_singleton.mp hn
      exact ⟨_, List.infix_refl _, hroot⟩
  | unary ts e s sign op _ hroot ih =>
    rcases List.mem_append.mp hn with hn | hn
    · obtain ⟨us, hus, hwrites⟩ := ih hn
      exact ⟨us, hus.trans (List.suffix_cons ..).isInfix, hwrites⟩
    · cases List.mem_singleton.mp hn
      exact ⟨_, List.infix_refl _, hroot⟩
  | binary ts us left right s sign op _ _ hroot ihl ihr =>
    rcases List.mem_append.mp hn with hn | hn
    · rcases List.mem_append.mp hn with hn | hn
      · obtain ⟨vs, hvs, hwrites⟩ := ihl hn
        exact ⟨vs, hvs.trans (List.prefix_append ..).isInfix, hwrites⟩
      · obtain ⟨vs, hvs, hwrites⟩ := ihr hn
        exact ⟨vs, hvs.trans ((List.suffix_cons ..).trans (List.suffix_append ..)).isInfix, hwrites⟩
    · cases List.mem_singleton.mp hn
      exact ⟨_, List.infix_refl _, hroot⟩

end Grammar

namespace Token

open Grammar

/-! ### Lines within lines -/

theorem Longest.of_append {text rest more : List Char} (h : Longest text (rest ++ more)) : Longest text rest :=
  fun own after lexeme hrest => h own (after ++ more) lexeme (by rw [hrest, List.append_assoc])

namespace Lexes

variable {offset : Nat} {cs : List Char} {ts us : List Token}

/-- The tokens from one on are those of the line from its start. -/
theorem exists_text_from {t : Token} (h : Lexes offset cs (ts ++ t :: us)) :
    ∃ before rest, cs = before ++ rest ∧ offset + byteCount before = t.span.start ∧
      Lexes t.span.start rest (t :: us) := by
  generalize hall : ts ++ t :: us = all at h
  induction h generalizing ts with
  | nil => simp at hall
  | @space offset c cs all hc h ih =>
    obtain ⟨before, rest, rfl, hstart, hrest⟩ := ih hall
    exact ⟨c :: before, rest, rfl, by rw [← hstart, byteCount_cons, Nat.add_assoc], hrest⟩
  | @token offset text rest lexeme all htext hlongest h ih =>
    rcases ts with _ | ⟨u, ts⟩
    · cases hall
      exact ⟨[], text ++ rest, rfl, rfl, .token htext hlongest h⟩
    · cases hall
      obtain ⟨before, rest', rfl, hstart, hrest⟩ := ih rfl
      exact ⟨text ++ before, rest', by simp, by rw [← hstart, byteCount_append, Nat.add_assoc], hrest⟩

/-- The tokens up to one are those of the line up to its end. -/
theorem exists_text_upto {t : Token} (h : Lexes offset cs (ts ++ us)) (ht : ts.getLast? = some t) :
    ∃ text rest, cs = text ++ rest ∧ offset + byteCount text = t.span.stop ∧ Lexes offset text ts := by
  generalize hall : ts ++ us = all at h
  induction h generalizing ts with
  | nil => simp_all
  | @space offset c cs all hc h ih =>
    obtain ⟨text, rest, rfl, hstop, hlexes⟩ := ih ht hall
    exact ⟨c :: text, rest, rfl, by rw [← hstop, byteCount_cons, Nat.add_assoc], .space hc hlexes⟩
  | @token offset text rest lexeme all htext hlongest h ih =>
    rcases ts with _ | ⟨u, _ | ⟨v, ts⟩⟩
    · cases ht
    · cases hall
      cases ht
      -- the last token is at the end of the text now, where nothing can make it longer
      have hnil : Longest text [] := Longest.of_append (show Longest text ([] ++ rest) from hlongest)
      refine ⟨text, rest, rfl, rfl, ?_⟩
      simpa using Lexes.token htext hnil (.nil (offset + byteCount text))
    · cases hall
      rw [List.getLast?_cons_cons] at ht
      obtain ⟨text', rest', rfl, hstop, hlexes⟩ := ih ht rfl
      exact ⟨text ++ text', rest', by simp, by rw [← hstop, byteCount_append, Nat.add_assoc],
        .token htext hlongest.of_append hlexes⟩

/-- A line that starts earlier has its tokens earlier. -/
theorem exists_of_shift (offset distance : Nat) (h : Lexes (offset + distance) cs ts) :
    ∃ us, Lexes offset cs us ∧ ts = us.map (mapSpan (·.shift distance)) := by
  generalize hstart : offset + distance = start at h
  induction h generalizing offset with
  | nil => exact ⟨[], .nil offset, rfl⟩
  | @space start c cs ts hc h ih =>
    obtain ⟨us, hlexes, rfl⟩ := ih (offset + c.utf8Size) (by omega)
    exact ⟨us, .space hc hlexes, rfl⟩
  | @token start text rest lexeme ts htext hlongest h ih =>
    obtain ⟨us, hlexes, rfl⟩ := ih (offset + byteCount text) (by omega)
    refine ⟨_, .token htext hlongest hlexes, ?_⟩
    rw [List.map_cons, mapSpan, Span.shift_ofLength, hstart]

/-- The tokens of a stretch are those of its text. -/
theorem exists_text_of_stretches {source : String} {s : Span} (h : Lexes 0 source.toList ts) (hus : us <:+: ts)
    (hs : Stretches us s) : ∃ text, s.Covers source text ∧ Lexes s.start text.toList us := by
  obtain ⟨⟨first, hfirst, hstart⟩, last, hlast, hstop⟩ := hs
  obtain ⟨before, after, rfl⟩ := hus
  obtain ⟨us, rfl⟩ := List.head?_eq_some_iff.mp hfirst
  rw [List.append_assoc] at h
  obtain ⟨left, rest, hsource, hleft, hrest⟩ := h.exists_text_from
  obtain ⟨text, right, rfl, htext, hlexes⟩ := exists_text_upto hrest hlast
  rw [hstart, Nat.zero_add] at hleft
  rw [hstart] at htext hlexes
  refine ⟨String.ofList text, Span.covers_iff.mpr ⟨left, right, ?_, hleft, ?_⟩, ?_⟩
  · rw [hsource, String.toList_ofList, List.append_assoc]
  · rw [String.toList_ofList, byteCount_append, hleft, htext, hstop]
  · rwa [String.toList_ofList]

end Lexes
end Token

namespace Parser

open Grammar

/-! ### The text of a subexpression -/

/-- The text at the span of an expression, alone, is read as that expression, only further left. -/
def ReadsAlone (source : String) (e : Expr) : Prop :=
  ∃ text ts e', e.span.Covers source text ∧ Token.tokenize text = .ok ts ∧ parseExpr ts = .ok e' ∧
    e = e'.shift e.span.start

/-- Of each subexpression of a text the parts have their places within its span, and the text there writes it. -/
theorem subexpression_reads_alone {source : String} {ts : List Token} {e : Expr}
    (hts : Token.tokenize source = .ok ts) (he : parseExpr ts = .ok e) :
    ∀ n ∈ e.postorder, n.Nested ∧ ReadsAlone source n := by
  intro n hn
  have hlexes := Token.tokenize_eq_ok_iff.mp hts
  obtain ⟨us, hus, hwrites⟩ := ((parseExpr_eq_ok_iff ts e).mp he).exists_stretch hn
  obtain ⟨hstretches, hnested⟩ := hwrites.stretches (hlexes.inOrder.sublist hus.sublist)
  obtain ⟨text, hcovers, htext⟩ := hlexes.exists_text_of_stretches hus hstretches
  -- read alone, the text starts at zero, and its tokens are further left by as much as its tree
  rw [← Nat.zero_add n.span.start] at htext
  obtain ⟨vs, hvs, rfl⟩ := htext.exists_of_shift 0
  obtain ⟨n', hwrites', heq⟩ := hwrites.exists_of_shift
  exact ⟨hnested, text, vs, n', hcovers, Token.tokenize_eq_ok_iff.mpr hvs, (parseExpr_eq_ok_iff vs n').mpr hwrites',
    heq⟩

/-- The sum in `-(1 + r4)` has its parentheses with it. -/
theorem subexpression_reads_alone_parentheses :
    (Expr.binary (.ofLength 1 8) .plus (.ofLength 4 1) (.number (.ofLength 2 1) 1)
        (.name (.ofLength 6 2) "r4")).Nested ∧
      ReadsAlone "-(1 + r4)" (.binary (.ofLength 1 8) .plus (.ofLength 4 1) (.number (.ofLength 2 1) 1)
        (.name (.ofLength 6 2) "r4")) := by
  have hts : Token.tokenize "-(1 + r4)" = .ok [⟨.ofLength 0 1, .sign .minus⟩, ⟨.ofLength 1 1, .sign .parenOpen⟩,
      ⟨.ofLength 2 1, .number 1⟩, ⟨.ofLength 4 1, .sign .plus⟩, ⟨.ofLength 6 2, .name "r4"⟩,
      ⟨.ofLength 8 1, .sign .parenClose⟩] := by decide
  exact subexpression_reads_alone hts rfl _ (by decide)

end Parser
end MicroDebug

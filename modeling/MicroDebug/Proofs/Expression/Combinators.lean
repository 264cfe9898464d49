import MicroDebug.Expression.Combinator

/-! What parsers recognize. A parser reads phrases of a language, and wherever it fails, what stands before the failure
    begins such a phrase. It looks at nothing beyond the place where it ends or fails. Each combination of parsers
    recognizes the combination of their languages. -/

namespace MicroDebug

/-! ### Stretches of tokens -/

/-- The tokens `us` stand from one place to another. -/
def Stands (ts : List Token) : Nat → List Token → Nat → Prop
  | i, [], j => i = j
  | i, t :: us, j => ts[i]? = some t ∧ Stands ts (i + 1) us j

namespace Stands

variable {ts us vs : List Token} {i j k : Nat}

theorem append_iff : Stands ts i (us ++ vs) k ↔ ∃ j, Stands ts i us j ∧ Stands ts j vs k := by
  induction us generalizing i with
  | nil => simp [Stands]
  | cons t us ih => simp [Stands, ih, and_assoc]

theorem append (h : Stands ts i us j) (h' : Stands ts j vs k) : Stands ts i (us ++ vs) k :=
  append_iff.mpr ⟨j, h, h'⟩

theorem eq_add (h : Stands ts i us j) : j = i + us.length := by
  induction us generalizing i with
  | nil => exact (h : i = j).symm
  | cons t us ih =>
    have hrest := ih h.2
    simp only [List.length_cons]
    omega

theorem le (h : Stands ts i us j) : i ≤ j := by
  have hj := h.eq_add
  omega

theorem lt (h : Stands ts i us j) (hus : us ≠ []) : i < j := by
  have hj := h.eq_add
  have hpos := List.length_pos_iff.mpr hus
  omega

theorem le_length (h : Stands ts i us j) (hi : i ≤ ts.length) : j ≤ ts.length := by
  induction us generalizing i with
  | nil => exact (h : i = j) ▸ hi
  | cons t us ih => exact ih h.2 (List.getElem?_eq_some_iff.mp h.1).1

theorem take_eq (h : Stands ts i us j) : ts.take j = ts.take i ++ us := by
  induction us generalizing i with
  | nil =>
    cases (h : i = j)
    exact (List.append_nil _).symm
  | cons t us ih => rw [ih h.2, List.take_add_one, h.1, Option.toList_some, List.append_assoc, List.singleton_append]

theorem eq_take (h : Stands ts 0 us j) : us = ts.take j := by
  rw [h.take_eq, List.take_zero, List.nil_append]

end Stands

theorem stands_append_length (ts us : List Token) : Stands (ts ++ us) ts.length us (ts ++ us).length := by
  induction us generalizing ts with
  | nil => simp [Stands]
  | cons t us ih =>
    refine ⟨by simp, ?_⟩
    simpa using ih (ts ++ [t])

theorem stands_self (ts : List Token) : Stands ts 0 ts ts.length := stands_append_length [] ts

/-! ### Failures -/

namespace Failure

/-- A failure, if there is one, is before a place. -/
def Before (n : Nat) (f : Option Failure) : Prop := ∀ g, f = some g → g.index < n

variable {f g : Option Failure} {h : Failure}

theorem further_eq_some (hfurther : further f g = some h) : f = some h ∨ g = some h := by
  unfold further at hfurther
  grind

theorem isSome_further : (further f g).isSome = (f.isSome || g.isSome) := by
  unfold further
  grind

/-- The further one of two failures is before a place if both are. -/
theorem before_further {n : Nat} : Before n (further f g) ↔ Before n f ∧ Before n g := by
  unfold Before further
  grind

end Failure

/-- A reading that ends and fails before a place. -/
structure Reading.Within {α : Type} (r : Reading α) (n : Nat) : Prop where
  result : ∀ a j, r.result = some (a, j) → j < n
  furthest : Failure.Before n r.furthest

namespace Parser

variable {α β : Type} {p q : Parser α} {r : Parser β} {ts : List Token} {i j : Nat}

/-! ### Readings -/

theorem map_eq (p : Parser α) (f : α → β) (ts : List Token) (i : Nat) :
    p.map f ts i = ⟨(p ts i).result.map fun x => (f x.1, x.2), (p ts i).furthest⟩ := by
  unfold map
  rcases p ts i with ⟨_ | ⟨a, j⟩, φ⟩ <;> rfl

theorem andThen_of_none (h : (p ts i).result = none) : p.andThen r ts i = ⟨none, (p ts i).furthest⟩ := by
  unfold andThen
  grind

theorem andThen_of_some {a : α} (h : (p ts i).result = some (a, j)) :
    p.andThen r ts i = ⟨(r ts j).result.map fun x => ((a, x.1), x.2),
      Failure.further (p ts i).furthest (r ts j).furthest⟩ := by
  unfold andThen
  rcases hp : p ts i with ⟨result, φ⟩
  rw [hp] at h
  cases h
  rcases hr : r ts j with ⟨_ | ⟨b, k⟩, ψ⟩ <;> simp [hr]

theorem orElse_of_none (h : (p ts i).result = none) :
    p.orElse q ts i = ⟨(q ts i).result, Failure.further (p ts i).furthest (q ts i).furthest⟩ := by
  unfold orElse
  grind

theorem orElse_of_some {x : α × Nat} (h : (p ts i).result = some x) : p.orElse q ts i = p ts i := by
  unfold orElse
  grind

theorem result_map (p : Parser α) (f : α → β) (ts : List Token) (i : Nat) :
    (p.map f ts i).result = (p ts i).result.map fun x => (f x.1, x.2) := by
  rw [map_eq]

theorem result_andThen (p : Parser α) (r : Parser β) (ts : List Token) (i : Nat) :
    (p.andThen r ts i).result =
      (p ts i).result.bind fun x => (r ts x.2).result.map fun y => ((x.1, y.1), y.2) := by
  rcases hp : (p ts i).result with _ | x
  · rw [andThen_of_none hp, Option.bind_none]
  · rw [andThen_of_some hp, Option.bind_some]

theorem result_andThen_eq_some {x : α × β} {k : Nat} :
    (p.andThen r ts i).result = some (x, k) ↔
      ∃ j, (p ts i).result = some (x.1, j) ∧ (r ts j).result = some (x.2, k) := by
  rw [result_andThen, Option.bind_eq_some_iff]
  constructor
  · rintro ⟨⟨a, j⟩, hp, hmap⟩
    obtain ⟨y, hr, heq⟩ := Option.map_eq_some_iff.mp hmap
    cases heq
    exact ⟨j, hp, hr⟩
  · rintro ⟨j, hp, hr⟩
    exact ⟨(x.1, j), hp, by rw [hr]; rfl⟩

theorem result_orElse (p q : Parser α) (ts : List Token) (i : Nat) :
    (p.orElse q ts i).result = (p ts i).result.or (q ts i).result := by
  rcases hp : (p ts i).result with _ | x
  · rw [orElse_of_none hp, Option.none_or]
  · rw [orElse_of_some hp, hp, Option.some_or]

/-! ### Languages -/

/-- A failure at a token, or at the end, up to which the tokens begin a phrase. -/
def Viable (L : List Token → α → Prop) (ts : List Token) (i : Nat) (f : Failure) : Prop :=
  f.found = ts[f.index]? ∧ ∃ us vs a, Stands ts i us f.index ∧ L (us ++ vs) a

/-- The parser reads phrases of the language, and fails where none can go on. -/
structure Recognizes (p : Parser α) (L : List Token → α → Prop) : Prop where
  inhabited : ∃ us a, L us a
  reads : ∀ {ts i a j}, (p ts i).result = some (a, j) → ∃ us, Stands ts i us j ∧ L us a
  fails : ∀ {ts i}, (p ts i).result = none → (p ts i).furthest.isSome
  viable : ∀ {ts i f}, (p ts i).furthest = some f → Viable L ts i f
  /-- What is read does not depend on later tokens. -/
  looks : ∀ {ts us i n}, (∀ k < n, us[k]? = ts[k]?) → i ≤ ts.length → (p ts i).Within n → p us i = p ts i

/-- Phrases of one language and then another. -/
def Both (L : List Token → α → Prop) (M : List Token → β → Prop) (ts : List Token) (x : α × β) : Prop :=
  ∃ us vs, ts = us ++ vs ∧ L us x.1 ∧ M vs x.2

/-- Any number of phrases of a language. -/
inductive Series (L : List Token → α → Prop) : List Token → List α → Prop
  | nil : Series L [] []
  | cons {us vs : List Token} {a : α} {as : List α} (h : L us a) (hs : Series L vs as) :
      Series L (us ++ vs) (a :: as)

section

variable {L M : List Token → α → Prop} {N : List Token → β → Prop} {f : Failure}

theorem Viable.mono (h : Viable L ts i f) (g : α → β) (hsub : ∀ us a, L us a → N us (g a)) : Viable N ts i f := by
  obtain ⟨hfound, us, vs, a, hstands, hL⟩ := h
  exact ⟨hfound, us, vs, g a, hstands, hsub _ _ hL⟩

theorem Viable.both (h : Viable L ts i f) (hN : ∃ us b, N us b) : Viable (Both L N) ts i f := by
  obtain ⟨hfound, us, vs, a, hstands, hL⟩ := h
  obtain ⟨ws, b, hN⟩ := hN
  exact ⟨hfound, us, vs ++ ws, (a, b), hstands, us ++ vs, ws, (List.append_assoc ..).symm, hL, hN⟩

theorem Viable.after {us : List Token} {a : α} (h : Viable N ts j f) (hus : Stands ts i us j) (hL : L us a) :
    Viable (Both L N) ts i f := by
  obtain ⟨hfound, vs, ws, b, hvs, hN⟩ := h
  exact ⟨hfound, us ++ vs, ws, (a, b), hus.append hvs, us, vs ++ ws, List.append_assoc .., hL, hN⟩

/-! ### What recognizers read -/

namespace Recognizes

theorem le (h : Recognizes p L) {a : α} (hresult : (p ts i).result = some (a, j)) : i ≤ j := by
  obtain ⟨us, hus, -⟩ := h.reads hresult
  exact hus.le

theorem le_length (h : Recognizes p L) {a : α} (hresult : (p ts i).result = some (a, j)) (hi : i ≤ ts.length) :
    j ≤ ts.length := by
  obtain ⟨us, hus, -⟩ := h.reads hresult
  exact hus.le_length hi

theorem lt_of_within (h : Recognizes p L) {n : Nat} (hn : (p ts i).Within n) : i < n := by
  rcases hp : (p ts i).result with _ | ⟨a, j⟩
  · obtain ⟨f, hf⟩ := Option.isSome_iff_exists.mp (h.fails hp)
    obtain ⟨-, us, -, -, hus, -⟩ := h.viable hf
    exact Nat.lt_of_le_of_lt hus.le (hn.furthest f hf)
  · exact Nat.lt_of_le_of_lt (h.le hp) (hn.result a j hp)

/-! ### Combinations -/

theorem mono (h : Recognizes p L) (hsub : ∀ us a, L us a → M us a) : Recognizes p M where
  inhabited := by
    obtain ⟨us, a, hL⟩ := h.inhabited
    exact ⟨us, a, hsub us a hL⟩
  reads hresult := by
    obtain ⟨us, hus, hL⟩ := h.reads hresult
    exact ⟨us, hus, hsub _ _ hL⟩
  fails := h.fails
  viable hf := (h.viable hf).mono id hsub
  looks := h.looks

theorem map (h : Recognizes p L) {g : α → β} (hsub : ∀ us a, L us a → N us (g a)) : Recognizes (p.map g) N where
  inhabited := by
    obtain ⟨us, a, hL⟩ := h.inhabited
    exact ⟨us, g a, hsub us a hL⟩
  reads hresult := by
    rw [result_map, Option.map_eq_some_iff] at hresult
    obtain ⟨⟨a, j⟩, hp, heq⟩ := hresult
    cases heq
    obtain ⟨us, hus, hL⟩ := h.reads hp
    exact ⟨us, hus, hsub _ _ hL⟩
  fails hresult := by
    rw [map_eq] at hresult ⊢
    exact h.fails (Option.map_eq_none_iff.mp hresult)
  viable hf := by
    rw [map_eq] at hf
    exact (h.viable hf).mono g hsub
  looks {ts us i n} heq hi hn := by
    rw [map_eq] at hn
    have hp : (p ts i).Within n :=
      ⟨fun a j hresult => hn.result (g a) j (by rw [hresult]; rfl), hn.furthest⟩
    rw [map_eq, map_eq, h.looks heq hi hp]

theorem orElse (hp : Recognizes p L) (hq : Recognizes q L) : Recognizes (p.orElse q) L where
  inhabited := hp.inhabited
  reads hresult := by
    rw [result_orElse, Option.or_eq_some_iff] at hresult
    rcases hresult with h | ⟨-, h⟩
    · exact hp.reads h
    · exact hq.reads h
  fails {ts i} hresult := by
    rw [result_orElse, Option.or_eq_none_iff] at hresult
    rw [orElse_of_none hresult.1, Failure.isSome_further, hq.fails hresult.2, Bool.or_true]
  viable {ts i f} hf := by
    rcases h : (p ts i).result with _ | x
    · rw [orElse_of_none h] at hf
      rcases Failure.further_eq_some hf with hf | hf
      · exact hp.viable hf
      · exact hq.viable hf
    · rw [orElse_of_some h] at hf
      exact hp.viable hf
  looks {ts us i n} heq hi hn := by
    rcases h : (p ts i).result with _ | x
    · rw [orElse_of_none h] at hn
      obtain ⟨hpn, hqn⟩ := Failure.before_further.mp hn.furthest
      have hpeq := hp.looks heq hi ⟨fun a j hresult => (nomatch h.symm.trans hresult), hpn⟩
      rw [orElse_of_none h, orElse_of_none (by rw [hpeq, h]), hpeq, hq.looks heq hi ⟨hn.result, hqn⟩]
    · rw [orElse_of_some h] at hn
      have hpeq := hp.looks heq hi hn
      rw [orElse_of_some h, orElse_of_some (by rw [hpeq, h]), hpeq]

theorem andThen (hp : Recognizes p L) (hr : Recognizes r N) : Recognizes (p.andThen r) (Both L N) where
  inhabited := by
    obtain ⟨us, a, hL⟩ := hp.inhabited
    obtain ⟨vs, b, hN⟩ := hr.inhabited
    exact ⟨us ++ vs, (a, b), us, vs, rfl, hL, hN⟩
  reads hresult := by
    obtain ⟨j, hpj, hrj⟩ := result_andThen_eq_some.mp hresult
    obtain ⟨us, hus, hL⟩ := hp.reads hpj
    obtain ⟨vs, hvs, hN⟩ := hr.reads hrj
    exact ⟨us ++ vs, hus.append hvs, us, vs, rfl, hL, hN⟩
  fails {ts i} hresult := by
    rcases h : (p ts i).result with _ | ⟨a, j⟩
    · rw [andThen_of_none h]
      exact hp.fails h
    · rw [andThen_of_some h] at hresult ⊢
      rw [Failure.isSome_further, hr.fails (Option.map_eq_none_iff.mp hresult), Bool.or_true]
  viable {ts i f} hf := by
    rcases h : (p ts i).result with _ | ⟨a, j⟩
    · rw [andThen_of_none h] at hf
      exact (hp.viable hf).both hr.inhabited
    · rw [andThen_of_some h] at hf
      rcases Failure.further_eq_some hf with hf | hf
      · exact (hp.viable hf).both hr.inhabited
      · obtain ⟨us, hus, hL⟩ := hp.reads h
        exact (hr.viable hf).after hus hL
  looks {ts us i n} heq hi hn := by
    rcases h : (p ts i).result with _ | ⟨a, j⟩
    · rw [andThen_of_none h] at hn
      have hpeq := hp.looks heq hi ⟨fun a j hresult => (nomatch h.symm.trans hresult), hn.furthest⟩
      rw [andThen_of_none h, andThen_of_none (by rw [hpeq, h]), hpeq]
    · rw [andThen_of_some h] at hn
      obtain ⟨hpn, hrn⟩ := Failure.before_further.mp hn.furthest
      have hrw : (r ts j).Within n :=
        ⟨fun b k hresult => hn.result (a, b) k (by rw [hresult]; rfl), hrn⟩
      -- the second parser starts where the first one ends
      have hpw : (p ts i).Within n := by
        refine ⟨fun a' j' hresult => ?_, hpn⟩
        cases h.symm.trans hresult
        exact hr.lt_of_within hrw
      have hpeq := hp.looks heq hi hpw
      rw [andThen_of_some h, andThen_of_some (by rw [hpeq, h]), hpeq, hr.looks heq (hp.le_length h hi) hrw]

end Recognizes

end

theorem recognizes_succeed (a : α) : Recognizes (succeed a) fun us b => us = [] ∧ b = a where
  inhabited := ⟨[], a, rfl, rfl⟩
  reads hresult := by
    cases hresult
    exact ⟨[], rfl, rfl, rfl⟩
  fails hresult := nomatch hresult
  viable hf := nomatch hf
  looks _ _ _ := rfl

theorem recognizes_fail {L : List Token → α → Prop} (hL : ∃ us a, L us a) : Recognizes fail L where
  inhabited := hL
  reads hresult := nomatch hresult
  fails _ := rfl
  viable hf := by
    cases hf
    obtain ⟨us, a, hL⟩ := hL
    exact ⟨rfl, [], us, a, rfl, hL⟩
  looks {ts us i n} heq _ hn := by
    unfold fail
    rw [heq i (hn.furthest _ rfl)]

theorem recognizes_ending : Recognizes ending fun us _ => us = [] where
  inhabited := ⟨[], (), rfl⟩
  reads {ts i a j} hresult := by
    unfold ending at hresult
    split at hresult
    · cases hresult
    · cases hresult
      exact ⟨[], rfl, rfl⟩
  fails {ts i} hresult := by
    unfold ending at hresult ⊢
    split at hresult
    · rfl
    · cases hresult
  viable {ts i f} hf := by
    unfold ending at hf
    split at hf
    · next ht =>
      cases hf
      exact ⟨ht.symm, [], [], (), rfl, rfl⟩
    · cases hf
  looks {ts us i n} heq _ hn := by
    have hi : i < n := by
      unfold ending at hn
      split at hn
      · exact hn.furthest _ rfl
      · exact hn.result _ _ rfl
    unfold ending
    rw [heq i hi]

/-! ### Recursion

A parser that takes a token before it is used again does not notice how deep it may still go. -/

/-- From a place on the parsers read the same. -/
def Agree (ts : List Token) (n : Nat) (p q : Parser α) : Prop := ∀ i, n ≤ i → i ≤ ts.length → p ts i = q ts i

section

variable {L : List Token → α → Prop} {n m : Nat} {p' q' : Parser α} {r' : Parser β}

theorem agree_refl : Agree ts n p p := fun _ _ _ => rfl

theorem Agree.of_le (h : Agree ts n p q) (hle : n ≤ m) : Agree ts m p q := fun i hi => h i (Nat.le_trans hle hi)

theorem Agree.map (h : Agree ts n p q) (f : α → β) : Agree ts n (p.map f) (q.map f) := fun i hn hi => by
  rw [map_eq, map_eq, h i hn hi]

theorem Agree.orElse (h : Agree ts n p p') (h' : Agree ts n q q') : Agree ts n (p.orElse q) (p'.orElse q') :=
  fun i hn hi => by
    unfold Parser.orElse
    rw [h i hn hi, h' i hn hi]

theorem Agree.andThen_of_moves (hp : Recognizes p L) (h : Agree ts n p p') (h' : Agree ts m r r')
    (hmoves : ∀ i a j, n ≤ i → (p ts i).result = some (a, j) → m ≤ j) : Agree ts n (p.andThen r) (p'.andThen r') :=
  fun i hn hi => by
    have hpeq := h i hn hi
    rcases hresult : (p ts i).result with _ | ⟨a, j⟩
    · rw [andThen_of_none hresult, andThen_of_none (by rw [← hpeq, hresult]), hpeq]
    · rw [andThen_of_some hresult, andThen_of_some (by rw [← hpeq, hresult]), hpeq,
        h' j (hmoves i a j hn hresult) (hp.le_length hresult hi)]

theorem Agree.andThen (hp : Recognizes p L) (h : Agree ts n p p') (h' : Agree ts n r r') :
    Agree ts n (p.andThen r) (p'.andThen r') :=
  h.andThen_of_moves hp h' fun _ _ _ hi hresult => Nat.le_trans hi (hp.le hresult)

/-- Phrases of the language take a token at least. -/
def Positive (L : List Token → α → Prop) : Prop := ∀ us a, L us a → us ≠ []

theorem Agree.after (hp : Recognizes p L) (hpos : Positive L) (h : Agree ts (n + 1) r r') :
    Agree ts n (p.andThen r) (p.andThen r') := by
  refine agree_refl.andThen_of_moves hp h fun i a j hi hresult => ?_
  obtain ⟨us, hus, hL⟩ := hp.reads hresult
  exact Nat.succ_le_of_lt (Nat.lt_of_le_of_lt hi (hus.lt (hpos us a hL)))

/-- A parser that is used within itself, always after a token, and recognizes a language if it does so within. -/
structure Recurs (body : Parser α → Parser α) (L : List Token → α → Prop) : Prop where
  inhabited : ∃ us a, L us a
  recognizes : ∀ {p}, Recognizes p L → Recognizes (body p) L
  guarded : ∀ {p q ts n}, Recognizes p L → Recognizes q L → Agree ts (n + 1) p q → Agree ts n (body p) (body q)

namespace Recurs

variable {body : Parser α → Parser α}

theorem recognizes_nested (h : Recurs body L) (depth : Nat) : Recognizes (nested body depth) L := by
  induction depth with
  | zero => exact recognizes_fail h.inhabited
  | succ depth ih => exact h.recognizes ih

/-- A depth is enough for as many tokens. -/
theorem agree_nested (h : Recurs body L) (ts : List Token) {depth more : Nat} (hle : depth ≤ more) :
    Agree ts (ts.length + 1 - depth) (nested body depth) (nested body more) := by
  induction depth generalizing more with
  | zero => exact fun i hn hi => absurd hi (by omega)
  | succ depth ih =>
    obtain ⟨more, rfl⟩ : ∃ k, more = k + 1 := ⟨more - 1, by omega⟩
    have hinner := (ih (Nat.le_of_succ_le_succ hle)).of_le (show _ ≤ ts.length + 1 - (depth + 1) + 1 by omega)
    exact h.guarded (h.recognizes_nested depth) (h.recognizes_nested more) hinner

theorem recursive_eq_nested (h : Recurs body L) (hi : i ≤ ts.length) (depth : Nat) (hdepth : ts.length - i < depth) :
    recursive body ts i = nested body depth ts i :=
  h.agree_nested ts (Nat.succ_le_of_lt hdepth) i (by omega) hi

theorem recognizes_recursive (h : Recurs body L) : Recognizes (recursive body) L where
  inhabited := h.inhabited
  reads hresult := (h.recognizes_nested _).reads hresult
  fails hresult := (h.recognizes_nested _).fails hresult
  viable hf := (h.recognizes_nested _).viable hf
  looks {ts us i n} heq hi hn := by
    have hius : i ≤ us.length := by
      have hin := (h.recognizes_nested _).lt_of_within hn
      rcases i with _ | i
      · exact Nat.zero_le _
      · have hget := heq i (Nat.lt_of_succ_lt hin)
        rw [List.getElem?_eq_getElem hi] at hget
        exact (List.getElem?_eq_some_iff.mp hget).1
    -- a depth that is enough for both lists
    have hdepth := h.recursive_eq_nested hi (ts.length + us.length + 1) (by omega)
    rw [hdepth] at hn
    rw [hdepth, h.recursive_eq_nested hius (ts.length + us.length + 1) (by omega)]
    exact (h.recognizes_nested _).looks heq hi hn

/-- The parser reads what its body reads with the parser itself in it. -/
theorem recursive_eq (h : Recurs body L) (hi : i ≤ ts.length) :
    recursive body ts i = body (recursive body) ts i := by
  have hinner : Agree ts (i + 1) (nested body (ts.length - i)) (recursive body) := fun k hk hlen =>
    (h.recursive_eq_nested hlen _ (by omega)).symm
  exact h.guarded (h.recognizes_nested _) h.recognizes_recursive hinner i (Nat.le_refl i) hi

end Recurs

/-! ### Repetition -/

theorem recognizes_more (hp : Recognizes p L) {rest : Parser (List α)} (hrest : Recognizes rest (Series L)) :
    Recognizes (p.more rest) (Series L) := by
  refine Recognizes.orElse ((hp.andThen hrest).map ?_) ((recognizes_succeed []).mono ?_)
  · rintro _ ⟨a, as⟩ ⟨us, vs, rfl, ha, has⟩
    exact .cons ha has
  · rintro _ _ ⟨rfl, rfl⟩
    exact .nil

theorem recurs_more (hp : Recognizes p L) (hpos : Positive L) : Recurs p.more (Series L) where
  inhabited := ⟨[], [], .nil⟩
  recognizes := recognizes_more hp
  guarded _ _ h := ((h.after hp hpos).map _).orElse agree_refl

theorem recognizes_repeated (hp : Recognizes p L) (hpos : Positive L) : Recognizes p.repeated (Series L) :=
  (recurs_more hp hpos).recognizes_recursive

theorem Agree.more (hp : Recognizes p L) (h : Agree ts n p q) {rest rest' : Parser (List α)}
    (hrest : Agree ts n rest rest') : Agree ts n (p.more rest) (q.more rest') :=
  ((h.andThen hp hrest).map _).orElse agree_refl

theorem Agree.repeated (hp : Recognizes p L) (h : Agree ts n p q) : Agree ts n p.repeated q.repeated := by
  have hnested : ∀ depth, Agree ts n (nested p.more depth) (nested q.more depth) := fun depth => by
    induction depth with
    | zero => exact agree_refl
    | succ depth ih => exact h.more hp ih
  exact fun i => hnested _ i

theorem result_repeated_nil (hp : Recognizes p L) (hpos : Positive L) (hi : i ≤ ts.length)
    (h : (p ts i).result = none) : (p.repeated ts i).result = some ([], i) := by
  rw [repeated, (recurs_more hp hpos).recursive_eq hi, more, result_orElse, result_map, andThen_of_none h]
  rfl

theorem result_repeated_cons (hp : Recognizes p L) (hpos : Positive L) (hi : i ≤ ts.length) {a : α} {as : List α}
    {k : Nat} (h : (p ts i).result = some (a, j)) (hrest : (p.repeated ts j).result = some (as, k)) :
    (p.repeated ts i).result = some (a :: as, k) := by
  have hboth : (p.andThen p.repeated ts i).result = some ((a, as), k) := result_andThen_eq_some.mpr ⟨j, h, hrest⟩
  rw [repeated, (recurs_more hp hpos).recursive_eq hi, more, result_orElse, result_map]
  rw [repeated] at hboth
  rw [hboth]
  rfl

theorem result_foldr_nil (hp : Recognizes p L) (hpos : Positive L) (hi : i ≤ ts.length) (f : α → β → β)
    (h : (p ts i).result = none) : (p.foldr r f ts i).result = (r ts i).result := by
  rw [foldr, result_map, andThen_of_some (result_repeated_nil hp hpos hi h)]
  cases (r ts i).result <;> rfl

theorem result_foldr_cons (hp : Recognizes p L) (hpos : Positive L) (hi : i ≤ ts.length) (f : α → β → β) {a : α}
    {b : β} {k : Nat} (h : (p ts i).result = some (a, j)) (hrest : (p.foldr r f ts j).result = some (b, k)) :
    (p.foldr r f ts i).result = some (f a b, k) := by
  rw [foldr, result_map, Option.map_eq_some_iff] at hrest ⊢
  obtain ⟨⟨⟨as, c⟩, k'⟩, hboth, heq⟩ := hrest
  cases heq
  obtain ⟨m, has, hr⟩ := result_andThen_eq_some.mp hboth
  exact ⟨((a :: as, c), k'), result_andThen_eq_some.mpr ⟨m, result_repeated_cons hp hpos hi h has, hr⟩, rfl⟩

/-! ### Whole lists of tokens -/

theorem result_ending (ts : List Token) (i : Nat) :
    (ending ts i).result = if i < ts.length then none else some ((), i) := by
  unfold ending
  grind

theorem parse_eq_ok_iff {a : α} : p.parse ts = .ok a ↔ ∃ j, (p ts 0).result = some (a, j) ∧ ts.length ≤ j := by
  have hparse : p.parse ts = .ok a ↔ ∃ j, (p.andThen ending ts 0).result = some ((a, ()), j) := by
    unfold parse
    rcases p.andThen ending ts 0 with ⟨_ | ⟨⟨b, ⟨⟩⟩, j⟩, φ⟩ <;> simp
  simp only [hparse, result_andThen_eq_some, result_ending]
  constructor
  · rintro ⟨k, j, hp, hend⟩
    exact ⟨j, hp, Nat.le_of_not_lt fun hlt => nomatch (if_pos hlt).symm.trans hend⟩
  · rintro ⟨j, hp, hj⟩
    exact ⟨j, j, hp, if_neg (Nat.not_lt_of_le hj)⟩

/-- What a whole list is read as. -/
theorem Recognizes.of_parse (hp : Recognizes p L) {a : α} (h : p.parse ts = .ok a) : L ts a := by
  obtain ⟨j, hresult, hj⟩ := parse_eq_ok_iff.mp h
  obtain ⟨us, hus, hL⟩ := hp.reads hresult
  rwa [hus.eq_take, List.take_of_length_le hj] at hL

/-- A list that is refused is refused for one failure, whatever comes after it. -/
theorem Recognizes.parse_eq_error (hp : Recognizes p L) {fs : List Failure} (h : p.parse ts = .error fs) :
    ∃ f, fs = [f] ∧ Viable L ts 0 f ∧ ∀ us, (∀ k ≤ f.index, us[k]? = ts[k]?) → p.parse us = .error fs := by
  have hwhole := hp.andThen recognizes_ending
  have hnone : (p.andThen ending ts 0).result = none := by
    unfold parse at h
    split at h
    · cases h
    · next heq => rw [heq]
  obtain ⟨f, hf⟩ := Option.isSome_iff_exists.mp (hwhole.fails hnone)
  have hreading : p.andThen ending ts 0 = ⟨none, some f⟩ := by rw [← hnone, ← hf]
  have hfs : p.parse ts = .error [f] := by
    rw [parse, hreading]
    rfl
  obtain rfl : fs = [f] := Except.error.inj (h.symm.trans hfs)
  refine ⟨f, rfl, (hwhole.viable hf).mono Prod.fst ?_, fun us hus => ?_⟩
  · rintro _ ⟨a, ⟨⟩⟩ ⟨us, vs, rfl, ha, rfl⟩
    rwa [List.append_nil]
  · have hwithin : (p.andThen ending ts 0).Within (f.index + 1) := by
      rw [hreading]
      refine ⟨nofun, fun g hg => ?_⟩
      cases hg
      exact Nat.lt_succ_self _
    rw [← hfs, parse, parse, hwhole.looks (fun k hk => hus k (Nat.le_of_lt_succ hk)) (Nat.zero_le _) hwithin]

/-- The parser reads the phrases of the language and no others, and none of them is empty. -/
structure Accepts (p : Parser α) (L : List Token → α → Prop) : Prop where
  recognizes : Recognizes p L
  positive : Positive L
  parse_eq_ok : ∀ {ts a}, L ts a → p.parse ts = .ok a

end

end Parser
end MicroDebug

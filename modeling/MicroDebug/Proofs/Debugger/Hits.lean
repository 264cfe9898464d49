import MicroDebug.Proofs.Debugger.Commands

/-! Breakpoints over any course of operations. A temporary breakpoint that nothing else sets or removes is hit by the
    first checks that find its condition true, as many as were asked for, and by no other; with the last of them it is
    gone. Checks leave all other breakpoints alone, and permanent ones wherever they are. -/

namespace MicroDebug
namespace Breakpoints

/-! ### Finding -/

theorem lookup_entry (a : UInt16) (b : Breakpoint) (rest : List (UInt16 × Breakpoint)) (c : UInt16) :
    ((a, b) :: rest).lookup c = if c = a then some b else rest.lookup c := by
  by_cases hca : c = a
  · rw [hca, List.lookup_cons_self, if_pos rfl]
  · rw [List.lookup_cons, beq_eq_false_iff_ne.mpr hca, if_neg hca]

theorem lookup_place (a : UInt16) (b : Breakpoint) (entries : List (UInt16 × Breakpoint)) (c : UInt16) :
    (place a b entries).lookup c = if c = a then some b else entries.lookup c := by
  induction entries with
  | nil => exact lookup_entry a b [] c
  | cons x rest ih =>
    obtain ⟨d, old⟩ := x
    unfold place
    split
    · exact lookup_entry a b _ c
    · split
      · next had =>
        rw [lookup_entry, lookup_entry, ← had]
        split <;> rfl
      · next had =>
        rw [lookup_entry, lookup_entry, ih]
        by_cases hcd : c = d
        · rw [if_pos hcd, if_pos hcd, if_neg fun hca => had (hca.symm.trans hcd)]
        · rw [if_neg hcd, if_neg hcd]

theorem lookup_filter (a : UInt16) (entries : List (UInt16 × Breakpoint)) (c : UInt16) :
    (entries.filter (·.1 != a)).lookup c = if c = a then none else entries.lookup c := by
  induction entries with
  | nil => exact (ite_self none).symm
  | cons x rest ih =>
    obtain ⟨d, b⟩ := x
    by_cases hda : d = a
    · rw [List.filter_cons_of_neg (by simp [hda]), ih, lookup_entry, hda]
      split <;> rfl
    · rw [List.filter_cons_of_pos (by simp [hda]), lookup_entry, lookup_entry, ih]
      by_cases hcd : c = d
      · rw [if_pos hcd, if_pos hcd, if_neg (hcd ▸ hda)]
      · rw [if_neg hcd, if_neg hcd]

theorem find?_insert (bs : Breakpoints) (a : UInt16) (b : Breakpoint) (c : UInt16) :
    (bs.insert a b).find? c = if c = a then some b else bs.find? c :=
  lookup_place a b bs.entries c

theorem find?_erase (bs : Breakpoints) (a c : UInt16) :
    (bs.erase a).find? c = if c = a then none else bs.find? c :=
  lookup_filter a bs.entries c

/-! ### Checks -/

/-- A condition is true in a state, if there is one. -/
def satisfied (condition : Option Guard) (p : Processor) : Bool :=
  condition.all fun c => c.test.evaluate? p == some (.bool true)

theorem stops?_eq_satisfied {b : Breakpoint} (h : b.Sound) (p : Processor) :
    b.stops? p = some (satisfied b.condition p) := by
  unfold Breakpoint.stops? satisfied
  cases hc : b.condition with
  | none => rfl
  | some c =>
    have hguard := h.condition c hc
    obtain ⟨v, hv⟩ := hguard.test.exists_evaluate?_bool p hguard.type
    cases v <;> simp [Guard.holds?, hv]

/-- A check touches at most a temporary breakpoint at its own address. -/
theorem find?_of_check? {bs bs' : Breakpoints} {a : UInt16} {p : Processor} {hit : Bool}
    (h : bs.check? a p = some (hit, bs')) :
    (∀ c, c ≠ a → bs'.find? c = bs.find? c) ∧
      ∀ b, bs.find? a = some b → b.remaining = none → bs'.find? a = some b := by
  unfold check? at h
  split at h
  · cases h
    exact ⟨fun _ _ => rfl, fun _ hb _ => hb⟩
  · next x hx =>
    split at h
    · cases h
    · cases h
      exact ⟨fun _ _ => rfl, fun _ hb _ => hb⟩
    · obtain ⟨bs'', hhit, hbs⟩ := Option.map_eq_some_iff.mp h
      cases hbs
      have hstays : ∀ b, bs.find? a = some b → b.remaining = none → x.remaining = none := by
        intro b hb hnone
        rwa [Option.some.inj (hx.symm.trans hb)]
      unfold hit? at hhit
      split at hhit <;> cases hhit
      · exact ⟨fun _ _ => rfl, fun _ hb _ => hb⟩
      · next hone =>
        refine ⟨fun c hc => by rw [find?_erase, if_neg hc], fun b hb hnone => ?_⟩
        cases hone.symm.trans (hstays b hb hnone)
      · next n hmore =>
        refine ⟨fun c hc => by rw [find?_insert, if_neg hc], fun b hb hnone => ?_⟩
        cases hmore.symm.trans (hstays b hb hnone)

/-! ### Operations -/

/-- What is done with breakpoints, short of removing all of them. -/
inductive Operation where
  | setPermanent (a : UInt16) (condition : Option Guard)
  | setTemporary (a : UInt16) (count : Nat)
  | remove (a : UInt16)
  | check (a : UInt16) (p : Processor)

namespace Operation

/-- Conditions have truth values, and temporary breakpoints are to be hit at least once. -/
def Sound : Operation → Prop
  | setPermanent _ condition => ∀ c, condition = some c → c.Sound
  | setTemporary _ count => count ≠ 0
  | remove _ | check _ _ => True

/-- Nothing is set or removed at an address. -/
def Spares (a : UInt16) : Operation → Prop
  | setPermanent b _ | setTemporary b _ | remove b => b ≠ a
  | check _ _ => True

end Operation

/-- A check of an address in a state, and whether the program was to stop. -/
structure Checked where
  address : UInt16
  processor : Processor
  hit : Bool

/-- Carries an operation out; a check is told with its answer. -/
def carryOut? (bs : Breakpoints) : Operation → Option (List Checked × Breakpoints)
  | .setPermanent a condition => some ([], bs.setPermanent a condition)
  | .setTemporary a count => (bs.setTemporary? a count).map fun bs => ([], bs)
  | .remove a => some ([], bs.erase a)
  | .check a p =>
    (bs.check? a p).map fun (hit, bs) => ([{ address := a, processor := p, hit := hit }], bs)

/-- Carries operations out in order, with all checks and their answers. -/
def carryOutAll? : List Operation → Breakpoints → Option (List Checked × Breakpoints)
  | [], bs => some ([], bs)
  | o :: rest, bs =>
    (bs.carryOut? o).bind fun (first, bs) =>
      (carryOutAll? rest bs).map fun (later, bs) => (first ++ later, bs)

/-! ### Counting -/

section

variable (a : UInt16) (condition : Option Guard)

/-- A check of the address finds the condition true. -/
def finds (c : Checked) : Bool := c.address == a && satisfied condition c.processor

/-- A check of the address is a hit. -/
def hits (c : Checked) : Bool := c.address == a && c.hit

/-- Of the checks of the address the first that find the condition true are hits, as many as there are to be had.
    The numbers are of the hits to be had before and after. -/
inductive Answered : Nat → List Checked → Nat → Prop
  | nil (left : Nat) : Answered left [] left
  | other {left later : Nat} {c : Checked} {rest : List Checked} (haddress : c.address ≠ a)
      (hrest : Answered left rest later) : Answered left (c :: rest) later
  | unsatisfied {left later : Nat} {c : Checked} {rest : List Checked} (haddress : c.address = a)
      (hcondition : satisfied condition c.processor = false) (hmiss : c.hit = false)
      (hrest : Answered left rest later) : Answered left (c :: rest) later
  | hit {left later : Nat} {c : Checked} {rest : List Checked} (haddress : c.address = a)
      (hcondition : satisfied condition c.processor = true) (hhit : c.hit = true)
      (hrest : Answered left rest later) : Answered (left + 1) (c :: rest) later
  | spent {later : Nat} {c : Checked} {rest : List Checked} (haddress : c.address = a) (hmiss : c.hit = false)
      (hrest : Answered 0 rest later) : Answered 0 (c :: rest) later

/-- The breakpoint at the address has so many hits left, and is gone if it has none. -/
def Left (left : Nat) (bs : Breakpoints) : Prop :=
  bs.find? a = if left = 0 then none else some { remaining := some left, condition := condition }

end

variable {a : UInt16} {condition : Option Guard} {left later : Nat}

namespace Answered

theorem append {checks rest : List Checked} {last : Nat} (h : Answered a condition left checks later)
    (hrest : Answered a condition later rest last) : Answered a condition left (checks ++ rest) last := by
  induction h with
  | nil left => exact hrest
  | other hx _ ih => exact .other hx (ih hrest)
  | unsatisfied hx hcondition hmiss _ ih => exact .unsatisfied hx hcondition hmiss (ih hrest)
  | hit hx hcondition hhit _ ih => exact .hit hx hcondition hhit (ih hrest)
  | spent hx hmiss _ ih => exact .spent hx hmiss (ih hrest)

theorem add_countP_hits {checks : List Checked} (h : Answered a condition left checks later) :
    later + checks.countP (hits a) = left := by
  induction h with
  | nil left => rfl
  | other hx _ ih => rwa [List.countP_cons_of_neg (by simp [hits, hx])]
  | unsatisfied hx _ hmiss _ ih => rwa [List.countP_cons_of_neg (by simp [hits, hmiss])]
  | hit hx _ hhit _ ih => rw [List.countP_cons_of_pos (by simp [hits, hx, hhit]), ← Nat.add_assoc, ih]
  | spent hx hmiss _ ih => rwa [List.countP_cons_of_neg (by simp [hits, hmiss])]

/-- A check is a hit if it finds the condition true and fewer than all hits went to checks before it that did. -/
theorem hit_iff {before after : List Checked} {c : Checked}
    (h : Answered a condition left (before ++ c :: after) later) (haddress : c.address = a) :
    c.hit = true ↔ satisfied condition c.processor = true ∧ before.countP (finds a condition) < left := by
  induction before generalizing left with
  | nil =>
    cases h with
    | other hx _ => exact absurd haddress hx
    | unsatisfied _ hcondition hmiss _ => simp [hmiss, hcondition]
    | hit _ hcondition hhit _ => simp [hhit, hcondition]
    | spent _ hmiss _ => simp [hmiss]
  | cons x before ih =>
    cases h with
    | other hx hrest =>
      rw [List.countP_cons_of_neg (by simp [finds, hx])]
      exact ih hrest
    | unsatisfied _ hcondition _ hrest =>
      rw [List.countP_cons_of_neg (by simp [finds, hcondition])]
      exact ih hrest
    | hit hx hcondition _ hrest =>
      rw [List.countP_cons_of_pos (by simp [finds, hx, hcondition]), Nat.add_lt_add_iff_right]
      exact ih hrest
    | spent _ _ hrest => simpa using ih hrest

end Answered

section

variable {bs : Breakpoints}

/-- A check of the address answers by the condition and by what is left, and takes one of it for a hit. -/
theorem check?_of_left (h : Left a condition left bs) (hcondition : ∀ c, condition = some c → c.Sound)
    (p : Processor) :
    ∃ hit bs' later, bs.check? a p = some (hit, bs') ∧ Left a condition later bs' ∧
      Answered a condition left [{ address := a, processor := p, hit := hit }] later := by
  unfold Left at h
  unfold check?
  rcases left with _ | left
  · rw [h]
    exact ⟨false, bs, 0, rfl, h, .spent rfl rfl (.nil 0)⟩
  · rw [if_neg (Nat.succ_ne_zero left)] at h
    have hsound : Breakpoint.Sound { remaining := some (left + 1), condition := condition } :=
      ⟨fun hzero => Nat.succ_ne_zero left (Option.some.inj hzero), hcondition⟩
    rw [h]
    simp only [stops?_eq_satisfied hsound]
    cases hfound : satisfied condition p with
    | false => exact ⟨false, bs, left + 1, rfl, h, .unsatisfied rfl hfound rfl (.nil _)⟩
    | true =>
      rcases left with _ | left
      · refine ⟨true, bs.erase a, 0, rfl, ?_, .hit rfl hfound rfl (.nil 0)⟩
        exact (find?_erase bs a a).trans (if_pos rfl)
      · refine ⟨true, _, left + 1, rfl, ?_, .hit rfl hfound rfl (.nil _)⟩
        exact (find?_insert bs a _ a).trans (if_pos rfl)

/-- One operation that spares the address. -/
theorem carryOut?_of_left (hbs : bs.Sound) (h : Left a condition left bs)
    (hcondition : ∀ c, condition = some c → c.Sound) {o : Operation} (ho : o.Sound) (hspares : o.Spares a) :
    ∃ checks bs' later, bs.carryOut? o = some (checks, bs') ∧ bs'.Sound ∧ Left a condition later bs' ∧
      Answered a condition left checks later := by
  cases o with
  | setPermanent b g =>
    refine ⟨[], bs.setPermanent b g, left, rfl, hbs.setPermanent ho b, ?_, .nil left⟩
    exact (find?_insert bs b _ a).trans ((if_neg hspares.symm).trans h)
  | setTemporary b count =>
    obtain ⟨bs', hset, hsound⟩ := hbs.exists_setTemporary? b ho
    refine ⟨[], bs', left, by simp only [carryOut?, hset, Option.map_some], hsound, ?_, .nil left⟩
    rw [setTemporary?, if_neg ho] at hset
    cases hset
    exact (find?_insert bs b _ a).trans ((if_neg hspares.symm).trans h)
  | remove b =>
    refine ⟨[], bs.erase b, left, rfl, hbs.erase b, ?_, .nil left⟩
    exact (find?_erase bs b a).trans ((if_neg hspares.symm).trans h)
  | check b p =>
    obtain ⟨hit, bs', hcheck, hsound⟩ := hbs.exists_check? b p
    have hcarry : bs.carryOut? (.check b p) = some ([{ address := b, processor := p, hit := hit }], bs') := by
      simp only [carryOut?, hcheck, Option.map_some]
    by_cases hba : b = a
    · subst hba
      obtain ⟨_, _, later, hcheck', hleft, hanswered⟩ := check?_of_left h hcondition p
      obtain ⟨rfl, rfl⟩ := Prod.mk.inj (Option.some.inj (hcheck.symm.trans hcheck'))
      exact ⟨_, bs', later, hcarry, hsound, hleft, hanswered⟩
    · have hframe := (find?_of_check? hcheck).1 a (Ne.symm hba)
      exact ⟨_, bs', left, hcarry, hsound, hframe.trans h, .other hba (.nil left)⟩

/-- Any number of operations that spare the address. -/
theorem carryOutAll?_of_left (hbs : bs.Sound) (h : Left a condition left bs)
    (hcondition : ∀ c, condition = some c → c.Sound) {ops : List Operation} (hops : ∀ o ∈ ops, o.Sound)
    (hspares : ∀ o ∈ ops, o.Spares a) :
    ∃ checks bs' later, carryOutAll? ops bs = some (checks, bs') ∧ Left a condition later bs' ∧
      Answered a condition left checks later := by
  induction ops generalizing bs left with
  | nil => exact ⟨[], bs, left, rfl, h, .nil left⟩
  | cons o rest ih =>
    rw [List.forall_mem_cons] at hops hspares
    obtain ⟨first, bs₁, middle, hfirst, hbs₁, hmiddle, hanswered⟩ :=
      carryOut?_of_left hbs h hcondition hops.1 hspares.1
    obtain ⟨checks, bs₂, later, hrest, hlater, hanswers⟩ := ih hbs₁ hmiddle hops.2 hspares.2
    refine ⟨first ++ checks, bs₂, later, ?_, hlater, hanswered.append hanswers⟩
    simp only [carryOutAll?, hfirst, Option.bind_some, hrest, Option.map_some]

/-- A temporary breakpoint is hit as often as asked for, by the first checks that find true the condition that was
    at the address, whatever is done elsewhere. Of its hits there are as many left as were not had, and with
    the last it is gone. A check leaves alone what is at other addresses, and what is to stay. -/
theorem temporary_hits_counted (hbs : bs.Sound) {n : Nat} (hn : n ≠ 0) {ops : List Operation}
    (hops : ∀ o ∈ ops, o.Sound) (hspares : ∀ o ∈ ops, o.Spares a)
    (hcondition : condition = (bs.find? a).bind Breakpoint.condition) :
    (∃ set checks final, bs.setTemporary? a n = some set ∧ carryOutAll? ops set = some (checks, final) ∧
      (∀ before c after, checks = before ++ c :: after → c.address = a →
        (c.hit = true ↔ satisfied condition c.processor = true ∧ before.countP (finds a condition) < n)) ∧
      (checks.countP (hits a) < n ∧
          final.find? a = some { remaining := some (n - checks.countP (hits a)), condition := condition } ∨
        checks.countP (hits a) = n ∧ final.find? a = none)) ∧
    ∀ (others others' : Breakpoints) (b : UInt16) (p : Processor) (hit : Bool),
      others.check? b p = some (hit, others') →
        (∀ c, c ≠ b → others'.find? c = others.find? c) ∧
          ∀ x, others.find? b = some x → x.remaining = none → others'.find? b = some x := by
  refine ⟨?_, fun _ _ _ _ _ => find?_of_check?⟩
  obtain ⟨set, hset, hsound⟩ := hbs.exists_setTemporary? a hn
  have hguard : ∀ c, condition = some c → c.Sound := by
    intro c hc
    obtain ⟨b, hb, hbc⟩ := Option.bind_eq_some_iff.mp (hcondition.symm.trans hc)
    exact (hbs.find? hb).condition c hbc
  have hleft : Left a condition n set := by
    rw [setTemporary?, if_neg hn, ← hcondition] at hset
    cases hset
    rw [Left, find?_insert, if_pos rfl, if_neg hn]
  obtain ⟨checks, final, later, hrun, hlater, hanswered⟩ := carryOutAll?_of_left hsound hleft hguard hops hspares
  refine ⟨set, checks, final, hset, hrun, ?_, ?_⟩
  · rintro before c after rfl haddress
    exact hanswered.hit_iff haddress
  · have hcount := hanswered.add_countP_hits
    unfold Left at hlater
    split at hlater
    · next hzero => exact .inr ⟨by omega, hlater⟩
    · next hmore =>
      refine .inl ⟨by omega, ?_⟩
      rw [hlater, show later = n - checks.countP (hits a) by omega]

end

/-- Two hits of a breakpoint whose condition is first false, with a breakpoint set and checked elsewhere in between. -/
theorem temporary_hits_counted_two :
    let carry : Guard := { source := "carry", test := { ops := [.flag .carry], type := .bool } }
    let clear := Processor.start .zero
    let carrying := clear.setRegister .sr Flag.carry.mask
    let bs := ({} : Breakpoints).setPermanent 0x4400 (some carry)
    let ops : List Operation :=
      [.check 0x4400 clear, .setPermanent 0x4402 none, .check 0x4400 carrying, .check 0x4402 carrying,
        .check 0x4400 carrying, .check 0x4400 carrying]
    bs.Sound ∧ (∀ o ∈ ops, o.Sound ∧ o.Spares 0x4400) ∧
      ∃ set checks final, bs.setTemporary? 0x4400 2 = some set ∧ carryOutAll? ops set = some (checks, final) ∧
        checks.map Checked.hit = [false, true, true, true, false] ∧ final.find? 0x4400 = none := by
  intro carry clear carrying bs ops
  have hcarry : carry.Sound := ⟨fun p => ⟨_, rfl, rfl⟩, rfl⟩
  have hbs : bs.Sound := by
    refine Sound.setPermanent (fun _ hx => absurd hx List.not_mem_nil) ?_ 0x4400
    intro c hc
    cases hc
    exact hcarry
  have hops : ∀ o ∈ ops, o.Sound ∧ o.Spares 0x4400 := by
    simp [ops, Operation.Sound, Operation.Spares]
  obtain ⟨⟨set, checks, final, hset, hrun, -, hfinal⟩, -⟩ :=
    temporary_hits_counted hbs two_ne_zero (fun o ho => (hops o ho).1) (fun o ho => (hops o ho).2) rfl
  have hchecks : (carryOutAll? ops set).map (fun r => (r.1.map Checked.hit, r.1.countP (hits 0x4400))) =
      some ([false, true, true, true, false], 2) := by
    cases hset
    decide
  rw [hrun, Option.map_some, Option.some.injEq, Prod.mk.injEq] at hchecks
  refine ⟨hbs, hops, set, checks, final, hset, hrun, hchecks.1, ?_⟩
  rcases hfinal with ⟨hmore, -⟩ | ⟨-, hgone⟩
  · exact absurd hchecks.2 (Nat.ne_of_lt hmore)
  · exact hgone

end Breakpoints
end MicroDebug

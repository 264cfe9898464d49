import MicroDebug.Debugger.Command
import MicroDebug.Proofs.Expression.Evaluation

/-! What commands hand on to a session always makes sense. The expression of a command has a value of its type
    in every state, a condition is a truth value, an assignment stores what its target takes, and a temporary
    breakpoint is to be hit at least once. Breakpoints stay like that while they are hit. -/

namespace MicroDebug

/-! ### Expressions -/

namespace Postfix

/-- In every state the operations leave one value, and it is of the type told. -/
def Sound (e : Postfix) : Prop := ∀ p, ∃ v, run p e.ops [] = some [v] ∧ v.type = e.type

theorem sound_of_compile {e : Expr} {code : Postfix} (h : e.compile = .ok code) : code.Sound := by
  intro p
  obtain ⟨v, -, htype, hcomp⟩ := Expr.computes_of_check p (Expr.compile_eq_ok_iff.mp h)
  exact ⟨v, hcomp [], htype⟩

theorem sound_ofSource {source : String} {e : Postfix} (h : ofSource source = .ok e) : e.Sound := by
  rw [ofSource] at h
  split at h
  · cases h
  · exact sound_of_compile h

namespace Sound

variable {e : Postfix} (h : e.Sound) (p : Processor)
include h

theorem exists_evaluate? : ∃ v, e.evaluate? p = some v ∧ v.type = e.type := by
  obtain ⟨v, hrun, htype⟩ := h p
  exact ⟨v, by rw [evaluate?, hrun], htype⟩

theorem exists_evaluate?_int (htype : e.type = .int) : ∃ n, e.evaluate? p = some (.int n) := by
  obtain ⟨v, hv, hvtype⟩ := h.exists_evaluate? p
  rw [htype] at hvtype
  cases v with
  | bool b => cases hvtype
  | int n => exact ⟨n, hv⟩

theorem exists_evaluate?_bool (htype : e.type = .bool) : ∃ b, e.evaluate? p = some (.bool b) := by
  obtain ⟨v, hv, hvtype⟩ := h.exists_evaluate? p
  rw [htype] at hvtype
  cases v with
  | bool b => exact ⟨b, hv⟩
  | int n => cases hvtype

end Sound
end Postfix

/-! ### Assignments -/

namespace Assignment

/-- The value and the address have values, of the types that are stored and that memory takes. -/
structure Sound (x : Assignment) : Prop where
  value : x.value.Sound
  type : x.value.type = x.target.type
  address : ∀ view a, x.target = .memory view a → a.Sound ∧ a.type = .int

theorem Sound.exists_perform? {x : Assignment} (h : x.Sound) (p : Processor) : ∃ q, x.perform? p = some q := by
  have htype := h.type
  obtain ⟨store, value⟩ := x
  cases store with
  | flag f =>
    obtain ⟨b, hb⟩ := h.value.exists_evaluate?_bool p htype
    exact ⟨_, by rw [perform?, hb, Option.bind_some, put]⟩
  | register r =>
    obtain ⟨n, hn⟩ := h.value.exists_evaluate?_int p htype
    exact ⟨_, by rw [perform?, hn, Option.bind_some, put]⟩
  | memory view a =>
    obtain ⟨n, hn⟩ := h.value.exists_evaluate?_int p htype
    obtain ⟨ha, hatype⟩ := h.address view a rfl
    obtain ⟨m, hm⟩ := ha.exists_evaluate?_int p hatype
    exact ⟨_, by simp only [perform?, hn, Option.bind_some, put, hm]; rfl⟩

theorem sound_address_of_checkTarget {target : Target} {store : Store} (h : checkTarget target = .ok store)
    {view : MemoryView} {a : Postfix} (hstore : store = .memory view a) : a.Sound ∧ a.type = .int := by
  subst hstore
  cases target with
  | name span text =>
    rw [checkTarget] at h
    split at h <;> cases h
  | index span view' viewSpan address =>
    rw [checkTarget] at h
    split at h
    · cases h
    · split at h
      · cases h
      · next b hb =>
        split at h
        · next htype =>
          cases h
          exact ⟨Postfix.sound_of_compile hb, htype⟩
        · cases h

theorem sound_ofSource {source : String} {x : Assignment} (h : ofSource source = .ok x) : x.Sound := by
  rw [ofSource] at h
  split at h
  · cases h
  · rw [compile] at h
    split at h
    · cases h
    · next value hvalue =>
      split at h
      · cases h
      · next store hstore =>
        split at h
        · next htype =>
          cases h
          exact ⟨Postfix.sound_of_compile hvalue, htype, fun _ _ => sound_address_of_checkTarget hstore⟩
        · cases h

end Assignment

/-! ### Breakpoints -/

structure Guard.Sound (c : Guard) : Prop where
  test : c.test.Sound
  type : c.test.type = .bool

theorem Guard.Sound.exists_holds? {c : Guard} (h : c.Sound) (p : Processor) : ∃ b, c.holds? p = some b := by
  obtain ⟨b, hb⟩ := h.test.exists_evaluate?_bool p h.type
  exact ⟨b, by rw [Guard.holds?, hb]⟩

/-- There is a hit left, and the condition has a truth value. -/
structure Breakpoint.Sound (b : Breakpoint) : Prop where
  remaining : b.remaining ≠ some 0
  condition : ∀ c, b.condition = some c → c.Sound

theorem Breakpoint.Sound.exists_stops? {b : Breakpoint} (h : b.Sound) (p : Processor) :
    ∃ stops, b.stops? p = some stops := by
  rw [stops?]
  split
  · exact ⟨true, rfl⟩
  · next c hc => exact (h.condition c hc).exists_holds? p

namespace Breakpoints

def Sound (bs : Breakpoints) : Prop := ∀ x ∈ bs.entries, x.2.Sound

theorem mem_place {a : UInt16} {b : Breakpoint} {entries : List (UInt16 × Breakpoint)} {x : UInt16 × Breakpoint}
    (h : x ∈ place a b entries) : x = (a, b) ∨ x ∈ entries := by
  induction entries with
  | nil => exact .inl (List.mem_singleton.mp h)
  | cons e rest ih =>
    obtain ⟨c, old⟩ := e
    rw [place] at h
    split at h
    · exact List.mem_cons.mp h
    · split at h
      · exact (List.mem_cons.mp h).imp_right (List.mem_cons_of_mem _)
      · rcases List.mem_cons.mp h with rfl | h
        · exact .inr List.mem_cons_self
        · exact (ih h).imp_right (List.mem_cons_of_mem _)

namespace Sound

variable {bs : Breakpoints} (h : bs.Sound)
include h

theorem find? {a : UInt16} {b : Breakpoint} (hb : bs.find? a = some b) : b.Sound := by
  obtain ⟨before, after, hentries, -⟩ := List.lookup_eq_some_iff.mp hb
  exact h (a, b) (by rw [hentries]; exact List.mem_append_right _ List.mem_cons_self)

theorem insert {b : Breakpoint} (hb : b.Sound) (a : UInt16) : (bs.insert a b).Sound := by
  intro x hx
  rcases mem_place hx with rfl | hx
  · exact hb
  · exact h x hx

theorem erase (a : UInt16) : (bs.erase a).Sound := fun x hx => h x (List.mem_filter.mp hx).1

theorem setPermanent {condition : Option Guard} (hc : ∀ c, condition = some c → c.Sound) (a : UInt16) :
    (bs.setPermanent a condition).Sound :=
  h.insert ⟨(Option.some_ne_none 0).symm, hc⟩ a

theorem exists_setTemporary? (a : UInt16) {count : Nat} (hcount : count ≠ 0) :
    ∃ bs', bs.setTemporary? a count = some bs' ∧ bs'.Sound := by
  refine ⟨_, if_neg hcount, h.insert ⟨fun hzero => hcount (Option.some.inj hzero), fun c hc => ?_⟩ a⟩
  obtain ⟨b, hb, hbc⟩ := Option.bind_eq_some_iff.mp hc
  exact (h.find? hb).condition c hbc

/-- A breakpoint with one hit left is gone after it, so none is left without hits. -/
theorem exists_hit? (a : UInt16) {b : Breakpoint} (hb : b.Sound) : ∃ bs', bs.hit? a b = some bs' ∧ bs'.Sound := by
  rcases hr : b.remaining with _ | _ | _ | n
  · exact ⟨bs, by simp only [hit?, hr], h⟩
  · exact absurd hr hb.remaining
  · exact ⟨_, by simp only [hit?, hr], h.erase a⟩
  · have hnext : Breakpoint.Sound { b with remaining := some (n + 1) } :=
      ⟨fun hzero => Nat.succ_ne_zero n (Option.some.inj hzero), hb.condition⟩
    exact ⟨_, by simp only [hit?, hr], h.insert hnext a⟩

theorem exists_check? (a : UInt16) (p : Processor) :
    ∃ hit bs', bs.check? a p = some (hit, bs') ∧ bs'.Sound := by
  rw [check?]
  split
  · exact ⟨false, bs, rfl, h⟩
  · next b hb =>
    obtain ⟨stops, hstops⟩ := (h.find? hb).exists_stops? p
    rw [hstops]
    cases stops with
    | false => exact ⟨false, bs, rfl, h⟩
    | true =>
      obtain ⟨bs', hbs', hsound⟩ := h.exists_hit? a (h.find? hb)
      exact ⟨true, bs', by rw [hbs']; rfl, hsound⟩

end Sound
end Breakpoints

/-! ### Command lines -/

namespace Command

/-- What the command hands on makes sense. -/
def Sound : Command → Prop
  | setBreakpoint _ condition => ∀ c, condition = some c → c.Sound
  | print e => e.Sound
  | assign x => x.Sound
  | setTemporary _ count => count ≠ 0
  | _ => True

theorem sound_of_map {α : Type} {x : Except CommandError α} {f : α → Command} {c : Command} (h : x.map f = .ok c)
    (hf : ∀ a, x = .ok a → (f a).Sound) : c.Sound := by
  cases x with
  | error e => cases h
  | ok a =>
    cases h
    exact hf a rfl

theorem sound_of_bind {α : Type} {x : Except CommandError α} {f : α → Except CommandError Command} {c : Command}
    (h : x.bind f = .ok c) (hf : ∀ a, f a = .ok c → c.Sound) : c.Sound := by
  cases x with
  | error e => cases h
  | ok a => exact hf a h

theorem sound_of_expression {name argument : String} {e : Postfix} (h : expression name argument = .ok e) :
    e.Sound := by
  rw [expression] at h
  split at h
  · cases h
  · split at h
    · next he =>
      cases h
      exact Postfix.sound_ofSource he
    · cases h

theorem sound_of_assignment {name argument : String} {x : Assignment} (h : assignment name argument = .ok x) :
    x.Sound := by
  rw [assignment] at h
  split at h
  · cases h
  · split at h
    · next hx =>
      cases h
      exact Assignment.sound_ofSource hx
    · cases h

theorem sound_of_condition {source : String} {c : Guard} (h : condition source = .ok c) : c.Sound := by
  rw [condition] at h
  split at h
  · cases h
  · next e he =>
    split at h
    · next htype =>
      cases h
      exact ⟨Postfix.sound_ofSource he, htype⟩
    · cases h

theorem hitCount_ne_zero {argument : String} {n : Nat} (h : hitCount argument = .ok n) : n ≠ 0 := by
  rw [hitCount] at h
  split at h
  · cases h
    exact Nat.succ_ne_zero _
  · cases h

theorem sound_parseBreakpoint {argument : String} {c : Command} (h : parseBreakpoint argument = .ok c) :
    c.Sound := by
  rw [parseBreakpoint] at h
  split at h
  · exact sound_of_map h fun a _ g hg => by cases hg
  · refine sound_of_bind h fun a h => sound_of_map h fun g hg g' hg' => ?_
    obtain rfl := Option.some.inj hg'
    exact sound_of_condition hg

theorem sound_parseTemporary {argument : String} {c : Command} (h : parseTemporary argument = .ok c) :
    c.Sound := by
  rw [parseTemporary] at h
  rcases hwords : Text.words argument with _ | ⟨a, _ | ⟨n, rest⟩⟩ <;> rw [hwords] at h
  · exact sound_of_map h fun a _ => Nat.one_ne_zero
  · exact sound_of_map h fun a _ => Nat.one_ne_zero
  · refine sound_of_bind h fun a h => ?_
    cases hn : hitCount n with
    | error e =>
      rw [hn] at h
      cases h
    | ok k =>
      rw [hn] at h
      simp only [Except.bind] at h
      split at h
      · cases h
        exact hitCount_ne_zero hn
      · cases h

theorem sound_parse {line : String} {c : Command} (h : parse line = .ok c) : c.Sound := by
  rw [parse] at h
  simp only at h
  split at h
  case h_1 => exact sound_parseBreakpoint h
  case h_12 => exact sound_of_map h fun e he => sound_of_expression he
  case h_15 => exact sound_of_map h fun x hx => sound_of_assignment hx
  case h_16 => exact sound_parseTemporary h
  case h_18 | h_20 =>
    split at h
    · cases h
      exact trivial
    · exact sound_of_map h fun _ _ => trivial
  -- what is left hands on nothing that could make no sense
  all_goals
    first
    | exact sound_of_map h fun _ _ => trivial
    | cases h <;> exact trivial

end Command
end MicroDebug

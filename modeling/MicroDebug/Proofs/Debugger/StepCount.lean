import MicroDebug.Proofs.Debugger.Ticks

/-! Counted steps. The countdown that a number of steps starts runs along with the program as long as nothing
    disturbs it, and brings the next prompt after that many instructions. A countdown from zero has run out before it
    starts and brings none. -/

namespace MicroDebug

theorem Processor.executed_of_stepWatched {σ : Type} {watch : Watcher σ} {s : σ} {p : Processor} {c : Console}
    {info : StepInfo} (h : (p.stepWatched watch s c).result = .ok info) :
    (p.stepWatched watch s c).processor.executed = p.executed + 1 := by
  rcases stepWatched_cases watch s p c with
    ⟨stopped, d, -, -, -, hstep⟩ | ⟨f, d, reason, t, -, -, -, hstep⟩ | ⟨f, d, t, m, -, hf, -, -, hstep⟩
  · rw [hstep] at h
    cases h
  · rw [hstep] at h
    cases h
  · rw [hstep]
    exact hf.executed

/-- A check that finds no hit leaves the breakpoints as they were. -/
theorem Breakpoints.eq_of_check?_eq_false {bs bs' : Breakpoints} {a : UInt16} {p : Processor}
    (h : bs.check? a p = some (false, bs')) : bs' = bs := by
  unfold check? at h
  split at h
  · cases h
    rfl
  · split at h
    · cases h
    · cases h
      rfl
    · obtain ⟨x, -, hx⟩ := Option.map_eq_some_iff.mp h
      cases hx

namespace Session

/-! ### The program by itself -/

/-- The session after so many steps of its program alone. -/
def advances : Nat → Session → Session
  | 0, s => s
  | n + 1, s => (advances n s).advanced

/-- The program has come to a breakpoint whose condition is true. -/
def AtBreakpoint (s : Session) : Prop :=
  (s.debugger.breakpoints.check? s.debugger.processor.pc s.debugger.processor).map Prod.fst = some true

instance (s : Session) : Decidable s.AtBreakpoint := inferInstanceAs (Decidable (_ = _))

/-- Each of the next steps of the program executes an instruction and reads no input, the program has not ended after
    it, and no breakpoint is hit before the step that follows among them. -/
structure Undisturbed (s : Session) (n : Nat) : Prop where
  executes : ∀ m < n, (s.advances m).next.result.toOption.map StepInfo.readInput = some false
  running : ∀ m < n, ¬(s.advances (m + 1)).debugger.processor.Ended
  unhit : ∀ m < n - 1, ¬(s.advances (m + 1)).AtBreakpoint

instance (s : Session) (n : Nat) : Decidable (s.Undisturbed n) :=
  decidable_of_iff
    ((∀ m < n, (s.advances m).next.result.toOption.map StepInfo.readInput = some false) ∧
      (∀ m < n, ¬(s.advances (m + 1)).debugger.processor.Ended) ∧ ∀ m < n - 1, ¬(s.advances (m + 1)).AtBreakpoint)
    ⟨fun ⟨hexecutes, hrunning, hunhit⟩ => ⟨hexecutes, hrunning, hunhit⟩,
      fun h => ⟨h.executes, h.running, h.unhit⟩⟩

theorem Undisturbed.mono {s : Session} {m n : Nat} (h : s.Undisturbed n) (hmn : m ≤ n) : s.Undisturbed m where
  executes l hl := h.executes l (Nat.lt_of_lt_of_le hl hmn)
  running l hl := h.running l (Nat.lt_of_lt_of_le hl hmn)
  unhit l hl := h.unhit l (by omega)

theorem Undisturbed.exists_ok {s : Session} {n m : Nat} (h : s.Undisturbed n) (hm : m < n) :
    ∃ info, (s.advances m).next.result = .ok info ∧ info.readInput = false := by
  have hexecutes := h.executes m hm
  cases hresult : (s.advances m).next.result with
  | error stop =>
    rw [hresult] at hexecutes
    cases hexecutes
  | ok info =>
    rw [hresult] at hexecutes
    exact ⟨info, rfl, Option.some.inj hexecutes⟩

theorem Undisturbed.executed {s : Session} {n : Nat} (h : s.Undisturbed n) :
    (s.advances n).debugger.processor.executed = s.debugger.processor.executed + n := by
  induction n with
  | zero => rfl
  | succ n ih =>
    obtain ⟨info, hresult, -⟩ := h.exists_ok n.lt_succ_self
    calc (s.advances (n + 1)).debugger.processor.executed
        = (s.advances n).debugger.processor.executed + 1 := Processor.executed_of_stepWatched hresult
      _ = s.debugger.processor.executed + (n + 1) := by rw [ih (h.mono n.le_succ), Nat.add_assoc]

/-! ### The program under the countdown -/

/-- The programs of two sessions stand alike, and so does all that their steps depend on. -/
structure Beside (s t : Session) : Prop where
  processor : t.debugger.processor = s.debugger.processor
  recorder : t.debugger.recorder = s.debugger.recorder
  breakpoints : t.debugger.breakpoints = s.debugger.breakpoints
  console : t.console = s.console
  folder : t.folder = s.folder

namespace Beside

variable {s t : Session} (h : Beside s t)
include h

theorem next : t.next = s.next := by
  unfold Session.next
  rw [h.processor, h.recorder, h.console, h.folder]

theorem advanced : Beside s.advanced t.advanced := by
  have hnext := h.next
  constructor
  · exact congrArg (·.processor) hnext
  · exact congrArg (·.watcher.1) hnext
  · exact h.breakpoints
  · exact congrArg (·.console) hnext
  · exact congrArg (·.watcher.2) hnext

theorem atBreakpoint_iff : t.AtBreakpoint ↔ s.AtBreakpoint := by
  unfold AtBreakpoint
  rw [h.breakpoints, h.processor]

end Beside

/-- A step that reads no input, with no function to be finished, is all that a tick does. -/
theorem tick_eq_advanced {u : Session} {info : StepInfo} (hphase : u.phase = .stepping)
    (hfinishing : u.debugger.finishing = none) (hresult : u.next.result = .ok info) (hread : info.readInput = false) :
    u.tick = u.advanced.goTo .deciding := by
  have hfollow : u.advanced.debugger.follow info.flow = u.advanced.debugger := by
    have hnone : u.advanced.debugger.finishing = none := hfinishing
    simp only [Debugger.follow, hnone]
  rw [tick_of_stepping hphase, hresult, afterStep, update, hread]
  simp only [Bool.false_eq_true, if_false, hfollow]

/-- Where no breakpoint is hit the decision changes nothing but the countdown. -/
theorem decide_eq_of_not_atBreakpoint {u : Session} (hu : u.Sound) (hrunning : ¬u.debugger.processor.Ended)
    (hmiss : ¬u.AtBreakpoint) :
    u.decide =
      { u with
        debugger := { u.debugger with countdown := u.debugger.countdown - 1, retrying := false }
        phase := if u.debugger.countdown = 1 then .prompting else .stepping } := by
  obtain ⟨hlocked, hhalted⟩ := not_or.mp hrunning
  have hcheck : checkBreakpoints { u.debugger with countdown := u.debugger.countdown - 1 } =
      some (false, { u.debugger with countdown := u.debugger.countdown - 1, retrying := false }) := by
    by_cases hretry : u.debugger.retrying = true
    · simp [checkBreakpoints, hretry]
    · obtain ⟨hit, bs, hbs, -⟩ := hu.breakpoints.exists_check? u.debugger.processor.pc u.debugger.processor
      have hhit : hit = false := by
        unfold AtBreakpoint at hmiss
        simpa [hbs] using hmiss
      subst hhit
      have hkept := Breakpoints.eq_of_check?_eq_false hbs
      simp [checkBreakpoints, hretry, hbs, hkept]
  unfold decide
  simp only [if_neg hlocked, if_neg hhalted, hcheck, Bool.false_or, beq_iff_eq]

theorem processor_conclude (s : Session) (outcome : Outcome) :
    (s.conclude outcome).debugger.processor = s.debugger.processor := by
  have hstop : s.stopTracing.2.debugger.processor = s.debugger.processor := by
    unfold stopTracing
    split <;> rfl
  unfold conclude
  split <;> next t htrace =>
    rw [htrace] at hstop
    exact hstop

theorem processor_decide (s : Session) : s.decide.debugger.processor = s.debugger.processor := by
  unfold decide
  simp only
  split
  · exact processor_conclude _ _
  split
  · exact processor_conclude _ _
  split
  · rfl
  · next hit d hcheck =>
    obtain ⟨bs, rfl⟩ := eq_of_checkBreakpoints hcheck
    rfl

/-- So many rounds after the session went on it is about to step again, its program stands where it stands by itself,
    and the countdown has run along. -/
structure RunsAlong (s : Session) (n : Nat) : Prop where
  phase : (s.ticks (2 * n)).phase = .stepping
  finishing : (s.ticks (2 * n)).debugger.finishing = none
  countdown : (s.ticks (2 * n)).debugger.countdown = s.debugger.countdown - n
  beside : Beside (s.advances n) (s.ticks (2 * n))

namespace RunsAlong

variable {s : Session} {n : Nat} (h : RunsAlong s n)
include h

theorem tick_eq (hundisturbed : s.Undisturbed (n + 1)) :
    s.ticks (2 * n + 1) = (s.ticks (2 * n)).advanced.goTo .deciding := by
  obtain ⟨info, hresult, hread⟩ := hundisturbed.exists_ok n.lt_succ_self
  rw [← h.beside.next] at hresult
  rw [ticks_succ']
  exact tick_eq_advanced h.phase h.finishing hresult hread

theorem beside_tick (hundisturbed : s.Undisturbed (n + 1)) : Beside (s.advances (n + 1)) (s.ticks (2 * n + 1)) := by
  rw [h.tick_eq hundisturbed]
  exact ⟨h.beside.advanced.processor, h.beside.advanced.recorder, h.beside.advanced.breakpoints,
    h.beside.advanced.console, h.beside.advanced.folder⟩

theorem not_ended_tick (hundisturbed : s.Undisturbed (n + 1)) :
    ¬(s.ticks (2 * n + 1)).debugger.processor.Ended := by
  rw [(h.beside_tick hundisturbed).processor]
  exact hundisturbed.running n n.lt_succ_self

theorem tick_tick_eq (hundisturbed : s.Undisturbed (n + 1)) :
    s.ticks (2 * (n + 1)) = (s.ticks (2 * n + 1)).decide := by
  rw [show 2 * (n + 1) = 2 * n + 1 + 1 from rfl, ticks_succ', tick, h.tick_eq hundisturbed]
  rfl

theorem succ (hs : s.Sound) (hundisturbed : s.Undisturbed (n + 2)) (hleft : s.debugger.countdown - n ≠ 1) :
    RunsAlong s (n + 1) := by
  have hfirst : s.Undisturbed (n + 1) := hundisturbed.mono (n + 1).le_succ
  have hbeside := h.beside_tick hfirst
  have hmiss : ¬(s.ticks (2 * n + 1)).AtBreakpoint := by
    rw [hbeside.atBreakpoint_iff]
    exact hundisturbed.unhit n n.lt_succ_self
  have hdecide := decide_eq_of_not_atBreakpoint (hs.ticks _) (h.not_ended_tick hfirst) hmiss
  rw [← h.tick_tick_eq hfirst] at hdecide
  have hcountdown : (s.ticks (2 * n + 1)).debugger.countdown = s.debugger.countdown - n := by
    rw [h.tick_eq hfirst]
    exact h.countdown
  rw [hcountdown, if_neg hleft] at hdecide
  constructor
  · rw [hdecide]
  · rw [hdecide, h.tick_eq hfirst]
    exact h.finishing
  · rw [hdecide]
    exact Nat.sub_sub _ _ _
  · rw [hdecide]
    exact ⟨hbeside.processor, hbeside.recorder, hbeside.breakpoints, hbeside.console, hbeside.folder⟩

/-- The round in which the countdown is one ends at a prompt, whether or not a breakpoint is hit there. -/
theorem prompting (hs : s.Sound) (hundisturbed : s.Undisturbed (n + 1)) (hleft : s.debugger.countdown - n = 1) :
    (s.ticks (2 * (n + 1))).phase = .prompting ∧
      (s.ticks (2 * (n + 1))).debugger.processor = (s.advances (n + 1)).debugger.processor := by
  have hcountdown : (s.ticks (2 * n + 1)).debugger.countdown = 1 := by
    rw [h.tick_eq hundisturbed]
    exact h.countdown.trans hleft
  rw [h.tick_tick_eq hundisturbed, ← (h.beside_tick hundisturbed).processor]
  rcases decide_cases (hs.ticks (2 * n + 1)) with ⟨hended, -⟩ | ⟨-, -, hphase⟩
  · exact absurd hended (h.not_ended_tick hundisturbed)
  · rw [if_pos (.inr hcountdown)] at hphase
    exact ⟨hphase, processor_decide _⟩

theorem phase_ne_prompting (hundisturbed : s.Undisturbed (n + 1)) {m : Nat} (hm : m = 2 * n ∨ m = 2 * n + 1) :
    (s.ticks m).phase ≠ .prompting := by
  rcases hm with rfl | rfl
  · simp [h.phase]
  · rw [h.tick_eq hundisturbed]
    exact nofun

end RunsAlong

/-- The countdown has not run out before the last round. -/
theorem Undisturbed.runsAlong {s : Session} {n m : Nat} (h : s.Undisturbed n) (hs : s.Sound)
    (hphase : s.phase = .stepping) (hfinishing : s.debugger.finishing = none)
    (hcountdown : s.debugger.countdown = 0 ∨ n ≤ s.debugger.countdown) (hm : m < n) : RunsAlong s m := by
  induction m with
  | zero => exact ⟨hphase, hfinishing, rfl, ⟨rfl, rfl, rfl, rfl, rfl⟩⟩
  | succ m ih => exact (ih (by omega)).succ hs (h.mono hm) (by omega)

theorem Undisturbed.silent {s : Session} {n : Nat} (h : s.Undisturbed n) (hs : s.Sound) (hphase : s.phase = .stepping)
    (hfinishing : s.debugger.finishing = none) (hcountdown : s.debugger.countdown = 0 ∨ n ≤ s.debugger.countdown)
    {m : Nat} (hm : m < 2 * n) : (s.ticks m).phase ≠ .prompting := by
  have hhalf : m / 2 < n := by omega
  exact (h.runsAlong hs hphase hfinishing hcountdown hhalf).phase_ne_prompting (h.mono hhalf) (by omega)

/-! ### The command -/

/-- A number of steps above zero brings the next prompt after exactly that many instructions, if nothing disturbs the
    program until then. With zero the program goes on for as long as nothing disturbs it. -/
theorem prompts_after_count {s : Session} (hs : s.Sound) {count : Nat} (hcommand : s.command? = some (.step count))
    (hfinishing : s.debugger.finishing = none) :
    (count ≠ 0 → s.tick.Undisturbed count →
      (∀ m < 2 * count, (s.tick.ticks m).phase ≠ .prompting) ∧
        (s.tick.ticks (2 * count)).phase = .prompting ∧
        (s.tick.ticks (2 * count)).debugger.processor = (s.tick.advances count).debugger.processor ∧
        (s.tick.ticks (2 * count)).debugger.processor.executed = s.debugger.processor.executed + count) ∧
    (count = 0 → ∀ n, s.tick.Undisturbed n → ∀ m < n,
      (s.tick.ticks (2 * m)).phase = .stepping ∧ (s.tick.ticks (2 * m + 1)).phase = .deciding ∧
        (s.tick.ticks (2 * m)).debugger.processor = (s.tick.advances m).debugger.processor ∧
        (s.tick.ticks (2 * m)).debugger.processor.executed = s.debugger.processor.executed + m) := by
  obtain ⟨line, t, ht, htick⟩ := tick_of_command? hcommand
  have hphase : s.tick.phase = .stepping := by
    rw [htick]
    rfl
  have hdebugger : s.tick.debugger = { s.debugger with lastLine := some line, countdown := count } := by
    rw [htick]
    exact congrArg ({ · with countdown := count }) ht
  have hnone : s.tick.debugger.finishing = none := by rw [hdebugger, hfinishing]
  have hcount : s.tick.debugger.countdown = count := by rw [hdebugger]
  have hexecuted : s.tick.debugger.processor.executed = s.debugger.processor.executed := by rw [hdebugger]
  rw [← hexecuted]
  constructor
  · intro hpos hundisturbed
    have hcountdown : s.tick.debugger.countdown = 0 ∨ count ≤ s.tick.debugger.countdown := .inr hcount.ge
    obtain ⟨n, rfl⟩ := Nat.exists_eq_succ_of_ne_zero hpos
    have halong := hundisturbed.runsAlong hs.tick hphase hnone hcountdown n.lt_succ_self
    obtain ⟨hprompting, hprocessor⟩ := halong.prompting hs.tick hundisturbed (by omega)
    refine ⟨fun m hm => hundisturbed.silent hs.tick hphase hnone hcountdown hm, hprompting, hprocessor, ?_⟩
    rw [hprocessor, hundisturbed.executed]
  · intro hzero n hundisturbed m hm
    have halong := hundisturbed.runsAlong hs.tick hphase hnone (.inl (hcount.trans hzero)) hm
    refine ⟨halong.phase, ?_, halong.beside.processor, ?_⟩
    · rw [halong.tick_eq (hundisturbed.mono hm)]
      rfl
    · rw [halong.beside.processor, (hundisturbed.mono hm.le).executed]

/-- Two steps of a program that goes on after them. -/
theorem prompts_after_count_two :
    let m := (Memory.zero.writeWords 0x4400 [0x4303, 0x4303, 0x4303]).writeWord Memory.resetAddress 0x4400
    let s := (opened m {} none {} {} (.lines [.line "s 2"])).ticks 1
    s.command? = some (.step 2) ∧ s.debugger.finishing = none ∧ s.tick.Undisturbed 2 ∧
      (∀ k < 4, (s.tick.ticks k).phase ≠ .prompting) ∧ (s.tick.ticks 4).phase = .prompting ∧
      (s.tick.ticks 4).debugger.processor.executed = 2 := by
  intro m s
  have hs : s.Sound := (sound_opened m {} none {} {} (.lines _)).ticks 1
  have hcommand : s.command? = some (.step 2) := by decide
  have hfinishing : s.debugger.finishing = none := by decide
  have hundisturbed : s.tick.Undisturbed 2 := by decide
  have hstart : s.debugger.processor.executed = 0 := by decide
  obtain ⟨hsilent, hprompting, -, hexecuted⟩ := (prompts_after_count hs hcommand hfinishing).1 two_ne_zero hundisturbed
  rw [hstart] at hexecuted
  exact ⟨hcommand, hfinishing, hundisturbed, hsilent, hprompting, hexecuted⟩

/-- A number of steps of zero is not taken for none: the program runs until it halts, three instructions later, and
    nothing asks for a prompt. -/
theorem prompts_after_count_zero :
    let m := (Memory.zero.writeWords 0x4400 [0x4303, 0x4303, 0xd032, 0x0010]).writeWord Memory.resetAddress 0x4400
    let s := (opened m {} none {} {} (.lines [.line "s 0"])).ticks 1
    s.command? = some (.step 0) ∧ s.debugger.finishing = none ∧ s.debugger.processor.executed = 0 ∧
      (∀ k < 7, (s.tick.ticks k).phase ≠ .prompting) ∧ (s.tick.ticks 7).phase = .ended .halted ∧
      (s.tick.ticks 7).debugger.processor.executed = 3 := by
  decide

end Session
end MicroDebug

import MicroDebug.Proofs.Debugger.Ticks

/-! The mark of a cancelled request. It stands from the step in which the request was cancelled to the decision right
    after it, so it is never there at a prompt or when a step begins. -/

namespace MicroDebug
namespace Session

/-- At a prompt and when a step begins no request is marked as cancelled. -/
def Settled (s : Session) : Prop := s.phase = .prompting ∨ s.phase = .stepping → s.debugger.retrying = false

instance (s : Session) : Decidable s.Settled := inferInstanceAs (Decidable (_ → _))

theorem settled_of_ended {s : Session} (h : ∃ outcome, s.phase = .ended outcome) : s.Settled := by
  obtain ⟨outcome, houtcome⟩ := h
  intro hphase
  rw [houtcome] at hphase
  rcases hphase with hphase | hphase <;> cases hphase

theorem retrying_stopTracing (s : Session) : s.stopTracing.2.debugger.retrying = s.debugger.retrying := by
  unfold stopTracing
  split <;> rfl

theorem retrying_execute (s : Session) (c : Command) (h : s.debugger.retrying = false) :
    (s.execute c).debugger.retrying = false := by
  cases c with
  | dump path =>
    simp only [execute, dump]
    split <;> exact h
  | print e =>
    simp only [execute, print]
    split <;> exact h
  | assign x =>
    simp only [execute, assign]
    split <;> exact h
  | setTemporary a count =>
    simp only [execute, setTemporary]
    split <;> exact h
  | trace path =>
    cases path with
    | none =>
      have hstop := retrying_stopTracing s
      simp only [execute]
      split <;> next t htrace =>
        rw [htrace] at hstop
        exact hstop.trans h
    | some path =>
      simp only [execute, startTracing]
      split
      · exact h
      · next folder hfolder =>
        have hstop := retrying_stopTracing { s with folder := folder }
        split <;> next t htrace =>
          rw [htrace] at hstop
          exact hstop.trans h
  | removeBreakpoint a =>
    cases a with
    | none => exact h
    | some a =>
      simp only [execute, removeBreakpoint]
      split <;> exact h
  | reset => rfl
  | backtrace | setBreakpoint a condition | listBreakpoints | resume | disassemble a | finish | help | executed | memory a
  | inputMode mode | step count | track r | untrack r => exact h

theorem Settled.tick {s : Session} (h : s.Settled) : s.tick.Settled := by
  cases hphase : s.phase with
  | ended outcome => exact settled_of_ended ⟨outcome, by rw [tick_of_ended hphase, hphase]⟩
  | stepping =>
    rcases deciding_or_ended hphase with hdeciding | hended
    · intro hnext
      rw [hdeciding] at hnext
      rcases hnext with hnext | hnext <;> cases hnext
    · exact settled_of_ended hended
  | prompting =>
    have hretry := h (.inl hphase)
    obtain ⟨t, ht, hcases⟩ := s.prompt_cases
    have htretry : t.debugger.retrying = false := by rw [ht, hretry]
    rw [Session.tick, hphase]
    show s.prompt.Settled
    rcases hcases with ⟨line, -, hprompt⟩ | ⟨-, hprompt | hprompt | ⟨e, hprompt⟩⟩ <;> rw [hprompt]
    · intro _
      unfold runLine
      split
      · exact htretry
      · exact retrying_execute _ _ htretry
    · exact fun _ => htretry
    · exact settled_of_ended (ended_conclude _ _)
    · exact settled_of_ended ⟨_, rfl⟩
  | deciding =>
    rw [Session.tick, hphase]
    show s.decide.Settled
    unfold decide
    simp only
    split
    · exact settled_of_ended (ended_conclude _ _)
    split
    · exact settled_of_ended (ended_conclude _ _)
    split
    · exact settled_of_ended ⟨_, rfl⟩
    · next hit d hcheck =>
      intro _
      obtain ⟨bs, rfl⟩ := eq_of_checkBreakpoints hcheck
      rfl

theorem Settled.ticks {s : Session} (h : s.Settled) (n : Nat) : (s.ticks n).Settled := by
  induction n with
  | zero => exact h
  | succ n ih =>
    rw [ticks_succ']
    exact ih.tick

theorem settled_opened (image : Memory) (o : Options) (trace : Option Recorder) (c : Console) (f : Folder)
    (commands : CommandSource) : (opened image o trace c f commands).Settled := fun _ => rfl

end Session
end MicroDebug

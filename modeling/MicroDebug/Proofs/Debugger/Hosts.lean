import MicroDebug.Proofs.Debugger.Session
import MicroDebug.Proofs.Processor.Hosts

/-! What a session has shown before has no part in what it does. Two sessions that differ in no more than that go on in
    the same way: each tick leads them to the same phase and shows the same. -/

namespace MicroDebug
namespace Session

/-- The second session is the first one with a host that has been shown some things before. -/
def After (before : Array Shown) (s t : Session) : Prop :=
  ∃ d, s.console.After before d ∧ t = { s with console := d }

namespace After

variable {before : Array Shown} {s t : Session} (h : s.After before t)
include h

theorem debugger : t.debugger = s.debugger := by
  obtain ⟨d, -, rfl⟩ := h
  rfl

theorem phase : t.phase = s.phase := by
  obtain ⟨d, -, rfl⟩ := h
  rfl

theorem report (text : String) : (s.report text).After before (t.report text) := by
  obtain ⟨d, hd, rfl⟩ := h
  exact ⟨_, hd.report text, rfl⟩

theorem goTo (phase : Phase) : (s.goTo phase).After before (t.goTo phase) := by
  obtain ⟨d, hd, rfl⟩ := h
  exact ⟨d, hd, rfl⟩

theorem update (f : Debugger → Debugger) : (s.update f).After before (t.update f) := by
  obtain ⟨d, hd, rfl⟩ := h
  exact ⟨d, hd, rfl⟩

theorem withFolder (f : Folder) : After before { s with folder := f } { t with folder := f } := by
  obtain ⟨d, hd, rfl⟩ := h
  exact ⟨d, hd, rfl⟩

theorem fail (e : SessionError) : (s.fail e).After before (t.fail e) := h.goTo _

theorem reportCount : s.reportCount.After before t.reportCount := by
  rw [Session.reportCount, Session.reportCount, h.debugger]
  exact h.report _

/-! ### Commands -/

theorem stopTracing :
    ∃ result s' t', s.stopTracing = (result, s') ∧ t.stopTracing = (result, t') ∧ s'.After before t' := by
  obtain ⟨d, hd, rfl⟩ := h
  simp only [Session.stopTracing]
  cases s.debugger.recorder with
  | none => exact ⟨_, _, _, rfl, rfl, d, hd, rfl⟩
  | some r => exact ⟨_, _, _, rfl, rfl, d, hd, rfl⟩

theorem conclude (outcome : Outcome) : (s.conclude outcome).After before (t.conclude outcome) := by
  obtain ⟨result, s', t', hs, ht, hafter⟩ := h.stopTracing
  rw [Session.conclude, Session.conclude, hs, ht]
  cases result with
  | error reason => exact hafter.fail _
  | ok => exact hafter.goTo _

theorem quit : s.quit.After before t.quit := (h.report _).conclude _

theorem startTracing (path : String) : (s.startTracing path).After before (t.startTracing path) := by
  have hfolder : t.folder = s.folder := by
    obtain ⟨d, -, rfl⟩ := h
    rfl
  rw [Session.startTracing, Session.startTracing, hfolder]
  cases s.folder.create path with
  | error reason => exact h.report _
  | ok folder =>
    obtain ⟨result, s', t', hs, ht, hafter⟩ := (h.withFolder folder).stopTracing
    simp only [hs, ht]
    cases result with
    | error reason => exact hafter.fail _
    | ok => exact hafter.update _

theorem dump (path : String) : (s.dump path).After before (t.dump path) := by
  have hcopy := h
  obtain ⟨d, -, rfl⟩ := h
  rw [Session.dump, Session.dump]
  cases s.folder.create path with
  | error reason => exact hcopy.report _
  | ok folder => exact hcopy.withFolder _

theorem execute (c : Command) : (s.execute c).After before (t.execute c) := by
  have hdebugger := h.debugger
  cases c with
  | backtrace | listBreakpoints | disassemble a | executed | memory a =>
    simp only [Session.execute, hdebugger]
    exact h.report _
  | help => exact h.report _
  | setBreakpoint a condition | track r | untrack r => exact h.update _
  | resume => exact h.goTo _
  | finish | reset | step count => exact (h.update _).goTo _
  | dump path => exact h.dump path
  | print e =>
    simp only [Session.execute, print, hdebugger]
    cases e.evaluate? s.debugger.processor with
    | none => exact h.fail _
    | some v => exact h.report _
  | assign x =>
    simp only [Session.execute, assign, hdebugger]
    cases x.perform? s.debugger.processor with
    | none => exact h.fail _
    | some p => exact h.update _
  | inputMode mode => exact (h.update _).report _
  | setTemporary a count =>
    simp only [Session.execute, setTemporary, hdebugger]
    cases s.debugger.breakpoints.setTemporary? a count with
    | none => exact h.fail _
    | some bs => exact h.update _
  | trace path =>
    cases path with
    | some path => exact h.startTracing path
    | none =>
      obtain ⟨result, s', t', hs, ht, hafter⟩ := h.stopTracing
      simp only [Session.execute, hs, ht]
      cases result with
      | error reason => exact hafter.fail _
      | ok => exact hafter
  | removeBreakpoint a =>
    cases a with
    | none => exact h.update _
    | some a =>
      simp only [Session.execute, removeBreakpoint, hdebugger]
      cases s.debugger.breakpoints.find? a with
      | none => exact h.report _
      | some b => exact h.update _

theorem runLine (line : String) : (s.runLine line).After before (t.runLine line) := by
  rw [Session.runLine, Session.runLine]
  cases Command.parse line with
  | error e => exact (h.update _).report _
  | ok c => exact (h.update _).execute c

theorem readLine :
    ∃ answer s' t', s.readLine = (answer, s') ∧ t.readLine = (answer, t') ∧ s'.After before t' := by
  obtain ⟨d, hd, rfl⟩ := h
  cases hcommands : s.commands with
  | console =>
    obtain ⟨answer, c', d', hc, hd', hafter⟩ := hd.take
    simp only [Session.readLine, hcommands, hc, hd']
    exact ⟨_, _, _, rfl, rfl, d', hafter, rfl⟩
  | lines answers =>
    simp only [Session.readLine, hcommands]
    cases answers with
    | nil => exact ⟨_, _, _, rfl, rfl, d, hd, by rw [hcommands]⟩
    | cons answer rest => exact ⟨_, _, _, rfl, rfl, d, hd, rfl⟩
  | file reader =>
    simp only [Session.readLine, hcommands]
    exact ⟨_, _, _, rfl, rfl, d, hd, rfl⟩

/-! ### Phases -/

theorem prompt : s.prompt.After before t.prompt := by
  obtain ⟨answer, s', t', hs, ht, hafter⟩ :=
    (h.report (View.state s.debugger.processor s.debugger.tracked s.debugger.colours ++ "> ")).readLine
  simp only [Session.prompt, h.debugger, hs, ht]
  cases answer with
  | failed reason | unreadable => exact hafter.fail _
  | ended | cancelled => exact hafter.quit
  | line line =>
    simp only [hafter.debugger]
    split
    · cases s'.debugger.lastLine with
      | none => exact hafter
      | some last => exact hafter.runLine last
    · exact hafter.runLine line

theorem decide : s.decide.After before t.decide := by
  have hdebugger := h.debugger
  simp only [Session.decide, hdebugger]
  split
  · exact h.reportCount.conclude _
  split
  · exact (h.report _).reportCount.conclude _
  split
  · exact h.fail _
  · exact (h.update fun _ => _).goTo _

theorem afterStep (result : Except Stop StepInfo) : (s.afterStep result).After before (t.afterStep result) := by
  rcases result with stop | info
  · cases stop with
    | halted | unlocked => exact h.goTo _
    | endOfInput => exact h.quit
    | cancelled => exact (h.update _).goTo _
    | unreadable => exact h.fail _
    | fault f => exact (h.report _).reportCount.conclude _
  · exact (h.update _).goTo _

theorem step : s.step.After before t.step := by
  obtain ⟨d, hd, rfl⟩ := h
  obtain ⟨e, he, hstep⟩ := Processor.stepWatched_after hd s.debugger.processor Recorder.watch
    (s.debugger.recorder, s.folder)
  simp only [Session.step, hstep]
  exact afterStep ⟨e, he, rfl⟩ _

theorem tick : s.tick.After before t.tick := by
  rw [Session.tick, Session.tick, h.phase]
  split
  · exact h.decide
  · exact h.prompt
  · exact h.step
  · exact h

/-- However long they go on, one session shows what the other one does after what it had shown before. -/
theorem ticks (n : Nat) : (s.ticks n).After before (t.ticks n) := by
  induction n generalizing s t with
  | zero => exact h
  | succ n ih => exact ih h.tick

end After
end Session
end MicroDebug

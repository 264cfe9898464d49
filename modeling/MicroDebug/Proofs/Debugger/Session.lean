import MicroDebug.Debugger.Session
import MicroDebug.Proofs.Debugger.Commands
import MicroDebug.Proofs.Processor.AllOrNothing

/-! A session never gets into a state that was thought impossible. Whatever the commands are and whatever the
    host answers, expressions have values, breakpoints have hits left and instructions have operands that suit
    them. One lemma for each part of a session says that the part keeps this. -/

namespace MicroDebug

theorem Debugger.breakpoints_follow (d : Debugger) (flow : Flow) : (d.follow flow).breakpoints = d.breakpoints := by
  rcases hfinishing : d.finishing with _ | _ | depth <;> cases flow <;> simp only [follow, hfinishing]

namespace Session

/-- The session has not broken off for want of a value or a hit, and its breakpoints make sense. -/
structure Sound (s : Session) : Prop where
  breakpoints : s.debugger.breakpoints.Sound
  phase : s.phase ≠ .ended (.broken .stuck)

namespace Sound

variable {s : Session} (h : s.Sound)
include h

/-! ### Parts that keep the breakpoints -/

theorem report (text : String) : (s.report text).Sound := ⟨h.breakpoints, h.phase⟩

theorem reportCount : s.reportCount.Sound := h.report _

theorem goTo {phase : Phase} (hphase : phase ≠ .ended (.broken .stuck)) : (s.goTo phase).Sound :=
  ⟨h.breakpoints, hphase⟩

theorem fail {e : SessionError} (he : e ≠ .stuck) : (s.fail e).Sound :=
  h.goTo fun hphase => he (Outcome.broken.inj (Phase.ended.inj hphase))

theorem update {f : Debugger → Debugger} (hf : (f s.debugger).breakpoints.Sound) : (s.update f).Sound :=
  ⟨hf, h.phase⟩

/-- Ending a trace goes well, or there is a reason to break the session off. -/
theorem stopTracing_cases :
    (∃ t, s.stopTracing = (.ok (), t) ∧ t.Sound) ∨
    ∃ reason t, s.stopTracing = (.error reason, t) ∧ (t.fail (.trace reason)).Sound := by
  have hstop : s.stopTracing.2.Sound := by
    rw [Session.stopTracing]
    split
    · exact h
    · exact ⟨h.breakpoints, h.phase⟩
  rcases htrace : s.stopTracing with ⟨reason | _, t⟩ <;> rw [htrace] at hstop
  · exact .inr ⟨reason, t, rfl, hstop.fail nofun⟩
  · exact .inl ⟨t, rfl, hstop⟩

theorem conclude {outcome : Outcome} (houtcome : outcome ≠ .broken .stuck) : (s.conclude outcome).Sound := by
  obtain ⟨t, htrace, ht⟩ | ⟨reason, t, htrace, ht⟩ := h.stopTracing_cases
  · rw [Session.conclude, htrace]
    exact ht.goTo fun hphase => houtcome (Phase.ended.inj hphase)
  · rw [Session.conclude, htrace]
    exact ht

theorem quit : s.quit.Sound := (h.report _).conclude nofun

theorem startTracing (path : String) : (s.startTracing path).Sound := by
  rw [Session.startTracing]
  split
  · exact h.report _
  · next folder hfolder =>
    have hs : Sound { s with folder := folder } := ⟨h.breakpoints, h.phase⟩
    obtain ⟨t, htrace, ht⟩ | ⟨reason, t, htrace, ht⟩ := hs.stopTracing_cases
    · rw [htrace]
      exact ⟨ht.breakpoints, ht.phase⟩
    · rw [htrace]
      exact ht

theorem dump (path : String) : (s.dump path).Sound := by
  rw [Session.dump]
  split
  · exact h.report _
  · exact ⟨h.breakpoints, h.phase⟩

theorem setInputMode (mode : InputMode) : (s.setInputMode mode).Sound := (h.update h.breakpoints).report _

/-! ### Commands -/

theorem endTrace : (s.execute (.trace none)).Sound := by
  obtain ⟨t, htrace, ht⟩ | ⟨reason, t, htrace, ht⟩ := h.stopTracing_cases
  · simp only [Session.execute, htrace]
    exact ht
  · simp only [Session.execute, htrace]
    exact ht

theorem print {e : Postfix} (he : e.Sound) : (s.print e).Sound := by
  obtain ⟨v, hv, -⟩ := he.exists_evaluate? s.debugger.processor
  rw [Session.print, hv]
  exact h.report _

theorem assign {x : Assignment} (hx : x.Sound) : (s.assign x).Sound := by
  obtain ⟨p, hp⟩ := hx.exists_perform? s.debugger.processor
  rw [Session.assign, hp]
  exact h.update h.breakpoints

theorem setTemporary (a : UInt16) {count : Nat} (hcount : count ≠ 0) : (s.setTemporary a count).Sound := by
  obtain ⟨bs, hbs, hsound⟩ := h.breakpoints.exists_setTemporary? a hcount
  rw [Session.setTemporary, hbs]
  exact h.update hsound

theorem removeBreakpoint (a : UInt16) : (s.removeBreakpoint a).Sound := by
  rw [Session.removeBreakpoint]
  split
  · exact h.update (h.breakpoints.erase a)
  · exact h.report _

theorem execute {c : Command} (hc : c.Sound) : (s.execute c).Sound := by
  cases c with
  | backtrace | listBreakpoints | disassemble a | help | executed | memory a => exact h.report _
  | setBreakpoint a condition => exact ⟨h.breakpoints.setPermanent hc a, h.phase⟩
  | resume => exact h.goTo nofun
  | dump path => exact h.dump path
  | finish | step count => exact ⟨h.breakpoints, nofun⟩
  | print e => exact h.print hc
  | reset => exact ⟨h.breakpoints, nofun⟩
  | assign x => exact h.assign hc
  | inputMode mode => exact h.setInputMode mode
  | setTemporary a count => exact h.setTemporary a hc
  | trace path =>
    cases path with
    | some path => exact h.startTracing path
    | none => exact h.endTrace
  | track r | untrack r => exact ⟨h.breakpoints, h.phase⟩
  | removeBreakpoint a =>
    cases a with
    | some a => exact h.removeBreakpoint a
    | none => exact ⟨fun x hx => absurd hx List.not_mem_nil, h.phase⟩

theorem runLine (line : String) : (s.runLine line).Sound := by
  have hline : (s.update ({ · with lastLine := some line })).Sound := h.update h.breakpoints
  rw [Session.runLine]
  split
  · exact hline.report _
  · next c hc => exact hline.execute (Command.sound_parse hc)

theorem readLine : s.readLine.2.Sound := by
  rw [Session.readLine]
  split
  · exact ⟨h.breakpoints, h.phase⟩
  · exact h
  · exact ⟨h.breakpoints, h.phase⟩
  · exact ⟨h.breakpoints, h.phase⟩

/-! ### Phases -/

theorem prompt : s.prompt.Sound := by
  have hread := (h.report (View.state s.debugger.processor s.debugger.tracked s.debugger.colours ++ "> ")).readLine
  rw [Session.prompt]
  split
  · next reason t ht =>
    rw [ht] at hread
    exact hread.fail nofun
  · next t ht =>
    rw [ht] at hread
    exact hread.fail nofun
  · next t ht =>
    rw [ht] at hread
    exact hread.quit
  · next t ht =>
    rw [ht] at hread
    exact hread.quit
  · next line t ht =>
    rw [ht] at hread
    split
    · split
      · exact hread.runLine _
      · exact hread
    · exact hread.runLine line

theorem decide : s.decide.Sound := by
  rw [Session.decide]
  split
  · exact h.reportCount.conclude nofun
  split
  · exact (h.report _).reportCount.conclude nofun
  by_cases hretry : s.debugger.retrying = true
  · simp only [checkBreakpoints, hretry, if_true]
    refine ⟨h.breakpoints, ?_⟩
    split <;> exact nofun
  · obtain ⟨hit, bs, hcheck, hbs⟩ := h.breakpoints.exists_check? s.debugger.processor.pc s.debugger.processor
    simp only [checkBreakpoints, if_neg hretry, hcheck, Option.map_some]
    refine ⟨hbs, ?_⟩
    split <;> exact nofun

theorem afterStep (result : Except Stop StepInfo) : (s.afterStep result).Sound := by
  rcases result with stop | info
  · cases stop with
    | halted | unlocked => exact h.goTo nofun
    | endOfInput => exact h.quit
    | cancelled => exact ⟨h.breakpoints, nofun⟩
    | unreadable => exact h.fail nofun
    | fault f => exact (h.report _).reportCount.conclude nofun
  · have hasked : (if info.readInput then { s.debugger with countdown := 1 } else s.debugger).breakpoints.Sound := by
      split <;> exact h.breakpoints
    rw [← Debugger.breakpoints_follow _ info.flow] at hasked
    exact ⟨hasked, nofun⟩

theorem step : s.step.Sound := by
  rw [Session.step]
  refine afterStep ?_ _
  exact ⟨h.breakpoints, h.phase⟩

theorem tick : s.tick.Sound := by
  rw [Session.tick]
  split
  · exact h.decide
  · exact h.prompt
  · exact h.step
  · exact h

end Sound

/-! ### Runs -/

/-- The session after so many ticks. -/
def ticks : Nat → Session → Session
  | 0, s => s
  | n + 1, s => ticks n s.tick

/-- A session for an image, with a trace that may have been asked for at the start. -/
def opened (image : Memory) (o : Options) (trace : Option Recorder) (c : Console) (f : Folder)
    (commands : CommandSource) : Session where
  debugger := { Debugger.new image o with recorder := trace }
  console := c
  folder := f
  commands := commands

theorem Sound.ticks {s : Session} (h : s.Sound) (n : Nat) : (s.ticks n).Sound := by
  induction n generalizing s with
  | zero => exact h
  | succ n ih => exact ih h.tick

theorem sound_opened (image : Memory) (o : Options) (trace : Option Recorder) (c : Console) (f : Folder)
    (commands : CommandSource) : (opened image o trace c f commands).Sound :=
  ⟨fun _ hx => absurd hx List.not_mem_nil, nofun⟩

/-- Nothing in a session is ever found to be impossible. A pass over any expression finds the constants that it
    takes back and comes to one mark, and what it compiles to leaves one value of its type. After any number of
    ticks no value and no hit was missing, every breakpoint has a hit left and a condition with a truth value,
    and the operands of the next instruction suit its operation. -/
theorem never_stuck :
    (∀ e : Expr, ∃ c, e.subexpressions.foldlM Compiler.look {} = some c ∧ c.marks.length = 1 ∧
      ∀ code, c.finish = .ok code → ∀ p, ∃ v, Postfix.run p code.ops [] = some [v] ∧ v.type = code.type) ∧
    ∀ (image : Memory) (o : Options) (trace : Option Recorder) (c : Console) (f : Folder)
      (commands : CommandSource) (n : Nat),
      let s := (opened image o trace c f commands).ticks n
      s.phase ≠ .ended (.broken .stuck) ∧
        (∀ x ∈ s.debugger.breakpoints.entries, x.2.remaining ≠ some 0 ∧
          ∀ g, x.2.condition = some g → ∀ p, ∃ b, g.test.evaluate? p = some (.bool b)) ∧
        (s.debugger.processor.stepWatched Recorder.watch (s.debugger.recorder, s.folder) s.console).result ≠
          .error (.fault .unsuitable) := by
  refine ⟨fun e => ?_, fun image o trace c f commands n => ?_⟩
  · obtain ⟨c, hpass, hadds⟩ := Compiler.foldlM_look e {}
    rw [← e.subexpressions_eq] at hpass
    have hcompile : e.compile = c.finish := by simp only [Expr.compile, hpass, Option.get_some]
    exact ⟨c, hpass, by rw [hadds.marks]; rfl, fun code hcode => Postfix.sound_of_compile (hcompile.trans hcode)⟩
  · intro s
    have hs : s.Sound := (sound_opened image o trace c f commands).ticks n
    refine ⟨hs.phase, fun x hx => ?_, Processor.stepWatched_suitable _ _ _ _⟩
    have hbreak := hs.breakpoints x hx
    refine ⟨hbreak.remaining, fun g hg p => ?_⟩
    have hguard := hbreak.condition g hg
    exact hguard.test.exists_evaluate?_bool p hguard.type

/-- A breakpoint with a condition and a temporary one. -/
theorem never_stuck_with_breakpoints :
    let s := (opened Memory.zero {} none {} {}
      (.lines [.line "break 4402 if r5 == 3", .line "tbreak 4404 2", .line "print mem[0 - 1] + 1"])).ticks 4
    s.phase = .prompting ∧
      s.debugger.breakpoints.entries.map (fun x => (x.1, x.2.remaining)) = [(0x4402, none), (0x4404, some 2)] ∧
      ∀ x ∈ s.debugger.breakpoints.entries, ∀ g, x.2.condition = some g →
        ∃ b, g.test.evaluate? s.debugger.processor = some (.bool b) := by
  obtain ⟨-, hbreakpoints, -⟩ := never_stuck.2 Memory.zero {} none {} {}
    (.lines [.line "break 4402 if r5 == 3", .line "tbreak 4404 2", .line "print mem[0 - 1] + 1"]) 4
  exact ⟨by decide +kernel, by decide +kernel, fun x hx g hg => (hbreakpoints x hx).2 g hg _⟩

end Session
end MicroDebug

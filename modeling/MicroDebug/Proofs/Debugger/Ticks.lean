import MicroDebug.Proofs.Debugger.Session
import MicroDebug.Proofs.Processor.Calls

/-! What the ticks of a session do to the depth of the calls, to the function that is to be finished and to the
    countdown. Each phase has its cases, told by what is entered at a prompt or by how a step went. The steps of a
    run leave a list of flows, and the calls and the function to be finished follow that list. -/

namespace MicroDebug

/-- The program has unlocked the door or halted. -/
def Processor.Ended (p : Processor) : Prop := p.unlocked = true ∨ p.isHalted = true

instance (p : Processor) : Decidable p.Ended := inferInstanceAs (Decidable (_ ∨ _))

theorem Processor.ended_of_stepWatched {σ : Type} {watch : Watcher σ} {s : σ} {p : Processor} {c : Console}
    {stop : Stop} (h : (p.stepWatched watch s c).result = .error stop) (hstop : stop = .halted ∨ stop = .unlocked) :
    (p.stepWatched watch s c).processor.Ended := by
  obtain ⟨stopped, d, hfetch, -, -, hstep⟩ | ⟨f, d, reason, t, -, -, -, hstep⟩ | ⟨f, d, t, m, -, -, -, -, hstep⟩ :=
    stepWatched_cases watch s p c
  all_goals
    rw [hstep] at h ⊢
    cases h
  · exact ended_of_fetch hfetch hstop
  · simp at hstop

/-- How many calls must return before the function to be finished can, after a step that left its instruction in
    some way. -/
def followed : Option Nat → Flow → Option Nat
  | some depth, .call => some (depth + 1)
  | some 0, .ret => none
  | some (depth + 1), .ret => some depth
  | finishing, _ => finishing

namespace Debugger

theorem follow_eq (d : Debugger) (flow : Flow) :
    d.follow flow =
      { d with
        finishing := followed d.finishing flow
        countdown := if d.finishing = some 0 ∧ flow = .ret then 1 else d.countdown } := by
  obtain ⟨image, processor, colours, collapse, breakpoints, tracked, countdown, finishing, lastLine, retrying,
    recorder⟩ := d
  rcases finishing with _ | _ | depth <;> cases flow <;> simp [follow, followed]

theorem finishing_follow (d : Debugger) (flow : Flow) : (d.follow flow).finishing = followed d.finishing flow := by
  rw [follow_eq]

theorem processor_follow (d : Debugger) (flow : Flow) : (d.follow flow).processor = d.processor := by
  rw [follow_eq]

theorem countdown_follow (d : Debugger) (flow : Flow) :
    (d.follow flow).countdown = if d.finishing = some 0 ∧ flow = .ret then 1 else d.countdown := by
  rw [follow_eq]

end Debugger

namespace Session

/-! ### What comes next -/

/-- The session with the state of the program shown, about to read a line. -/
def displayed (s : Session) : Session :=
  s.report (View.state s.debugger.processor s.debugger.tracked s.debugger.colours ++ "> ")

/-- The command line that is entered at the prompt, which for a blank one is the last line. -/
def entered? (s : Session) : Option String :=
  match s.displayed.readLine.1 with
  | .line line => if (Text.trim line).isEmpty then s.debugger.lastLine else some line
  | _ => none

/-- The command that is entered, if the session is at the prompt and gets one. -/
def command? (s : Session) : Option Command :=
  if s.phase = .prompting then s.entered?.bind fun line => (Command.parse line).toOption else none

/-- What the next step comes to. -/
def next (s : Session) : Processor.Stepped (Option Recorder × Folder) :=
  s.debugger.processor.stepWatched Recorder.watch (s.debugger.recorder, s.folder) s.console

/-- The session after the next step, before anything follows from that. -/
def advanced (s : Session) : Session :=
  { s with
    debugger := { s.debugger with processor := s.next.processor, recorder := s.next.watcher.1 }
    console := s.next.console
    folder := s.next.watcher.2 }

/-- What is known of the step that the session is about to execute, if it is and the step goes well. -/
def stepped? (s : Session) : Option StepInfo := if s.phase = .stepping then s.next.result.toOption else none

/-- How the steps of the next ticks leave their instructions, in order. -/
def flows : Nat → Session → List Flow
  | 0, _ => []
  | n + 1, s => (s.stepped?.map StepInfo.flow).toList ++ flows n s.tick

/-- A breakpoint is hit where the program is. -/
def Hits (s : Session) : Prop :=
  s.debugger.retrying = false ∧
    (s.debugger.breakpoints.check? s.debugger.processor.pc s.debugger.processor).map Prod.fst = some true

/-- The next step reads input, or a request for input is cancelled. -/
def Asks (s : Session) : Prop :=
  s.next.result = .error .cancelled ∨ s.next.result.toOption.map StepInfo.readInput = some true

instance (s : Session) : Decidable s.Hits := inferInstanceAs (Decidable (_ ∧ _))

instance (s : Session) : Decidable s.Asks := inferInstanceAs (Decidable (_ ∨ _))

/-! ### Parts that keep the calls -/

/-- The calls and the function to be finished are the same. -/
structure Steady (s t : Session) : Prop where
  calls : t.debugger.processor.calls = s.debugger.processor.calls
  finishing : t.debugger.finishing = s.debugger.finishing

namespace Steady

variable {s t u : Session}

theorem refl (s : Session) : Steady s s := ⟨rfl, rfl⟩

theorem trans (h : Steady s t) (h' : Steady t u) : Steady s u :=
  ⟨h'.calls.trans h.calls, h'.finishing.trans h.finishing⟩

theorem stopTracing (s : Session) : Steady s s.stopTracing.2 := by
  rw [Session.stopTracing]
  split <;> exact ⟨rfl, rfl⟩

theorem of_stopTracing {result : Except String Unit} (h : s.stopTracing = (result, t)) : Steady s t := by
  have hstop := stopTracing s
  rw [h] at hstop
  exact hstop

theorem conclude (s : Session) (outcome : Outcome) : Steady s (s.conclude outcome) := by
  rw [Session.conclude]
  split <;> next t htrace =>
    have hstop := of_stopTracing htrace
    exact ⟨hstop.calls, hstop.finishing⟩

theorem quit (s : Session) : Steady s s.quit := trans (t := s.report _) ⟨rfl, rfl⟩ (conclude _ _)

theorem startTracing (s : Session) (path : String) : Steady s (s.startTracing path) := by
  rw [Session.startTracing]
  split
  · exact ⟨rfl, rfl⟩
  · split <;> next t htrace =>
      have hstop := of_stopTracing htrace
      exact ⟨hstop.calls, hstop.finishing⟩

theorem endTrace (s : Session) : Steady s (s.execute (.trace none)) := by
  simp only [Session.execute]
  split <;> next t htrace =>
    have hstop := of_stopTracing htrace
    exact ⟨hstop.calls, hstop.finishing⟩

theorem dump (s : Session) (path : String) : Steady s (s.dump path) := by
  rw [Session.dump]
  split <;> exact ⟨rfl, rfl⟩

theorem print (s : Session) (e : Postfix) : Steady s (s.print e) := by
  rw [Session.print]
  split <;> exact ⟨rfl, rfl⟩

theorem setTemporary (s : Session) (a : UInt16) (count : Nat) : Steady s (s.setTemporary a count) := by
  rw [Session.setTemporary]
  split <;> exact ⟨rfl, rfl⟩

theorem removeBreakpoint (s : Session) (a : UInt16) : Steady s (s.removeBreakpoint a) := by
  rw [Session.removeBreakpoint]
  split <;> exact ⟨rfl, rfl⟩

theorem calls_put {p q : Processor} {v : Value} {x : Store} (h : Assignment.put p v x = some q) :
    q.calls = p.calls := by
  cases x with
  | flag f =>
    cases v <;> cases h
    rfl
  | register r =>
    cases v <;> cases h
    rfl
  | memory view address =>
    simp only [Assignment.put] at h
    split at h
    · cases h
      rfl
    · cases h

theorem assign (s : Session) (x : Assignment) : Steady s (s.assign x) := by
  rw [Session.assign]
  split
  · next q hq =>
    rw [Assignment.perform?, Option.bind_eq_some_iff] at hq
    obtain ⟨v, -, hput⟩ := hq
    exact ⟨calls_put hput, rfl⟩
  · exact ⟨rfl, rfl⟩

/-- Only two commands change the calls or the function to be finished. -/
theorem execute (s : Session) {c : Command} (hfinish : c ≠ .finish) (hreset : c ≠ .reset) : Steady s (s.execute c) := by
  cases c with
  | finish => exact absurd rfl hfinish
  | reset => exact absurd rfl hreset
  | dump path => exact dump s path
  | print e => exact print s e
  | assign x => exact assign s x
  | setTemporary a count => exact setTemporary s a count
  | trace path =>
    cases path with
    | some path => exact startTracing s path
    | none => exact endTrace s
  | removeBreakpoint a =>
    cases a with
    | some a => exact removeBreakpoint s a
    | none => exact ⟨rfl, rfl⟩
  | backtrace | setBreakpoint a condition | listBreakpoints | resume | disassemble a | help | executed | memory a
  | inputMode mode | step count | track r | untrack r => exact ⟨rfl, rfl⟩

end Steady

/-! ### Phases -/

theorem debugger_readLine (s : Session) : s.readLine.2.debugger = s.debugger := by
  rw [readLine]
  split <;> rfl

/-- What a prompt comes to: a command is carried out, or there is none and the calls stay as they are. -/
inductive Obeys (s : Session) : Option Command → Session → Prop
  | command {t : Session} (line : String) (c : Command) (h : t.debugger = { s.debugger with lastLine := some line }) :
    Obeys s (some c) (t.execute c)
  | idle {t : Session} (h : Steady s t) : Obeys s none t

theorem Obeys.steady {s t : Session} {c : Option Command} (h : Obeys s c t) (hfinish : c ≠ some .finish)
    (hreset : c ≠ some .reset) : Steady s t := by
  cases h with
  | idle h => exact h
  | command line c h =>
    exact Steady.trans ⟨by rw [h], by rw [h]⟩
      (Steady.execute _ (fun hc => hfinish (congrArg some hc)) fun hc => hreset (congrArg some hc))

theorem obeys_runLine {s t : Session} (h : t.debugger = s.debugger) (line : String) :
    Obeys s (Command.parse line).toOption (t.runLine line) := by
  have hline : (t.update ({ · with lastLine := some line })).debugger = { s.debugger with lastLine := some line } := by
    rw [← h]
    rfl
  rw [runLine]
  cases hparse : Command.parse line with
  | error e => exact .idle ⟨by rw [← h]; rfl, by rw [← h]; rfl⟩
  | ok c => exact .command line c hline

/-- A prompt runs the line that is entered, or ends or goes on without one. -/
theorem prompt_cases (s : Session) :
    ∃ t : Session, t.debugger = s.debugger ∧
      ((∃ line, s.entered? = some line ∧ s.prompt = t.runLine line) ∨
        (s.entered? = none ∧ (s.prompt = t ∨ s.prompt = t.quit ∨ ∃ e, s.prompt = t.fail e))) := by
  rcases hread : s.displayed.readLine with ⟨answer, t⟩
  have hdebugger : t.debugger = s.debugger :=
    (congrArg (·.2.debugger) hread).symm.trans (debugger_readLine s.displayed)
  refine ⟨t, hdebugger, ?_⟩
  rw [entered?, hread]
  rw [displayed] at hread
  rw [prompt]
  cases answer with
  | line line =>
    by_cases hblank : (Text.trim line).isEmpty = true
    · cases hlast : s.debugger.lastLine with
      | some last => exact .inl ⟨last, if_pos hblank, by simp only [hread, if_pos hblank, hdebugger, hlast]⟩
      | none => exact .inr ⟨if_pos hblank, .inl (by simp only [hread, if_pos hblank, hdebugger, hlast])⟩
    · exact .inl ⟨line, if_neg hblank, by simp only [hread, if_neg hblank]⟩
  | ended | cancelled => exact .inr ⟨rfl, .inr (.inl (by simp only [hread]))⟩
  | failed reason | unreadable => exact .inr ⟨rfl, .inr (.inr ⟨_, by simp only [hread]; rfl⟩)⟩

theorem obeys_tick {s : Session} (hphase : s.phase = .prompting) : Obeys s s.command? s.tick := by
  have htick : s.tick = s.prompt := by rw [tick, hphase]
  have hcommand : s.command? = s.entered?.bind fun line => (Command.parse line).toOption := if_pos hphase
  obtain ⟨t, hdebugger, h⟩ := s.prompt_cases
  have hs : Steady s t := ⟨congrArg (·.processor.calls) hdebugger, congrArg (·.finishing) hdebugger⟩
  obtain ⟨line, hentered, hprompt⟩ | ⟨hentered, hprompt⟩ := h
  · rw [htick, hcommand, hentered, hprompt, Option.bind_some]
    exact obeys_runLine hdebugger line
  · rw [htick, hcommand, hentered, Option.bind_none]
    obtain hprompt | hprompt | ⟨e, hprompt⟩ := hprompt <;> rw [hprompt]
    · exact .idle hs
    · exact .idle (hs.trans (Steady.quit t))
    · exact .idle ⟨hs.calls, hs.finishing⟩

theorem tick_of_command? {s : Session} {c : Command} (h : s.command? = some c) :
    ∃ line, ∃ t : Session, t.debugger = { s.debugger with lastLine := some line } ∧ s.tick = t.execute c := by
  have hphase : s.phase = .prompting := by
    by_contra hphase
    rw [command?, if_neg hphase] at h
    cases h
  have hobeys := obeys_tick hphase
  generalize s.tick = t at hobeys
  rw [h] at hobeys
  cases hobeys with
  | command line c h => exact ⟨line, _, h, rfl⟩

theorem ended_conclude (s : Session) (outcome : Outcome) : ∃ outcome', (s.conclude outcome).phase = .ended outcome' := by
  rw [conclude]
  split <;> exact ⟨_, rfl⟩

/-- A look for breakpoints changes at most them, and after it no request is made again. -/
theorem eq_of_checkBreakpoints {d d' : Debugger} {hit : Bool} (h : checkBreakpoints d = some (hit, d')) :
    ∃ bs, d' = { d with breakpoints := bs, retrying := false } := by
  rw [checkBreakpoints] at h
  split at h
  · cases h
    exact ⟨d.breakpoints, rfl⟩
  · next hretry =>
    obtain ⟨x, -, hx⟩ := Option.map_eq_some_iff.mp h
    cases hx
    exact ⟨x.2, by rw [← Bool.eq_false_of_not_eq_true hretry]⟩

theorem steady_decide (s : Session) : Steady s s.decide := by
  rw [decide]
  split
  · exact Steady.trans (t := s.reportCount) ⟨rfl, rfl⟩ (Steady.conclude _ _)
  split
  · exact Steady.trans (t := (s.report _).reportCount) ⟨rfl, rfl⟩ (Steady.conclude _ _)
  split
  · exact ⟨rfl, rfl⟩
  · next hit d hcheck =>
    obtain ⟨bs, rfl⟩ := eq_of_checkBreakpoints hcheck
    exact ⟨rfl, rfl⟩

/-- A session ends with the program. Until then it prompts at a breakpoint and when the countdown is one. -/
theorem decide_cases {s : Session} (h : s.Sound) :
    (s.debugger.processor.Ended ∧ ∃ outcome, s.decide.phase = .ended outcome) ∨
    (¬s.debugger.processor.Ended ∧ s.decide.debugger.countdown = s.debugger.countdown - 1 ∧
      s.decide.phase = if s.Hits ∨ s.debugger.countdown = 1 then .prompting else .stepping) := by
  rw [decide]
  split
  · next hunlocked => exact .inl ⟨.inl hunlocked, ended_conclude _ _⟩
  next hlocked =>
  split
  · next hhalted => exact .inl ⟨.inr hhalted, ended_conclude _ _⟩
  next hrunning =>
  refine .inr ⟨fun hended => hended.elim hlocked hrunning, ?_⟩
  by_cases hretry : s.debugger.retrying = true
  · have hmiss : ¬s.Hits := by simp [Hits, hretry]
    simp [checkBreakpoints, hretry, hmiss]
  · obtain ⟨hit, bs, hcheck, hbs⟩ := h.breakpoints.exists_check? s.debugger.processor.pc s.debugger.processor
    have hhits : s.Hits ↔ hit = true := by simp [Hits, hretry, hcheck]
    simp [checkBreakpoints, hretry, hcheck, hhits]

theorem phase_decide_of_countdown {s : Session} (h : s.debugger.countdown = 1) :
    s.decide.phase = .prompting ∨ ∃ outcome, s.decide.phase = .ended outcome := by
  unfold decide
  simp only [h, BEq.rfl, Bool.or_true, if_true]
  split
  · exact .inr (ended_conclude _ _)
  split
  · exact .inr (ended_conclude _ _)
  split
  · exact .inr ⟨_, rfl⟩
  · exact .inl rfl

section

variable {s : Session} (hphase : s.phase = .stepping)
include hphase

theorem tick_of_stepping : s.tick = s.advanced.afterStep s.next.result := by
  rw [tick, hphase]
  rfl

theorem tick_of_ok {info : StepInfo} (h : s.next.result = .ok info) :
    s.tick.phase = .deciding ∧ s.tick.debugger.processor = s.next.processor ∧
      s.tick.debugger.finishing = followed s.debugger.finishing info.flow ∧
      s.tick.debugger.countdown =
        if info.readInput = true ∨ s.debugger.finishing = some 0 ∧ info.flow = .ret then 1
        else s.debugger.countdown := by
  rw [tick_of_stepping hphase, h, afterStep]
  refine ⟨rfl, ?_, ?_, ?_⟩
  · refine (Debugger.processor_follow _ _).trans ?_
    split <;> rfl
  · refine (Debugger.finishing_follow _ _).trans ?_
    split <;> rfl
  · refine (Debugger.countdown_follow _ _).trans ?_
    cases info.readInput <;> simp [advanced]

/-- A step that does not go well ends the session, unless the program has ended or a request was cancelled. -/
theorem tick_of_error {stop : Stop} (h : s.next.result = .error stop) :
    Steady s s.tick ∧
      ((∃ outcome, s.tick.phase = .ended outcome) ∨
        s.tick.phase = .deciding ∧
          (s.tick.debugger.processor.Ended ∨ stop = .cancelled ∧ s.tick.debugger.countdown = 1)) := by
  have hs : Steady s s.advanced := ⟨(Processor.depth_stepWatched _ _ _ _).2 stop h, rfl⟩
  rw [tick_of_stepping hphase, h]
  cases stop with
  | halted => exact ⟨⟨hs.calls, hs.finishing⟩, .inr ⟨rfl, .inl (Processor.ended_of_stepWatched h (.inl rfl))⟩⟩
  | unlocked => exact ⟨⟨hs.calls, hs.finishing⟩, .inr ⟨rfl, .inl (Processor.ended_of_stepWatched h (.inr rfl))⟩⟩
  | endOfInput => exact ⟨hs.trans (Steady.quit _), .inl (ended_conclude _ _)⟩
  | cancelled => exact ⟨⟨hs.calls, hs.finishing⟩, .inr ⟨rfl, .inr ⟨rfl, rfl⟩⟩⟩
  | unreadable => exact ⟨⟨hs.calls, hs.finishing⟩, .inl ⟨_, rfl⟩⟩
  | fault f =>
    have hreported : Steady s (s.advanced.report ("<Fault: " ++ f.message ++ ">\n")).reportCount :=
      ⟨hs.calls, hs.finishing⟩
    exact ⟨hreported.trans (Steady.conclude _ _), .inl (ended_conclude _ _)⟩

theorem deciding_or_ended : s.tick.phase = .deciding ∨ ∃ outcome, s.tick.phase = .ended outcome := by
  cases hresult : s.next.result with
  | error stop => exact (tick_of_error hphase hresult).2.symm.imp_left And.left
  | ok info => exact .inl (tick_of_ok hphase hresult).1

end

theorem tick_of_ended {s : Session} {outcome : Outcome} (h : s.phase = .ended outcome) : s.tick = s := by
  rw [tick, h]

/-! ### Runs -/

/-- The command that is entered, if any, is not one of the two that change the function to be finished. -/
def Quiet (s : Session) : Prop := s.command? ≠ some .finish ∧ s.command? ≠ some .reset

instance (s : Session) : Decidable s.Quiet := inferInstanceAs (Decidable (_ ∧ _))

def depth (s : Session) : Nat := s.debugger.processor.calls.depth

theorem ticks_succ' (n : Nat) (s : Session) : s.ticks (n + 1) = (s.ticks n).tick := by
  induction n generalizing s with
  | zero => rfl
  | succ n ih => exact ih s.tick

theorem ticks_add (m n : Nat) (s : Session) : s.ticks (m + n) = (s.ticks m).ticks n := by
  induction n with
  | zero => rfl
  | succ n ih => rw [← Nat.add_assoc, ticks_succ', ticks_succ', ih]

theorem ticks_of_ended {s : Session} {outcome : Outcome} (h : s.phase = .ended outcome) (n : Nat) : s.ticks n = s := by
  induction n with
  | zero => rfl
  | succ n ih => rw [ticks_succ', ih, tick_of_ended h]

theorem flows_succ' (n : Nat) (s : Session) : s.flows (n + 1) = s.flows n ++ (s.ticks n).flows 1 := by
  induction n generalizing s with
  | zero => rfl
  | succ n ih =>
    calc s.flows (n + 1 + 1) = (s.stepped?.map StepInfo.flow).toList ++ s.tick.flows (n + 1) := rfl
      _ = s.flows (n + 1) ++ (s.ticks (n + 1)).flows 1 := by rw [ih, ← List.append_assoc]; rfl

theorem flows_one_of_ok {s : Session} (hphase : s.phase = .stepping) {info : StepInfo}
    (h : s.next.result = .ok info) : s.flows 1 = [info.flow] := by
  simp [flows, stepped?, hphase, h, Except.toOption]

theorem flows_one_of_error {s : Session} (hphase : s.phase = .stepping) {stop : Stop}
    (h : s.next.result = .error stop) : s.flows 1 = [] := by
  simp [flows, stepped?, hphase, h, Except.toOption]

theorem flows_one_of_phase_ne {s : Session} (hphase : s.phase ≠ .stepping) : s.flows 1 = [] := by
  simp [flows, stepped?, hphase]

theorem ok_of_flows_one {s : Session} (h : s.flows 1 ≠ []) :
    s.phase = .stepping ∧ ∃ info, s.next.result = .ok info ∧ s.flows 1 = [info.flow] := by
  by_cases hphase : s.phase = .stepping
  · cases hresult : s.next.result with
    | error stop => exact absurd (flows_one_of_error hphase hresult) h
    | ok info => exact ⟨hphase, info, rfl, flows_one_of_ok hphase hresult⟩
  · exact absurd (flows_one_of_phase_ne hphase) h

/-- The calls and the function to be finished are what some flows make of them. -/
structure Follows (s t : Session) (fs : List Flow) : Prop where
  finishing : t.debugger.finishing = fs.foldl followed s.debugger.finishing
  depth : t.depth = fs.foldl Processor.depthAfter s.depth

theorem Steady.follows {s t : Session} (h : Steady s t) : Follows s t [] :=
  ⟨h.finishing, congrArg CallStack.depth h.calls⟩

theorem Follows.append {s t u : Session} {fs gs : List Flow} (h : Follows s t fs) (h' : Follows t u gs) :
    Follows s u (fs ++ gs) := by
  constructor
  · rw [h'.finishing, h.finishing, List.foldl_append]
  · rw [h'.depth, h.depth, List.foldl_append]

/-- One tick follows the step that it executes, if it executes one. -/
theorem tick_follows {s : Session} (h : s.Quiet) : Follows s s.tick (s.flows 1) := by
  cases hphase : s.phase with
  | deciding =>
    have htick : s.tick = s.decide := by rw [tick, hphase]
    rw [flows_one_of_phase_ne (by simp [hphase]), htick]
    exact (steady_decide s).follows
  | prompting =>
    rw [flows_one_of_phase_ne (by simp [hphase])]
    exact ((obeys_tick hphase).steady h.1 h.2).follows
  | stepping =>
    cases hresult : s.next.result with
    | error stop =>
      rw [flows_one_of_error hphase hresult]
      exact (tick_of_error hphase hresult).1.follows
    | ok info =>
      obtain ⟨-, hprocessor, hfinishing, -⟩ := tick_of_ok hphase hresult
      rw [flows_one_of_ok hphase hresult]
      refine ⟨hfinishing, ?_⟩
      rw [depth, hprocessor]
      exact (Processor.depth_stepWatched _ _ _ _).1 info hresult
  | ended outcome =>
    have htick : s.tick = s := by rw [tick, hphase]
    rw [flows_one_of_phase_ne (by simp [hphase]), htick]
    exact (Steady.refl s).follows

theorem ticks_follows {s : Session} {n : Nat} (h : ∀ m < n, (s.ticks m).Quiet) : Follows s (s.ticks n) (s.flows n) := by
  induction n with
  | zero => exact (Steady.refl s).follows
  | succ n ih =>
    rw [ticks_succ', flows_succ']
    exact (ih fun m hm => h m (Nat.lt_succ_of_lt hm)).append (tick_follows (h n n.lt_succ_self))

end Session
end MicroDebug

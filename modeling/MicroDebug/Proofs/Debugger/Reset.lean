import MicroDebug.Proofs.Debugger.Hosts
import MicroDebug.Proofs.Debugger.Settled

/-! Starting again at a prompt. What is left of the session before is what the command is meant to keep and the last
    command line, of which nothing is seen once another line has been entered. So a session that starts again goes on
    like one that has just been opened. -/

namespace MicroDebug

/-! ### Tracked registers -/

theorem mem_trackRegister {r q : Register} {rs : List Register} (h : q ∈ trackRegister r rs) : q = r ∨ q ∈ rs := by
  induction rs with
  | nil => exact .inl (List.mem_singleton.mp h)
  | cons x rs ih =>
    rw [trackRegister] at h
    split at h
    · exact List.mem_cons.mp h
    split at h
    · exact .inr h
    · rcases List.mem_cons.mp h with rfl | h
      · exact .inr List.mem_cons_self
      · exact (ih h).imp_right (List.mem_cons_of_mem _)

theorem pairwise_trackRegister (r : Register) {rs : List Register} (h : rs.Pairwise (· < ·)) :
    (trackRegister r rs).Pairwise (· < ·) := by
  induction rs with
  | nil => exact List.pairwise_singleton _ _
  | cons x rs ih =>
    obtain ⟨hx, hrs⟩ := List.pairwise_cons.mp h
    rw [trackRegister]
    split
    · next hlt =>
      refine List.pairwise_cons.mpr ⟨fun q hq => ?_, h⟩
      rcases List.mem_cons.mp hq with rfl | hq
      · exact hlt
      · exact UInt8.lt_trans hlt (hx q hq)
    split
    · exact h
    · next hnlt hne =>
      refine List.pairwise_cons.mpr ⟨fun q hq => ?_, ih hrs⟩
      rcases mem_trackRegister hq with rfl | hq
      · exact UInt8.lt_of_le_of_ne (UInt8.not_lt.mp hnlt) (Ne.symm hne)
      · exact hx q hq

theorem pairwise_foldl_trackRegister (new : List Register) {rs : List Register} (h : rs.Pairwise (· < ·)) :
    (new.foldl (fun rs r => trackRegister r rs) rs).Pairwise (· < ·) := by
  induction new generalizing rs with
  | nil => exact h
  | cons r new ih => exact ih (pairwise_trackRegister r h)

theorem trackRegister_of_lt {r : Register} {rs : List Register} (h : ∀ q ∈ rs, q < r) :
    trackRegister r rs = rs ++ [r] := by
  induction rs with
  | nil => rfl
  | cons x rs ih =>
    rw [List.forall_mem_cons] at h
    rw [trackRegister, if_neg (UInt8.lt_asymm h.1), if_neg (UInt8.ne_of_lt h.1).symm, ih h.2, List.cons_append]

/-- Registers that are in order are tracked as they are. -/
theorem foldl_trackRegister {new rs : List Register} (h : (rs ++ new).Pairwise (· < ·)) :
    new.foldl (fun rs r => trackRegister r rs) rs = rs ++ new := by
  induction new generalizing rs with
  | nil => exact (List.append_nil rs).symm
  | cons r new ih =>
    have hlt : ∀ q ∈ rs, q < r := fun q hq => (List.pairwise_append.mp h).2.2 q hq r List.mem_cons_self
    rw [List.foldl_cons, trackRegister_of_lt hlt]
    have happend : rs ++ r :: new = rs ++ [r] ++ new := by rw [List.append_assoc, List.singleton_append]
    rw [happend] at h ⊢
    exact ih h

/-! ### What a session never changes -/

/-- The debugger is one for an image and some settings. The registers that it tracks may be others. -/
structure Debugger.Of (image : Memory) (o : Options) (d : Debugger) : Prop where
  image : d.image = image
  colours : d.colours = o.colours
  collapse : d.collapse = o.collapse
  tracked : d.tracked.Pairwise (· < ·)

/-- The rest of the debugger may be anything. -/
theorem Debugger.Of.congr {image : Memory} {o : Options} {d e : Debugger} (h : d.Of image o)
    (hkept : (e.image, e.colours, e.collapse, e.tracked) = (d.image, d.colours, d.collapse, d.tracked)) :
    e.Of image o := by
  simp only [Prod.mk.injEq] at hkept
  obtain ⟨himage, hcolours, hcollapse, htracked⟩ := hkept
  exact ⟨himage.trans h.image, hcolours.trans h.colours, hcollapse.trans h.collapse, htracked ▸ h.tracked⟩

namespace Session

variable {image : Memory} {o : Options} {s : Session}

/-- A session that comes from one that was opened for an image, by ticks and by starting again with another host,
    other files and other commands. -/
inductive Reachable (image : Memory) (o : Options) : Session → Prop
  | opened (trace : Option Recorder) (c : Console) (f : Folder) (commands : CommandSource) :
    Reachable image o (opened image o trace c f commands)
  | tick {s : Session} (h : Reachable image o s) : Reachable image o s.tick
  | restart {s : Session} (h : Reachable image o s) (c : Console) (f : Folder) (commands : CommandSource) :
    Reachable image o ({ s with console := c, folder := f }.restart commands)

theorem Reachable.ticks (h : Reachable image o s) (n : Nat) : Reachable image o (s.ticks n) := by
  induction n generalizing s with
  | zero => exact h
  | succ n ih => exact ih h.tick

section

variable (h : s.debugger.Of image o)
include h

theorem of_stopTracing : s.stopTracing.2.debugger.Of image o := by
  rw [stopTracing]
  split
  · exact h
  · exact h.congr rfl

theorem of_conclude (outcome : Outcome) : (s.conclude outcome).debugger.Of image o := by
  have hstop := of_stopTracing h
  rw [conclude]
  split <;> next t htrace =>
    rw [htrace] at hstop
    exact hstop

theorem of_execute (c : Command) : (s.execute c).debugger.Of image o := by
  cases c with
  | dump path =>
    simp only [execute, dump]
    split <;> exact h
  | print e =>
    simp only [execute, print]
    split <;> exact h
  | assign x =>
    simp only [execute, assign]
    split
    · exact h.congr rfl
    · exact h
  | setTemporary a count =>
    simp only [execute, setTemporary]
    split
    · exact h.congr rfl
    · exact h
  | trace path =>
    cases path with
    | none =>
      have hstop := of_stopTracing h
      simp only [execute]
      split <;> next t htrace =>
        rw [htrace] at hstop
        exact hstop
    | some path =>
      simp only [execute, startTracing]
      split
      · exact h
      · next folder hfolder =>
        have hstop := of_stopTracing (s := { s with folder := folder }) h
        split <;> next t htrace =>
          rw [htrace] at hstop
          exact hstop.congr rfl
  | removeBreakpoint a =>
    cases a with
    | none => exact h.congr rfl
    | some a =>
      simp only [execute, removeBreakpoint]
      split
      · exact h.congr rfl
      · exact h
  | track r => exact ⟨h.image, h.colours, h.collapse, pairwise_trackRegister r h.tracked⟩
  | untrack r => exact ⟨h.image, h.colours, h.collapse, h.tracked.filter _⟩
  | setBreakpoint a condition | finish | reset | inputMode mode | step count =>
    exact h.congr rfl
  | backtrace | listBreakpoints | resume | disassemble a | help | executed | memory a => exact h

theorem of_runLine (line : String) : (s.runLine line).debugger.Of image o := by
  have hline : (s.update ({ · with lastLine := some line })).debugger.Of image o :=
    h.congr rfl
  rw [runLine]
  split
  · exact hline
  · exact of_execute hline _

theorem of_decide : s.decide.debugger.Of image o := by
  rw [decide]
  split
  · exact of_conclude (s := s.reportCount) h _
  split
  · exact of_conclude (s := (s.report _).reportCount) h _
  split
  · exact h
  · next hit d hcheck =>
    obtain ⟨bs, rfl⟩ := eq_of_checkBreakpoints hcheck
    exact h.congr rfl

theorem of_afterStep (result : Except Stop StepInfo) : (s.afterStep result).debugger.Of image o := by
  rcases result with stop | info
  · cases stop with
    | halted | unlocked | unreadable => exact h
    | endOfInput => exact of_conclude (s := s.report _) h _
    | cancelled => exact h.congr rfl
    | fault f => exact of_conclude (s := (s.report _).reportCount) h _
  · simp only [afterStep, update, goTo, Debugger.follow_eq]
    split <;> exact h.congr rfl

theorem of_tick : s.tick.debugger.Of image o := by
  cases hphase : s.phase with
  | ended outcome =>
    rw [tick_of_ended hphase]
    exact h
  | deciding =>
    rw [tick, hphase]
    exact of_decide h
  | stepping =>
    rw [tick_of_stepping hphase]
    exact of_afterStep (s := s.advanced) (h.congr rfl) _
  | prompting =>
    obtain ⟨t, ht, hcases⟩ := s.prompt_cases
    rw [← ht] at h
    rw [tick, hphase]
    show s.prompt.debugger.Of image o
    rcases hcases with ⟨line, -, hprompt⟩ | ⟨-, hprompt | hprompt | ⟨e, hprompt⟩⟩ <;> rw [hprompt]
    · exact of_runLine h line
    · exact h
    · exact of_conclude (s := t.report _) h _
    · exact h

end

theorem Reachable.of (h : Reachable image o s) : s.debugger.Of image o := by
  induction h with
  | opened => exact ⟨rfl, rfl, rfl, pairwise_foldl_trackRegister _ List.Pairwise.nil⟩
  | tick _ ih => exact of_tick ih
  | restart _ _ _ _ ih => exact ih

/-! ### The last command line -/

/-- The session with another last command line. -/
def withLast (s : Session) (last : Option String) : Session := s.update ({ · with lastLine := last })

theorem withLast_self (s : Session) : s.withLast s.debugger.lastLine = s := rfl

theorem stopTracing_withLast (s : Session) (last : Option String) :
    (s.withLast last).stopTracing = (s.stopTracing.1, s.stopTracing.2.withLast last) := by
  unfold stopTracing
  cases hrecorder : s.debugger.recorder <;> simp only [withLast, update, hrecorder]

theorem conclude_withLast (s : Session) (last : Option String) (outcome : Outcome) :
    (s.withLast last).conclude outcome = (s.conclude outcome).withLast last := by
  simp only [conclude, stopTracing_withLast]
  rcases s.stopTracing with ⟨reason | _, t⟩ <;> rfl

theorem checkBreakpoints_withLast (d : Debugger) (last : Option String) :
    checkBreakpoints { d with lastLine := last } =
      (checkBreakpoints d).map fun (hit, d) => (hit, { d with lastLine := last }) := by
  unfold checkBreakpoints
  cases hretry : d.retrying with
  | true => rfl
  | false => cases d.breakpoints.check? d.processor.pc d.processor <;> rfl

theorem decide_withLast (s : Session) (last : Option String) : (s.withLast last).decide = s.decide.withLast last := by
  have hprocessor : (s.withLast last).debugger.processor = s.debugger.processor := rfl
  unfold decide
  simp only [hprocessor]
  by_cases hunlocked : s.debugger.processor.unlocked = true
  · simp only [if_pos hunlocked]
    exact conclude_withLast s.reportCount last _
  by_cases hhalted : s.debugger.processor.isHalted = true
  · simp only [if_neg hunlocked, if_pos hhalted]
    exact conclude_withLast (s.report _).reportCount last _
  have hcheck := checkBreakpoints_withLast { s.debugger with countdown := s.debugger.countdown - 1 } last
  simp only [if_neg hunlocked, if_neg hhalted]
  rcases hchecked : checkBreakpoints { s.debugger with countdown := s.debugger.countdown - 1 } with _ | ⟨hit, d⟩
  all_goals
    rw [hchecked] at hcheck
    simp only [withLast, update, hcheck]
    rfl

theorem readLine_withLast (s : Session) (last : Option String) :
    (s.withLast last).readLine = (s.readLine.1, s.readLine.2.withLast last) := by
  unfold readLine
  cases hcommands : s.commands with
  | console => simp only [withLast, update, hcommands]
  | lines answers => cases answers <;> simp only [withLast, update, hcommands]
  | file reader => simp only [withLast, update, hcommands]

theorem runLine_withLast (s : Session) (last : Option String) (line : String) :
    (s.withLast last).runLine line = s.runLine line := by
  have hsame : (s.withLast last).update ({ · with lastLine := some line }) =
      s.update ({ · with lastLine := some line }) := rfl
  unfold runLine
  simp only [hsame]

/-- A line that is not blank becomes the last one, and without a line the session ends. -/
theorem prompt_withLast {s : Session} (last : Option String)
    (hline : ∀ line, s.displayed.readLine.1 = .line line → (Text.trim line).isEmpty = false) :
    (s.withLast last).prompt = s.prompt ∨
      (s.withLast last).prompt = s.prompt.withLast last ∧ ∃ outcome, s.prompt.phase = .ended outcome := by
  have hread := readLine_withLast s.displayed last
  rw [displayed] at hread hline
  unfold prompt
  rcases hreads : (s.report (View.state s.debugger.processor s.debugger.tracked s.debugger.colours ++ "> ")).readLine
    with ⟨answer, t⟩
  rw [hreads] at hread hline
  have hwith : ((s.withLast last).report
      (View.state (s.withLast last).debugger.processor (s.withLast last).debugger.tracked
        (s.withLast last).debugger.colours ++ "> ")).readLine = (answer, t.withLast last) := hread
  simp only [hwith, hreads]
  cases answer with
  | failed reason | unreadable => exact .inr ⟨rfl, _, rfl⟩
  | ended | cancelled => exact .inr ⟨conclude_withLast (t.report _) last _, ended_conclude _ _⟩
  | line line =>
    simp only [hline line rfl, Bool.false_eq_true, if_false]
    exact .inl (runLine_withLast t last line)

theorem answer_displayed (s : Session) : s.displayed.readLine.1 = s.readLine.1 := by
  unfold readLine displayed
  cases hcommands : s.commands with
  | console =>
    simp only [report, Console.report, Console.append, hcommands, Console.take]
    cases s.console.replies <;> rfl
  | lines answers => cases answers <;> simp only [report, hcommands]
  | file reader => simp only [report, hcommands]

/-- A decision to prompt reads nothing. -/
theorem answer_decide (h : s.decide.phase = .prompting) : s.decide.readLine.1 = s.readLine.1 := by
  have hended {t : Session} {outcome : Outcome} (ht : (t.conclude outcome).phase = .prompting) : False := by
    obtain ⟨outcome', houtcome⟩ := ended_conclude t outcome
    cases houtcome.symm.trans ht
  unfold decide at h ⊢
  simp only at h ⊢
  split at h
  · exact (hended h).elim
  split at h
  · exact (hended h).elim
  split at h
  · cases h
  · next hunlocked hhalted _ hit d hcheck =>
    simp only [if_neg hunlocked, if_neg hhalted]
    unfold readLine
    simp only
    split <;> rfl

/-- What the last command line was is not seen any more after a line that is not blank. -/
theorem ticks_withLast (hphase : s.phase = .deciding) (hcountdown : s.debugger.countdown = 1)
    (hline : ∀ line, s.readLine.1 = .line line → (Text.trim line).isEmpty = false) (last : Option String) (n : Nat) :
    ∃ last', (s.withLast last).ticks n = (s.ticks n).withLast last' := by
  have htick : s.tick = s.decide := by rw [tick, hphase]
  have htick' : (s.withLast last).tick = s.decide.withLast last := by
    rw [tick, show (s.withLast last).phase = .deciding from hphase]
    exact decide_withLast s last
  rcases n with _ | n
  · exact ⟨last, rfl⟩
  rw [ticks, ticks, htick, htick']
  rcases phase_decide_of_countdown hcountdown with hprompting | ⟨outcome, hended⟩
  · rcases n with _ | n
    · exact ⟨last, rfl⟩
    have hnext : s.decide.tick = s.decide.prompt := by rw [tick, hprompting]
    have hnext' : (s.decide.withLast last).tick = (s.decide.withLast last).prompt := by
      rw [tick, show (s.decide.withLast last).phase = .prompting from hprompting]
    have hread : ∀ line, s.decide.displayed.readLine.1 = .line line → (Text.trim line).isEmpty = false := by
      rw [answer_displayed, answer_decide hprompting]
      exact hline
    rw [ticks, ticks, hnext, hnext']
    rcases prompt_withLast last hread with hsame | ⟨hsame, outcome, hended⟩
    · rw [hsame]
      exact ⟨_, (withLast_self _).symm⟩
    · rw [hsame, ticks_of_ended (s := s.decide.prompt.withLast last) hended, ticks_of_ended hended]
      exact ⟨last, rfl⟩
  · rw [ticks_of_ended (s := s.decide.withLast last) hended, ticks_of_ended hended]
    exact ⟨last, rfl⟩

/-! ### Starting again -/

/-- What starting again leaves is a new debugger with the breakpoints of the old one and its last line. -/
theorem reset_of {d : Debugger} (h : d.Of image o) (huntraced : d.recorder = none) :
    d.reset =
      { Debugger.new image { o with inputMode := d.processor.inputMode, tracked := d.tracked } with
        breakpoints := d.breakpoints, lastLine := d.lastLine } := by
  have htracked : d.tracked.foldl (fun rs r => trackRegister r rs) [] = d.tracked := foldl_trackRegister h.tracked
  simp only [Debugger.reset, Debugger.new, htracked, h.image, h.colours, h.collapse, huntraced]

/-- A session that starts again goes on like one that has just been opened for the same image and settings, with the
    breakpoints, tracked registers and input mode that the old one has at the time, the same files, and the same
    commands and answers to come, of which the first line is not blank. All that the old one shows from then on, the
    new one shows, and their debuggers never differ but in the last line. -/
theorem ticks_reset (hs : Reachable image o s) (hreset : s.command? = some .reset)
    (huntraced : s.debugger.recorder = none)
    (hline : ∀ line, s.tick.readLine.1 = .line line → (Text.trim line).isEmpty = false) :
    let settings := { o with inputMode := s.debugger.processor.inputMode, tracked := s.debugger.tracked }
    let u : Session :=
      { debugger := { Debugger.new image settings with breakpoints := s.debugger.breakpoints }
        console := s.tick.console.fresh, folder := s.tick.folder, commands := s.tick.commands }
    ∀ n,
      (s.tick.ticks n).phase = (u.ticks n).phase ∧
      (s.tick.ticks n).console.shown = s.tick.console.shown ++ (u.ticks n).console.shown ∧
      (s.tick.ticks n).debugger =
        { (u.ticks n).debugger with lastLine := (s.tick.ticks n).debugger.lastLine } ∧
      (s.tick.ticks n).folder = (u.ticks n).folder ∧ (s.tick.ticks n).commands = (u.ticks n).commands := by
  intro settings u n
  obtain ⟨entered, t, ht, htick⟩ := tick_of_command? hreset
  have hdebugger : s.tick.debugger = { u.debugger with lastLine := some entered } := by
    have hof : t.debugger.Of image o := by
      rw [ht]
      exact hs.of.congr rfl
    have huntraced' : t.debugger.recorder = none := by rw [ht, huntraced]
    rw [htick]
    refine (reset_of hof huntraced').trans ?_
    rw [ht]
  have hphase : s.tick.phase = .deciding := by
    rw [htick]
    rfl
  -- the same session with nothing shown yet, and that one without the line that was entered
  obtain ⟨v, hv, hvu⟩ : ∃ v : Session, v.After s.tick.console.shown s.tick ∧ v.withLast none = u := by
    refine ⟨{ s.tick with console := s.tick.console.fresh }, ⟨_, s.tick.console.after_fresh, rfl⟩, ?_⟩
    simp only [withLast, update, hdebugger, hphase]
    rfl
  have hcountdown : v.debugger.countdown = 1 := by
    rw [← hv.debugger, hdebugger]
    rfl
  have hread : ∀ line, v.readLine.1 = .line line → (Text.trim line).isEmpty = false := by
    obtain ⟨answer, v', t', hanswer, hanswer', -⟩ := hv.readLine
    rw [hanswer'] at hline
    rw [hanswer]
    exact hline
  obtain ⟨last, hlast⟩ := ticks_withLast (hv.phase.symm.trans hphase) hcountdown hread none n
  rw [hvu] at hlast
  have hafter := hv.ticks n
  rw [hlast]
  obtain ⟨d, hd, heq⟩ := hafter
  rw [heq]
  exact ⟨rfl, hd.shown, rfl, rfl, rfl⟩

/-- A temporary breakpoint has been hit once, and three steps and the return from a function are still to come. What is
    left after starting again is the breakpoint with its other hit, which the program stops for, and register 5. -/
theorem ticks_reset_pending :
    let m := (Memory.zero.writeWords 0x4400 (List.replicate 8 0x5315)).writeWord Memory.resetAddress 0x4400
    let script := ["break 4406", "tbreak 4402 2", "track r5", "f", "s 5", "reset", "s 2"].map Answer.line
    let s := (opened m {} none {} {} (.lines script)).ticks 12
    let u : Session :=
      { debugger :=
          { Debugger.new m { tracked := [Register.sp, 5] } with
            breakpoints := ⟨[(0x4402, { remaining := some 1 }), (0x4406, {})]⟩ }
        console := s.tick.console.fresh, folder := s.tick.folder, commands := s.tick.commands }
    s.command? = some .reset ∧ s.debugger.countdown = 3 ∧ s.debugger.finishing = some 0 ∧
      s.debugger.processor.registers.get 5 = 3 ∧
      (s.tick.ticks 4).console.shown = s.tick.console.shown ++ (u.ticks 4).console.shown ∧
      (s.tick.ticks 4).debugger.processor = (u.ticks 4).debugger.processor ∧
      (s.tick.ticks 4).phase = .prompting ∧ (s.tick.ticks 4).debugger.processor.pc = 0x4402 ∧
      (s.tick.ticks 5).phase = .ended .endOfInput := by
  intro m script s u
  have hs : Reachable m {} s := (Reachable.opened none {} {} (.lines script)).ticks 12
  have hreset : s.command? = some .reset := by decide +kernel
  have hline : ∀ line, s.tick.readLine.1 = .line line → (Text.trim line).isEmpty = false := by
    have hread : s.tick.readLine.1 = .line "s 2" := by decide +kernel
    rw [hread]
    rintro line ⟨⟩
    decide +kernel
  have hmode : s.debugger.processor.inputMode = .text := by decide +kernel
  have htracked : s.debugger.tracked = [Register.sp, 5] := by decide +kernel
  have hbreakpoints : s.debugger.breakpoints = ⟨[(0x4402, { remaining := some 1 }), (0x4406, {})]⟩ := by
    decide +kernel
  have hrun := ticks_reset hs hreset (by decide +kernel) hline
  rw [hmode, htracked, hbreakpoints] at hrun
  obtain ⟨hphase, hshown, hdebugger, -, -⟩ := hrun 4
  refine ⟨hreset, by decide +kernel, by decide +kernel, by decide +kernel, hshown, ?_, ?_, ?_, ?_⟩
  · rw [hdebugger]
  · rw [hphase]
    decide +kernel
  · rw [hdebugger]
    decide +kernel
  · rw [(hrun 5).1]
    decide +kernel

end Session
end MicroDebug

import MicroDebug.Proofs.Debugger.Looking

/-! Blank lines stand for the nearest line before them that is not blank. A session with such lines put in for blank
    ones, in a script from the start or at a prompt when they are read, stays the same session but for the commands
    to come, also when its debugger is given new commands. -/

namespace MicroDebug

/-! ### Blank lines filled in -/

/-- The nearest line that is not blank, of lines that are given from the last one back. -/
def nearest? (earlier : List String) : Option String := earlier.find? fun line => !(Text.trim line).isEmpty

/-- The line that an answer is, if it is one. -/
def Answer.lines : Answer → List String
  | .line text => [text]
  | .ended | .cancelled | .failed _ | .unreadable => []

/-- The answer with the nearest earlier line that is not blank in place of a blank line. -/
def Answer.filled (earlier : List String) : Answer → Answer
  | .line text => .line (if (Text.trim text).isEmpty then (nearest? earlier).getD text else text)
  | answer => answer

/-- The answers with the nearest line before it that is not blank in place of each blank line. -/
def fillIn (earlier : List String) : List Answer → List Answer
  | [] => []
  | answer :: rest => answer.filled earlier :: fillIn (answer.lines ++ earlier) rest

/-- The commands with the blank lines of a script filled in. -/
def CommandSource.filled (earlier : List String) : CommandSource → CommandSource
  | .lines answers => .lines (fillIn earlier answers)
  | source => source

instance (source : CommandSource) : Decidable (source = .console) :=
  match source with
  | .console => isTrue rfl
  | .lines _ | .file _ => isFalse nofun

variable {earlier : List String} {last : String} {answer : Answer}

theorem nearest?_cons (line : String) (earlier : List String) :
    nearest? (line :: earlier) = if (Text.trim line).isEmpty then nearest? earlier else some line := by
  cases hblank : (Text.trim line).isEmpty <;> simp [nearest?, hblank]

theorem not_blank_of_nearest? (h : nearest? earlier = some last) : (Text.trim last).isEmpty = false := by
  simpa using List.find?_some h

theorem Answer.filled_filled (earlier : List String) (answer : Answer) :
    (answer.filled earlier).filled earlier = answer.filled earlier := by
  cases answer with
  | line line =>
    cases hnearest : nearest? earlier with
    | none => simp [filled, hnearest]
    | some last => by_cases hblank : (Text.trim line).isEmpty <;> simp [filled, hblank, hnearest]
  | ended | cancelled | failed reason | unreadable => rfl

theorem nearest?_lines_filled (earlier : List String) (answer : Answer) :
    nearest? ((answer.filled earlier).lines ++ earlier) = nearest? (answer.lines ++ earlier) := by
  cases answer with
  | line line =>
    by_cases hblank : (Text.trim line).isEmpty = true
    · cases hnearest : nearest? earlier with
      | none => simp [Answer.filled, hnearest]
      | some last =>
        simp [Answer.filled, Answer.lines, nearest?_cons, hblank, hnearest, not_blank_of_nearest? hnearest]
    · simp [Answer.filled, hblank]
  | ended | cancelled | failed reason | unreadable => rfl

namespace Session

/-- What is done about an answer at a prompt without a line before it. -/
def obey (s : Session) : Answer → Session
  | .line line => if (Text.trim line).isEmpty then s else s.runLine line
  | answer => s.afterAnswer answer

theorem debugger_of_readLine {s t : Session} (h : s.displayed.readLine = (answer, t)) : t.debugger = s.debugger :=
  (congrArg (·.2.debugger) h).symm.trans (debugger_readLine s.displayed)

/-- A prompt takes a blank line for the one that it remembers. -/
theorem prompt_eq_obey {s t : Session} (hread : s.displayed.readLine = (answer, t))
    (hlast : s.debugger.lastLine = nearest? earlier) : s.prompt = t.obey (answer.filled earlier) := by
  have hremembered : t.debugger.lastLine = nearest? earlier := by rw [debugger_of_readLine hread, hlast]
  rw [displayed] at hread
  rw [prompt]
  cases answer with
  | line line =>
    by_cases hblank : (Text.trim line).isEmpty = true
    · cases hnearest : nearest? earlier with
      | none => simp [hread, hblank, hremembered, hnearest, Answer.filled, obey]
      | some last =>
        simp [hread, hblank, hremembered, hnearest, Answer.filled, obey, not_blank_of_nearest? hnearest]
    · simp [hread, hblank, Answer.filled, obey]
  | ended | cancelled | failed reason | unreadable => simp only [hread, Answer.filled, obey, afterAnswer]

/-! ### Sessions side by side -/

/-- Two sessions that differ at most in their commands, and remember a line. -/
structure Alongside (last : Option String) (cs cs' : CommandSource) (s t : Session) : Prop where
  last : s.debugger.lastLine = last
  commands : s.commands = cs
  same : t = { s with commands := cs' }

namespace Alongside

variable {last : Option String} {cs cs' : CommandSource} {s t : Session} (h : Alongside last cs cs' s t)
include h

theorem report (text : String) : Alongside last cs cs' (s.report text) (t.report text) :=
  ⟨h.last, h.commands, by rw [h.same]; rfl⟩

theorem goTo (phase : Phase) : Alongside last cs cs' (s.goTo phase) (t.goTo phase) :=
  ⟨h.last, h.commands, by rw [h.same]; rfl⟩

theorem debugger : t.debugger = s.debugger := by rw [h.same]

theorem folder : t.folder = s.folder := by rw [h.same]

theorem phase : t.phase = s.phase := by rw [h.same]

theorem update {f : Debugger → Debugger} (hf : (f s.debugger).lastLine = s.debugger.lastLine) :
    Alongside last cs cs' (s.update f) (t.update f) :=
  ⟨hf.trans h.last, h.commands, by rw [h.same]; rfl⟩

theorem withFolder (f : Folder) : Alongside last cs cs' { s with folder := f } { t with folder := f } :=
  ⟨h.last, h.commands, by rw [h.same]⟩

theorem fail (e : SessionError) : Alongside last cs cs' (s.fail e) (t.fail e) := h.goTo _

theorem reportCount : Alongside last cs cs' s.reportCount t.reportCount := by
  rw [Session.reportCount, Session.reportCount, h.debugger]
  exact h.report _

theorem displayed : Alongside last cs cs' s.displayed t.displayed := by
  rw [Session.displayed, Session.displayed, h.debugger]
  exact h.report _

/-! ### Traces and files -/

theorem stopTracing :
    ∃ result s' t', s.stopTracing = (result, s') ∧ t.stopTracing = (result, t') ∧ Alongside last cs cs' s' t' := by
  obtain ⟨hlast, hcommands, rfl⟩ := h
  refine ⟨_, _, _, rfl, Prod.ext ?_ rfl, ?_, ?_, ?_⟩
  all_goals
    simp only [Session.stopTracing]
    cases s.debugger.recorder <;> first | rfl | assumption

theorem conclude (outcome : Outcome) : Alongside last cs cs' (s.conclude outcome) (t.conclude outcome) := by
  obtain ⟨result, s', t', hs, ht, hstop⟩ := h.stopTracing
  rw [Session.conclude, Session.conclude, hs, ht]
  cases result with
  | error reason => exact hstop.fail _
  | ok _ => exact hstop.goTo _

theorem quit : Alongside last cs cs' s.quit t.quit := (h.report _).conclude _

theorem startTracing (path : String) : Alongside last cs cs' (s.startTracing path) (t.startTracing path) := by
  rw [Session.startTracing, Session.startTracing, h.folder]
  cases s.folder.create path with
  | error reason => exact h.report _
  | ok f =>
    obtain ⟨result, s', t', hs, ht, hstop⟩ := (h.withFolder f).stopTracing
    simp only [hs, ht]
    cases result with
    | error reason => exact hstop.fail _
    | ok _ => exact hstop.update rfl

theorem dump (path : String) : Alongside last cs cs' (s.dump path) (t.dump path) := by
  have hdebugger := h.debugger
  rw [Session.dump, Session.dump, h.folder, hdebugger]
  cases s.folder.create path with
  | error reason => exact h.report _
  | ok f =>
    have hwritten := h.withFolder (f.write path 0 (ByteArray.mk s.debugger.processor.memory.dump.toArray))
    simpa only [hdebugger] using hwritten

/-! ### Commands -/

theorem execute (c : Command) : Alongside last cs cs' (s.execute c) (t.execute c) := by
  have hdebugger := h.debugger
  cases c with
  | backtrace | listBreakpoints | disassemble a | executed | memory a | help =>
    simp only [Session.execute, hdebugger]
    exact h.report _
  | setBreakpoint a condition | track r | untrack r =>
    simp only [Session.execute]
    exact h.update rfl
  | resume => exact h.goTo _
  | finish | reset | step count => exact (h.update rfl).goTo _
  | dump path => exact h.dump path
  | print e =>
    simp only [Session.execute, print, hdebugger]
    cases e.evaluate? s.debugger.processor with
    | none => exact h.fail _
    | some v => exact h.report _
  | assign x =>
    simp only [Session.execute, assign, hdebugger]
    cases x.perform? s.debugger.processor with
    | none => exact h.fail _
    | some p => exact h.update rfl
  | inputMode mode => exact (h.update rfl).report _
  | setTemporary a count =>
    simp only [Session.execute, setTemporary, hdebugger]
    cases s.debugger.breakpoints.setTemporary? a count with
    | none => exact h.fail _
    | some bs => exact h.update rfl
  | trace path =>
    cases path with
    | some path => exact h.startTracing path
    | none =>
      obtain ⟨result, s', t', hs, ht, hstop⟩ := h.stopTracing
      simp only [Session.execute, hs, ht]
      cases result with
      | error reason => exact hstop.fail _
      | ok _ => exact hstop
  | removeBreakpoint a =>
    cases a with
    | none =>
      simp only [Session.execute]
      exact h.update rfl
    | some a =>
      simp only [Session.execute, removeBreakpoint, hdebugger]
      cases s.debugger.breakpoints.find? a with
      | none => exact h.report _
      | some b => exact h.update rfl

/-- A line is remembered whatever becomes of it. -/
theorem runLine (line : String) : Alongside (some line) cs cs' (s.runLine line) (t.runLine line) := by
  have hline : Alongside (some line) cs cs' (s.update ({ · with lastLine := some line }))
      (t.update ({ · with lastLine := some line })) :=
    ⟨rfl, h.commands, by rw [h.same]; rfl⟩
  rw [Session.runLine, Session.runLine]
  cases Command.parse line with
  | error e => exact hline.report _
  | ok c => exact hline.execute c

/-! ### Phases -/

theorem decide : Alongside last cs cs' s.decide t.decide := by
  have hdebugger := h.debugger
  unfold Session.decide
  simp only [hdebugger]
  by_cases hunlocked : s.debugger.processor.unlocked = true
  · simp only [if_pos hunlocked]
    exact h.reportCount.conclude _
  by_cases hhalted : s.debugger.processor.isHalted = true
  · simp only [if_neg hunlocked, if_pos hhalted]
    exact (h.report _).reportCount.conclude _
  simp only [if_neg hunlocked, if_neg hhalted]
  cases hcheck : checkBreakpoints { s.debugger with countdown := s.debugger.countdown - 1 } with
  | none => exact h.fail _
  | some x =>
    obtain ⟨bs, hx⟩ := eq_of_checkBreakpoints hcheck
    exact ⟨(congrArg (·.lastLine) hx).trans h.last, h.commands, by rw [h.same]⟩

theorem afterStep (result : Except Stop StepInfo) :
    Alongside last cs cs' (s.afterStep result) (t.afterStep result) := by
  rcases result with stop | info
  · cases stop with
    | halted | unlocked => exact h.goTo _
    | endOfInput => exact h.quit
    | cancelled => exact (h.update rfl).goTo _
    | unreadable => exact h.fail _
    | fault f => exact (h.report _).reportCount.conclude _
  · refine (h.update ?_).goTo _
    rw [Debugger.follow_eq]
    split <;> rfl

theorem step : Alongside last cs cs' s.step t.step := by
  have hadvanced : Alongside last cs cs' s.advanced t.advanced := ⟨h.last, h.commands, by rw [h.same]; rfl⟩
  have hnext : t.next = s.next := by rw [h.same]; rfl
  rw [show s.step = s.advanced.afterStep s.next.result from rfl,
    show t.step = t.advanced.afterStep t.next.result from rfl, hnext]
  exact hadvanced.afterStep _

end Alongside

variable {cs cs' : CommandSource} {s t : Session}

theorem Alongside.obey (h : Alongside (nearest? earlier) cs cs' s t) (answer : Answer) :
    Alongside (nearest? (answer.lines ++ earlier)) cs cs' (s.obey answer) (t.obey answer) := by
  cases answer with
  | line line =>
    rw [Answer.lines, List.singleton_append, nearest?_cons, Session.obey, Session.obey]
    split
    · exact h
    · exact h.runLine line
  | ended | cancelled => exact h.quit
  | failed reason | unreadable => exact h.fail _

/-- The same is read from both sources, or the one has a blank line of the other filled in. -/
theorem Alongside.readLine {last : Option String} (h : Alongside last cs (cs.filled earlier) s t) :
    ∃ answer answer' s' t' cs', s.readLine = (answer, s') ∧ t.readLine = (answer', t') ∧
      (answer' = answer ∨ answer' = answer.filled earlier) ∧
      Alongside last cs' (cs'.filled (answer.lines ++ earlier)) s' t' := by
  obtain ⟨d, console, folder, commands, phase⟩ := s
  obtain ⟨hlast, rfl, rfl⟩ := h
  cases commands with
  | console => exact ⟨_, _, _, _, _, rfl, rfl, .inl rfl, hlast, rfl, rfl⟩
  | file reader => exact ⟨_, _, _, _, _, rfl, rfl, .inl rfl, hlast, rfl, rfl⟩
  | lines answers =>
    cases answers with
    | nil => exact ⟨_, _, _, _, _, rfl, rfl, .inl rfl, hlast, rfl, rfl⟩
    | cons answer rest => exact ⟨_, _, _, _, _, rfl, rfl, .inr rfl, hlast, rfl, rfl⟩

/-- The line that the next tick reads, if it reads one. -/
def lineRead (s : Session) : List String := if s.phase = .prompting then s.displayed.readLine.1.lines else []

/-- A tick keeps two sessions side by side, with the line that it reads as the last one. -/
theorem Alongside.tick (h : Alongside (nearest? earlier) cs (cs.filled earlier) s t) :
    ∃ cs', Alongside (nearest? (s.lineRead ++ earlier)) cs' (cs'.filled (s.lineRead ++ earlier)) s.tick t.tick := by
  by_cases hprompting : s.phase = .prompting
  · obtain ⟨answer, answer', s', t', cs', hs, ht, hanswer, hread⟩ := h.displayed.readLine
    have hfilled : answer'.filled earlier = answer.filled earlier := by
      rcases hanswer with rfl | rfl
      · rfl
      · exact answer.filled_filled earlier
    have hline : s.lineRead = answer.lines := by rw [lineRead, if_pos hprompting, hs]
    have htick : s.tick = s'.obey (answer.filled earlier) := by
      rw [Session.tick, hprompting]
      exact prompt_eq_obey hs h.last
    have htick' : t.tick = t'.obey (answer.filled earlier) := by
      rw [Session.tick, h.phase, hprompting, ← hfilled]
      exact prompt_eq_obey ht (h.debugger ▸ h.last)
    rw [htick, htick', hline, ← nearest?_lines_filled]
    exact ⟨cs', hread.obey _⟩
  · have hline : s.lineRead = [] := if_neg hprompting
    rw [hline, List.nil_append, Session.tick, Session.tick, h.phase]
    cases hphase : s.phase with
    | deciding => exact ⟨cs, h.decide⟩
    | prompting => exact absurd hphase hprompting
    | stepping => exact ⟨cs, h.step⟩
    | ended outcome => exact ⟨cs, h⟩

/-! ### Whole sessions -/

/-- The second session is the first one with blank lines filled in: those of scripts when it is given them, and others
    at the prompts where they would be read. The lines that have been read are listed from the last one back, and they
    stay when the debugger is changed otherwise, or is given other commands and another host. -/
inductive Refilled : List String → Session → Session → Prop
  | start {s : Session} (h : s.debugger.lastLine = none) : Refilled [] s { s with commands := s.commands.filled [] }
  | tick {earlier : List String} {s t : Session} (h : Refilled earlier s t) :
    Refilled (s.lineRead ++ earlier) s.tick t.tick
  | refill {earlier : List String} {s t u v : Session} {blank line : String} (h : Refilled earlier s t)
    (hphase : t.phase = .prompting) (hread : t.displayed.readLine = (.line blank, v))
    (hblank : (Text.trim blank).isEmpty = true) (hline : nearest? earlier = some line)
    (hphase' : u.phase = .prompting) (hread' : u.displayed.readLine = (.line line, v)) :
    Refilled (s.lineRead ++ earlier) s.tick u.tick
  | change {earlier : List String} {s t : Session} (h : Refilled earlier s t) {f : Debugger → Debugger}
    (hf : ∀ d, (f d).lastLine = d.lastLine) : Refilled earlier (s.update f) (t.update f)
  | restart {earlier : List String} {s t : Session} (h : Refilled earlier s t) (c : Console) (f : Folder)
    (commands : CommandSource) :
    Refilled earlier ({ s with console := c, folder := f }.restart commands)
      ({ t with console := c, folder := f }.restart (commands.filled earlier))

/-- The line that a prompt remembers may as well be entered. -/
theorem tick_eq_of_refill {u v : Session} {blank line : String} (hlast : t.debugger.lastLine = nearest? earlier)
    (hphase : t.phase = .prompting) (hread : t.displayed.readLine = (.line blank, v))
    (hblank : (Text.trim blank).isEmpty = true) (hline : nearest? earlier = some line)
    (hphase' : u.phase = .prompting) (hread' : u.displayed.readLine = (.line line, v)) : u.tick = t.tick := by
  have hlast' : u.debugger.lastLine = nearest? earlier := by
    rw [← debugger_of_readLine hread', debugger_of_readLine hread, hlast]
  have hsame : (Answer.line line).filled earlier = (Answer.line blank).filled earlier := by
    simp [Answer.filled, hblank, hline, not_blank_of_nearest? hline]
  calc u.tick = u.prompt := by rw [tick, hphase']
    _ = v.obey ((Answer.line line).filled earlier) := prompt_eq_obey hread' hlast'
    _ = v.obey ((Answer.line blank).filled earlier) := by rw [hsame]
    _ = t.prompt := (prompt_eq_obey hread hlast).symm
    _ = t.tick := by rw [tick, hphase]

/-- A blank line that is about to be read at the console is filled in. -/
theorem Refilled.refill_console {blank line echo : String} {rest : List Reply} (h : Refilled earlier s t)
    (hphase : t.phase = .prompting) (hcommands : t.commands = .console)
    (hreplies : t.console.replies = { answer := .line blank, echo } :: rest)
    (hblank : (Text.trim blank).isEmpty = true) (hline : nearest? earlier = some line) :
    Refilled (s.lineRead ++ earlier) s.tick
      { t with console := { t.console with replies := { answer := .line line, echo } :: rest } }.tick := by
  obtain ⟨d, console, folder, commands, phase⟩ := t
  obtain ⟨replies, shown, outputFailure, noticeFailure, exhausted⟩ := console
  obtain rfl : commands = .console := hcommands
  obtain rfl : replies = { answer := .line blank, echo } :: rest := hreplies
  exact h.refill hphase rfl hblank hline hphase rfl

theorem Refilled.alongside (h : Refilled earlier s t) :
    ∃ cs, Alongside (nearest? earlier) cs (cs.filled earlier) s t := by
  induction h with
  | start h => exact ⟨_, h, rfl, rfl⟩
  | tick _ ih =>
    obtain ⟨cs, h⟩ := ih
    exact h.tick
  | refill _ hphase hread hblank hline hphase' hread' ih =>
    obtain ⟨cs, h⟩ := ih
    rw [tick_eq_of_refill (h.debugger ▸ h.last) hphase hread hblank hline hphase' hread']
    exact h.tick
  | change _ hf ih =>
    obtain ⟨cs, h⟩ := ih
    exact ⟨cs, h.update (hf _)⟩
  | restart _ c f commands ih =>
    obtain ⟨cs, h⟩ := ih
    exact ⟨commands, h.last, rfl, by rw [h.same]; rfl⟩

theorem Refilled.nearest?_eq (h : Refilled earlier s t) : nearest? earlier = s.debugger.lastLine := by
  obtain ⟨cs, hs⟩ := h.alongside
  exact hs.last.symm

theorem Refilled.ticks (h : Refilled earlier s t) (n : Nat) :
    ∃ earlier', Refilled earlier' (s.ticks n) (t.ticks n) := by
  induction n generalizing earlier s t with
  | zero => exact ⟨earlier, h⟩
  | succ n ih => exact ih h.tick

/-- A session in which blank lines are filled in with the nearest lines before them shows the same, ends the same way
    and has the same debugger and the same files at all times. -/
theorem blank_lines_repeat (h : Refilled earlier s t) (n : Nat) :
    (t.ticks n).phase = (s.ticks n).phase ∧ (t.ticks n).console = (s.ticks n).console ∧
      (t.ticks n).debugger = (s.ticks n).debugger ∧ (t.ticks n).folder = (s.ticks n).folder := by
  obtain ⟨earlier', hn⟩ := h.ticks n
  obtain ⟨cs, hticks⟩ := hn.alongside
  rw [hticks.same]
  exact ⟨rfl, rfl, rfl, rfl⟩

/-- Steps, a refused line and a new start are repeated, the blank line at the start is not, and the first line at the
    console repeats the last one of the script. -/
theorem blank_lines_repeat_restarted :
    let m := (Memory.zero.writeWords 0x4400 (List.replicate 8 0x5315)).writeWord Memory.resetAddress 0x4400
    let script := ["", "s", " ", "go", "", "reset", "", "break 4408", "s 2", "\t"].map Answer.line
    let filled := ["", "s", "s", "go", "go", "reset", "reset", "break 4408", "s 2", "s 2"].map Answer.line
    let s := (opened m {} none {} {} (.lines script)).ticks 26
    let t := (opened m {} none {} {} (.lines filled)).ticks 26
    let c : Console := { replies := [{ answer := .line "" }] }
    let s' := ({ s with console := c, folder := {} }.restart .console).tick
    let t' := ({ t with console := c, folder := {} }.restart .console).tick
    let u' := { t' with console := { t'.console with replies := [{ answer := .line "s 2" }] } }
    s.phase = .ended .endOfInput ∧ s.debugger.processor.registers.get 5 = 4 ∧ t.console = s.console ∧
      (s'.tick.ticks 6).phase = .ended .endOfInput ∧ (s'.tick.ticks 6).debugger.processor.registers.get 5 = 6 ∧
      (u'.tick.ticks 6).console = (s'.tick.ticks 6).console ∧
      (u'.tick.ticks 6).debugger = (s'.tick.ticks 6).debugger := by
  intro m script filled s t c s' t' u'
  have hfill : fillIn [] script = filled := by decide +kernel
  have hopened : Refilled [] (opened m {} none {} {} (.lines script)) (opened m {} none {} {} (.lines filled)) := by
    rw [← hfill]
    exact .start rfl
  obtain ⟨earlier, hs⟩ := hopened.ticks 26
  have hs' : Refilled _ s' t' := (hs.restart c {} .console).tick
  have hlast := hs'.nearest?_eq.trans (show s'.debugger.lastLine = some "s 2" by decide +kernel)
  have hphase : t'.phase = .prompting := by decide +kernel
  have hcommands : t'.commands = .console := by decide +kernel
  have hreplies : t'.console.replies = [{ answer := .line "" }] := by decide +kernel
  have hu := hs'.refill_console hphase hcommands hreplies (by decide +kernel) hlast
  obtain ⟨-, hconsole, -, -⟩ := blank_lines_repeat hopened 26
  obtain ⟨-, hconsole', hdebugger', -⟩ := blank_lines_repeat hu 6
  exact ⟨by decide +kernel, by decide +kernel, hconsole, by decide +kernel, by decide +kernel, hconsole', hdebugger'⟩

end Session
end MicroDebug

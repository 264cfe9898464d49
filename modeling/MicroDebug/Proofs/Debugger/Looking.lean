import MicroDebug.Proofs.Debugger.Ticks
import MicroDebug.Proofs.Processor.Onlookers
import MicroDebug.Proofs.Trace.Recording

/-! Looking does not disturb. Lines that only look, put anywhere into a script, cost ticks at prompts and nothing else,
    and a trace that never fails has no part in the run. Of two sessions that differ in such lines and in their traces,
    a tick of the one is a tick of the other or the carrying out of a line that only looks. -/

namespace MicroDebug

/-- The debugger without what only shows: the tracked registers, the last line and the trace. -/
def Debugger.bare (d : Debugger) : Debugger := { d with tracked := [], lastLine := none, recorder := none }

namespace Command

/-- Whether the command shows something of the program, or changes which registers are shown. -/
def looks : Command → Bool
  | backtrace | listBreakpoints | disassemble _ | help | executed | memory _ | print _ | track _ | untrack _ => true
  | setBreakpoint _ _ | resume | dump _ | finish | reset | assign _ | inputMode _ | step _ | setTemporary _ _ | trace _
  | removeBreakpoint _ => false

end Command

namespace Session

/-- The line is not blank, and it is refused or only looks. -/
def LookLine (line : String) : Prop :=
  (Text.trim line).isEmpty = false ∧ ∀ c ∈ (Command.parse line).toOption, c.looks = true

instance (line : String) : Decidable (LookLine line) := inferInstanceAs (Decidable (_ ∧ _))

/-- The second script is the first one, without blank lines, with lines put in that only look. -/
inductive LooksPutIn : List Answer → List Answer → Prop
  | nil : LooksPutIn [] []
  | keep {answer : Answer} {xs ys : List Answer}
      (hblank : ∀ line, answer = .line line → (Text.trim line).isEmpty = false) (h : LooksPutIn xs ys) :
      LooksPutIn (answer :: xs) (answer :: ys)
  | look {line : String} {xs ys : List Answer} (hlook : LookLine line) (h : LooksPutIn xs ys) :
      LooksPutIn xs (.line line :: ys)

/-- Two sessions differ in lines to come that only look, and in the trace, the tracked registers, the last line and the
    text of the debugger. If the files started out alike but for some names, they still are. -/
structure LookedAt (started : List String → Prop) (xs ys : List Answer) (s t : Session) : Prop where
  debugger : t.debugger.bare = s.debugger.bare
  phase : t.phase = s.phase
  console : s.console.Alike t.console
  reliable : ∀ x, s.debugger.recorder = some x → x.Reliable
  reliable' : ∀ x, t.debugger.recorder = some x → x.Reliable
  commands : s.commands = .lines xs
  commands' : t.commands = .lines ys
  putIn : LooksPutIn xs ys
  files : ∀ names, started names →
    Recorder.Agree names s.debugger.recorder t.debugger.recorder s.folder t.folder

theorem stopTracing_of_reliable {s : Session} (h : ∀ x, s.debugger.recorder = some x → x.Reliable) :
    s.stopTracing = (.ok (), { s with
      debugger := { s.debugger with recorder := none }
      folder := Recorder.ended s.debugger.recorder s.folder }) := by
  rw [stopTracing]
  cases hr : s.debugger.recorder with
  | none =>
    obtain ⟨⟨_, _, _, _, _, _, _, _, _, _, recorder⟩, _, _, _, _⟩ := s
    obtain rfl : recorder = none := hr
    rfl
  | some x =>
    obtain ⟨q, writes, hfinish⟩ := Recorder.finish_eq (h x hr)
    simp only [Recorder.ended, Option.map_some, Option.getD_some, hfinish]
    rfl

theorem startTracing_of_reliable {s : Session} (h : ∀ x, s.debugger.recorder = some x → x.Reliable) (path : String) :
    ∃ c, s.startTracing path = { s with
        debugger := { s.debugger with recorder := (Recorder.begun path s.debugger.recorder s.folder).1 }
        folder := (Recorder.begun path s.debugger.recorder s.folder).2
        console := c } ∧ (c = s.console ∨ ∃ text, c = s.console.report text) ∧
      ∀ x, (Recorder.begun path s.debugger.recorder s.folder).1 = some x → x.Reliable := by
  rw [startTracing]
  cases hcreate : s.folder.create path with
  | error reason =>
    simp only [Recorder.begun, hcreate]
    exact ⟨_, rfl, .inr ⟨_, rfl⟩, h⟩
  | ok f =>
    simp only [stopTracing_of_reliable (s := { s with folder := f }) h, Recorder.begun, hcreate]
    exact ⟨_, rfl, .inl rfl, fun x hx => Option.some.inj hx ▸ rfl⟩

theorem dump_eq (s : Session) (path : String) :
    ∃ c f, s.dump path = { s with folder := f, console := c } ∧ (c = s.console ∨ ∃ text, c = s.console.report text) ∧
      f = s.folder.written path (ByteArray.mk s.debugger.processor.memory.dump.toArray) := by
  rw [dump]
  cases hcreate : s.folder.create path with
  | error reason =>
    simp only [Folder.written, hcreate]
    exact ⟨_, _, rfl, .inr ⟨_, rfl⟩, rfl⟩
  | ok f =>
    simp only [Folder.written, hcreate]
    exact ⟨_, _, rfl, .inl rfl, rfl⟩

/-- What is done about an answer at a prompt that is no blank line. -/
def afterAnswer (s : Session) : Answer → Session
  | .failed reason => s.fail (.commands reason)
  | .unreadable => s.fail .unreadable
  | .ended | .cancelled => s.quit
  | .line line => s.runLine line

theorem prompt_of_nil {s : Session} (h : s.commands = .lines []) : s.prompt = s.displayed.quit := by
  simp only [prompt, displayed, readLine, report, h]

theorem prompt_of_answer {s : Session} {answer : Answer} {rest : List Answer} (h : s.commands = .lines (answer :: rest))
    (hblank : ∀ line, answer = .line line → (Text.trim line).isEmpty = false) :
    s.prompt = { s.displayed with commands := .lines rest }.afterAnswer answer := by
  simp only [prompt, displayed, readLine, report, h]
  cases answer with
  | line line => simp only [hblank line rfl, Bool.false_eq_true, if_false, afterAnswer]
  | ended | cancelled | failed reason | unreadable => rfl

theorem checkBreakpoints_of_bare {d e : Debugger} (h : e.bare = d.bare) :
    (checkBreakpoints d = none ∧ checkBreakpoints e = none) ∨
      ∃ hit d' e', checkBreakpoints d = some (hit, d') ∧ checkBreakpoints e = some (hit, e') ∧ e'.bare = d'.bare ∧
        d'.recorder = d.recorder ∧ e'.recorder = e.recorder := by
  have hretrying : e.retrying = d.retrying := congrArg (·.retrying) h
  by_cases hretry : d.retrying = true
  · rw [checkBreakpoints, checkBreakpoints, if_pos hretry, if_pos (hretrying.trans hretry)]
    exact .inr ⟨_, _, _, rfl, rfl, congrArg (fun d => { d with retrying := false }) h, rfl, rfl⟩
  · have hcheck : e.breakpoints.check? e.processor.pc e.processor = d.breakpoints.check? d.processor.pc d.processor :=
      congrArg (fun d => d.breakpoints.check? d.processor.pc d.processor) h
    rw [checkBreakpoints, checkBreakpoints, if_neg hretry, if_neg (hretrying ▸ hretry), hcheck]
    cases d.breakpoints.check? d.processor.pc d.processor with
    | none => exact .inl ⟨rfl, rfl⟩
    | some x => exact .inr ⟨_, _, _, rfl, rfl, congrArg (fun d => { d with breakpoints := x.2 }) h, rfl, rfl⟩

namespace LookedAt

variable {started : List String → Prop} {xs ys : List Answer} {s t : Session} (h : LookedAt started xs ys s t)
include h

theorem processor : t.debugger.processor = s.debugger.processor := congrArg (·.processor) h.debugger

theorem breakpoints : t.debugger.breakpoints = s.debugger.breakpoints := congrArg (·.breakpoints) h.debugger

theorem countdown : t.debugger.countdown = s.debugger.countdown := congrArg (·.countdown) h.debugger

theorem report (text text' : String) : LookedAt started xs ys (s.report text) (t.report text') :=
  { h with console := h.console.report text text' }

theorem report_right (text : String) : LookedAt started xs ys s (t.report text) :=
  { h with console := h.console.report_right text }

theorem goTo (phase : Phase) : LookedAt started xs ys (s.goTo phase) (t.goTo phase) := { h with phase := rfl }

theorem fail (e : SessionError) : LookedAt started xs ys (s.fail e) (t.fail e) := h.goTo _

theorem reportCount : LookedAt started xs ys s.reportCount t.reportCount := h.report _ _

theorem withDebugger {d e : Debugger} (hbare : e.bare = d.bare) (hd : d.recorder = s.debugger.recorder)
    (he : e.recorder = t.debugger.recorder) :
    LookedAt started xs ys { s with debugger := d } { t with debugger := e } :=
  { h with
    debugger := hbare
    reliable := fun x hx => h.reliable x (hd.symm.trans hx)
    reliable' := fun x hx => h.reliable' x (he.symm.trans hx)
    files := fun names hnames => by
      have hfiles := h.files names hnames
      rw [← hd, ← he] at hfiles
      exact hfiles }

/-- A change that has nothing to do with what only shows keeps the difference. -/
theorem update {f : Debugger → Debugger} (hf : ∀ d, (f d).bare = (f d.bare).bare ∧ (f d).recorder = d.recorder) :
    LookedAt started xs ys (s.update f) (t.update f) :=
  h.withDebugger ((hf t.debugger).1.trans (h.debugger ▸ (hf s.debugger).1.symm)) (hf s.debugger).2 (hf t.debugger).2

/-- A change of what only shows may be made in one of the sessions. -/
theorem update_right {f : Debugger → Debugger} (hf : ∀ d, (f d).bare = d.bare ∧ (f d).recorder = d.recorder) :
    LookedAt started xs ys s (t.update f) :=
  h.withDebugger ((hf t.debugger).1.trans h.debugger) rfl (hf t.debugger).2

/-! ### Traces and files -/

/-- The traces may be others and the folders too, and there may be another report. -/
theorem retraced {c d : Console} {r r' : Option Recorder} {f g : Folder} (hconsole : c.Alike d)
    (hr : ∀ x, r = some x → x.Reliable) (hr' : ∀ x, r' = some x → x.Reliable)
    (hfiles : ∀ names, started names → Recorder.Agree names r r' f g) :
    LookedAt started xs ys { s with debugger := { s.debugger with recorder := r }, console := c, folder := f }
      { t with debugger := { t.debugger with recorder := r' }, console := d, folder := g } :=
  { h with console := hconsole, reliable := hr, reliable' := hr', files := hfiles }

theorem stopTracing :
    ∃ s' t', s.stopTracing = (.ok (), s') ∧ t.stopTracing = (.ok (), t') ∧ LookedAt started xs ys s' t' :=
  ⟨_, _, stopTracing_of_reliable h.reliable, stopTracing_of_reliable h.reliable',
    h.retraced h.console nofun nofun fun names hnames =>
      ⟨(h.files names hnames).ended h.reliable h.reliable', .inl rfl⟩⟩

theorem conclude (outcome : Outcome) : LookedAt started xs ys (s.conclude outcome) (t.conclude outcome) := by
  obtain ⟨s', t', hs, ht, hlooked⟩ := h.stopTracing
  rw [Session.conclude, Session.conclude, hs, ht]
  exact hlooked.goTo _

theorem quit : LookedAt started xs ys s.quit t.quit := (h.report _ _).conclude _

theorem startTracing (path : String) : LookedAt started xs ys (s.startTracing path) (t.startTracing path) := by
  obtain ⟨c, hs, hc, hr⟩ := startTracing_of_reliable h.reliable path
  obtain ⟨d, ht, hd, hr'⟩ := startTracing_of_reliable h.reliable' path
  rw [hs, ht]
  exact h.retraced (h.console.reported hc hd) hr hr' fun names hnames =>
    (h.files names hnames).begun h.reliable h.reliable' path

theorem dump (path : String) : LookedAt started xs ys (s.dump path) (t.dump path) := by
  obtain ⟨c, f, hs, hc, hf⟩ := s.dump_eq path
  obtain ⟨d, g, ht, hd, hg⟩ := t.dump_eq path
  rw [hs, ht]
  refine h.retraced (h.console.reported hc hd) h.reliable h.reliable' fun names hnames => ?_
  rw [hf, hg, h.processor]
  exact (h.files names hnames).written path _

/-! ### Commands -/

theorem execute (c : Command) : LookedAt started xs ys (s.execute c) (t.execute c) := by
  cases c with
  | backtrace | listBreakpoints | disassemble a | executed | memory a | help => exact h.report _ _
  | setBreakpoint a condition | track r | untrack r =>
    simp only [Session.execute]
    exact h.update fun _ => ⟨rfl, rfl⟩
  | resume => exact h.goTo _
  | finish | reset | step count => exact (h.update fun _ => by exact ⟨rfl, rfl⟩).goTo _
  | dump path => exact h.dump path
  | print e =>
    simp only [Session.execute, print, h.processor]
    cases e.evaluate? s.debugger.processor with
    | none => exact h.fail _
    | some v => exact h.report _ _
  | assign x =>
    simp only [Session.execute, assign, h.processor]
    cases x.perform? s.debugger.processor with
    | none => exact h.fail _
    | some p => exact h.update fun _ => by exact ⟨rfl, rfl⟩
  | inputMode mode => exact (h.update fun _ => by exact ⟨rfl, rfl⟩).report _ _
  | setTemporary a count =>
    simp only [Session.execute, setTemporary, h.breakpoints]
    cases s.debugger.breakpoints.setTemporary? a count with
    | none => exact h.fail _
    | some bs => exact h.update fun _ => by exact ⟨rfl, rfl⟩
  | trace path =>
    cases path with
    | some path => exact h.startTracing path
    | none =>
      obtain ⟨s', t', hs, ht, hlooked⟩ := h.stopTracing
      simp only [Session.execute, hs, ht]
      exact hlooked
  | removeBreakpoint a =>
    cases a with
    | none =>
      simp only [Session.execute]
      exact h.update fun _ => ⟨rfl, rfl⟩
    | some a =>
      simp only [Session.execute, removeBreakpoint, h.breakpoints]
      cases s.debugger.breakpoints.find? a with
      | none => exact h.report _ _
      | some b => exact h.update fun _ => by exact ⟨rfl, rfl⟩

theorem runLine (line : String) : LookedAt started xs ys (s.runLine line) (t.runLine line) := by
  have hline : LookedAt started xs ys (s.update ({ · with lastLine := some line }))
      (t.update ({ · with lastLine := some line })) :=
    h.update fun _ => ⟨rfl, rfl⟩
  rw [Session.runLine, Session.runLine]
  cases Command.parse line with
  | error e => exact hline.report _ _
  | ok c => exact hline.execute c

/-- A line that only looks leaves the first session where it is. -/
theorem look {line : String} (hlook : LookLine line) : LookedAt started xs ys s (t.runLine line) := by
  have hline : LookedAt started xs ys s (t.update ({ · with lastLine := some line })) :=
    h.update_right fun _ => ⟨rfl, rfl⟩
  rw [Session.runLine]
  cases hparse : Command.parse line with
  | error e => exact hline.report_right _
  | ok c =>
    have hlooks : c.looks = true := hlook.2 c (by rw [hparse]; rfl)
    have hsound := Command.sound_parse hparse
    cases c with
    | setBreakpoint _ _ | resume | dump _ | finish | reset | assign _ | inputMode _ | step _ | setTemporary _ _
    | trace _ | removeBreakpoint _ => cases hlooks
    | backtrace | listBreakpoints | disassemble a | executed | memory a | help => exact hline.report_right _
    | track r | untrack r =>
      simp only [Session.execute]
      exact hline.update_right fun _ => ⟨rfl, rfl⟩
    | print e =>
      obtain ⟨v, hv, -⟩ := Postfix.Sound.exists_evaluate? hsound t.debugger.processor
      simp only [Session.execute, print]
      rw [show (t.update _).debugger.processor = t.debugger.processor from rfl, hv]
      exact hline.report_right _

/-! ### Phases -/

theorem afterAnswer (answer : Answer) : LookedAt started xs ys (s.afterAnswer answer) (t.afterAnswer answer) := by
  cases answer with
  | line line => exact h.runLine line
  | ended | cancelled => exact h.quit
  | failed reason | unreadable => exact h.fail _

/-- A prompt carries out the same in both sessions, or a line that only looks in the second one. -/
theorem prompt :
    (∃ xs' ys', LookedAt started xs' ys' s.prompt t.prompt) ∨
      ∃ line ys', ys = .line line :: ys' ∧ LookedAt started xs ys' s t.prompt := by
  have hs := h.commands
  have ht := h.commands'
  have hdisplayed : LookedAt started xs ys s.displayed t.displayed := h.report _ _
  cases h.putIn with
  | nil =>
    rw [prompt_of_nil hs, prompt_of_nil ht]
    exact .inl ⟨[], [], hdisplayed.quit⟩
  | @keep answer xs' ys' hblank hput =>
    have hafter : LookedAt started xs' ys' { s.displayed with commands := .lines xs' }
        { t.displayed with commands := .lines ys' } :=
      { hdisplayed with commands := rfl, commands' := rfl, putIn := hput }
    rw [prompt_of_answer hs hblank, prompt_of_answer ht hblank]
    exact .inl ⟨xs', ys', hafter.afterAnswer answer⟩
  | @look line xs ys' hlook hput =>
    have hafter : LookedAt started xs ys' s { t.displayed with commands := .lines ys' } :=
      { h.report_right _ with commands' := rfl, putIn := hput }
    rw [prompt_of_answer ht fun _ hline => Answer.line.inj hline ▸ hlook.1, Session.afterAnswer]
    exact .inr ⟨line, ys', rfl, hafter.look hlook⟩

theorem decide : LookedAt started xs ys s.decide t.decide := by
  have hunlocked : t.debugger.processor.unlocked = s.debugger.processor.unlocked := congrArg (·.unlocked) h.processor
  have hhalted : t.debugger.processor.isHalted = s.debugger.processor.isHalted := congrArg (·.isHalted) h.processor
  have hcounted : { t.debugger with countdown := s.debugger.countdown - 1 }.bare =
      { s.debugger with countdown := s.debugger.countdown - 1 }.bare :=
    congrArg (fun d => { d with countdown := s.debugger.countdown - 1 }) h.debugger
  simp only [Session.decide, hunlocked, hhalted, h.countdown]
  split
  · exact h.reportCount.conclude _
  split
  · exact (h.report _ _).reportCount.conclude _
  obtain ⟨hs, ht⟩ | ⟨hit, d, e, hs, ht, hbare, hd, he⟩ := checkBreakpoints_of_bare hcounted
  · simp only [hs, ht]
    exact h.fail _
  · simp only [hs, ht]
    exact (h.withDebugger hbare hd he).goTo _

theorem afterStep (result : Except Stop StepInfo) :
    LookedAt started xs ys (s.afterStep result) (t.afterStep result) := by
  rcases result with stop | info
  · cases stop with
    | halted | unlocked => exact h.goTo _
    | endOfInput => exact h.quit
    | cancelled => exact (h.update fun _ => by exact ⟨rfl, rfl⟩).goTo _
    | unreadable => exact h.fail _
    | fault f => exact (h.report _ _).reportCount.conclude _
  · refine (h.update fun d => ?_).goTo .deciding
    rw [Debugger.follow_eq, Debugger.follow_eq]
    split <;> exact ⟨rfl, rfl⟩

/-- The same comes of the next step. -/
theorem next :
    t.next.result = s.next.result ∧ t.next.processor = s.next.processor ∧ s.next.console.Alike t.next.console ∧
      (∀ x, s.next.watcher.1 = some x → x.Reliable) ∧ (∀ x, t.next.watcher.1 = some x → x.Reliable) ∧
      ∀ names, started names →
        Recorder.Agree names s.next.watcher.1 t.next.watcher.1 s.next.watcher.2 t.next.watcher.2 := by
  obtain ⟨hresult, hprocessor, hconsole, hwatchers⟩ :=
    Processor.stepWatched_alike h.console s.debugger.processor
      (fun q e => (Recorder.watch_eq (f := s.folder) h.reliable q e).1)
      (fun q e => (Recorder.watch_eq (f := t.folder) h.reliable' q e).1)
  simp only [Session.next, h.processor]
  refine ⟨hresult, hprocessor, hconsole, ?_⟩
  obtain ⟨hs, ht⟩ | ⟨q, e, hs, ht⟩ := hwatchers
  · rw [hs, ht]
    exact ⟨h.reliable, h.reliable', h.files⟩
  · rw [hs, ht]
    exact ⟨(Recorder.watch_eq h.reliable q e).2, (Recorder.watch_eq h.reliable' q e).2,
      fun names hnames => (h.files names hnames).watch h.reliable h.reliable' q e⟩

theorem step : LookedAt started xs ys s.step t.step := by
  obtain ⟨hresult, hprocessor, hconsole, hr, hr', hfiles⟩ := h.next
  have hmoved : LookedAt started xs ys (s.update (·.setProcessor s.next.processor))
      (t.update (·.setProcessor s.next.processor)) := h.update fun _ => ⟨rfl, rfl⟩
  have hadvanced : LookedAt started xs ys s.advanced t.advanced := by
    rw [advanced, advanced, hprocessor]
    exact hmoved.retraced hconsole hr hr' hfiles
  have hs : s.step = s.advanced.afterStep s.next.result := rfl
  have ht : t.step = t.advanced.afterStep t.next.result := rfl
  rw [hs, ht, hresult]
  exact hadvanced.afterStep s.next.result

/-- A tick does the same in both sessions, or it carries out a line that only looks in the second one. -/
theorem tick :
    (∃ xs' ys', LookedAt started xs' ys' s.tick t.tick) ∨
      ∃ line ys', ys = .line line :: ys' ∧ t.phase = .prompting ∧ LookedAt started xs ys' s t.tick := by
  rw [Session.tick, Session.tick, h.phase]
  cases hphase : s.phase with
  | deciding => exact .inl ⟨xs, ys, h.decide⟩
  | stepping => exact .inl ⟨xs, ys, h.step⟩
  | ended outcome => exact .inl ⟨xs, ys, h⟩
  | prompting =>
    obtain hprompt | ⟨line, ys', hys, hlooked⟩ := h.prompt
    · exact .inl hprompt
    · exact .inr ⟨line, ys', hys, rfl, hlooked⟩

end LookedAt

/-! ### Runs -/

/-- What is known of the step that the session is about to execute, if it is and the step goes well, and the program
    after it. -/
def execution? (s : Session) : Option (StepInfo × Processor) := s.stepped?.map fun info => (info, s.next.processor)

/-- The steps that the next ticks execute, in order, each with the program after it. -/
def executions : Nat → Session → List (StepInfo × Processor)
  | 0, _ => []
  | n + 1, s => s.execution?.toList ++ executions n s.tick

theorem executions_add (m n : Nat) (s : Session) :
    s.executions (m + n) = s.executions m ++ (s.ticks m).executions n := by
  induction m generalizing s with
  | zero => rw [Nat.zero_add, executions, List.nil_append, ticks]
  | succ m ih => rw [Nat.succ_add, executions, executions, ih, List.append_assoc, ticks]

theorem execution?_of_prompting {s : Session} (h : s.phase = .prompting) : s.execution? = none := by
  rw [execution?, stepped?, h]
  rfl

namespace LookedAt

variable {started : List String → Prop} {xs ys : List Answer} {s t : Session} (h : LookedAt started xs ys s t)
include h

theorem execution? : t.execution? = s.execution? := by
  obtain ⟨hresult, hprocessor, -⟩ := h.next
  rw [Session.execution?, Session.execution?, stepped?, stepped?, h.phase, hresult, hprocessor]

/-- The next tick of the first session is one of the second, after some at prompts. -/
theorem exists_tick :
    ∃ j xs' ys', LookedAt started xs' ys' s.tick (t.ticks (j + 1)) ∧ t.executions (j + 1) = s.execution?.toList := by
  induction ys generalizing t with
  | nil =>
    obtain ⟨xs', ys', htick⟩ | ⟨line, ys', hys, -⟩ := h.tick
    · exact ⟨0, xs', ys', htick, by rw [executions, h.execution?]; exact List.append_nil _⟩
    · cases hys
  | cons answer ys ih =>
    obtain ⟨xs', ys', htick⟩ | ⟨line, ys', hys, hphase, hlooked⟩ := h.tick
    · exact ⟨0, xs', ys', htick, by rw [executions, h.execution?]; exact List.append_nil _⟩
    · cases hys
      obtain ⟨j, xs'', ys'', htick, hexecutions⟩ := ih hlooked
      refine ⟨j + 1, xs'', ys'', htick, ?_⟩
      rw [executions, execution?_of_prompting hphase, hexecutions]
      rfl

theorem exists_ticks (n : Nat) :
    ∃ m xs' ys', LookedAt started xs' ys' (s.ticks n) (t.ticks m) ∧ t.executions m = s.executions n := by
  induction n generalizing xs ys s t with
  | zero => exact ⟨0, xs, ys, h, rfl⟩
  | succ n ih =>
    obtain ⟨j, xs', ys', htick, hfirst⟩ := h.exists_tick
    obtain ⟨m, xs'', ys'', hticks, hrest⟩ := ih htick
    refine ⟨j + 1 + m, xs'', ys'', ?_, ?_⟩
    · rw [ticks_add (j + 1) m t]
      exact hticks
    · rw [executions_add, hfirst, hrest, executions]

/-- Every tick of the second session is one of the first or at a prompt. -/
theorem ticks (m : Nat) :
    ∃ n xs' ys', LookedAt started xs' ys' (s.ticks n) (t.ticks m) ∧ t.executions m = s.executions n := by
  induction m generalizing xs ys s t with
  | zero => exact ⟨0, xs, ys, h, rfl⟩
  | succ m ih =>
    obtain ⟨xs', ys', htick⟩ | ⟨line, ys', -, hphase, hlooked⟩ := h.tick
    · obtain ⟨n, xs'', ys'', hticks, hrest⟩ := ih htick
      exact ⟨n + 1, xs'', ys'', hticks, by rw [executions, executions, h.execution?, hrest]⟩
    · obtain ⟨n, xs'', ys'', hticks, hrest⟩ := ih hlooked
      refine ⟨n, xs'', ys'', hticks, ?_⟩
      rw [executions, execution?_of_prompting hphase, hrest]
      rfl

end LookedAt

/-- Nothing is different in the second session but the tracked registers, the last line, the trace and the text of the
    debugger. -/
structure SameButReports (s t : Session) : Prop where
  debugger : t.debugger = { s.debugger with
    tracked := t.debugger.tracked, lastLine := t.debugger.lastLine, recorder := t.debugger.recorder }
  phase : t.phase = s.phase
  replies : t.console.replies = s.console.replies
  told : t.console.told = s.console.told

theorem LookedAt.sameButReports {started : List String → Prop} {xs ys : List Answer} {s t : Session}
    (h : LookedAt started xs ys s t) : SameButReports s t where
  debugger := congrArg (fun d => { d with
    tracked := t.debugger.tracked, lastLine := t.debugger.lastLine, recorder := t.debugger.recorder }) h.debugger
  phase := h.phase
  replies := h.console.replies
  told := h.console.told

/-- Looking does not disturb. If lines that only look are put into a script without blank lines, and a trace that never
    fails is attached, taken off or exchanged, then each state of a run is one of the other run up to the tracked
    registers, the last line, the trace and the text of the debugger, with the same steps executed before it. So it is
    with the folders, but for the files of the traces that they started with. -/
theorem looking_undisturbed {image : Memory} {o : Options} {trace trace' : Option Recorder} {c : Console}
    {f f' : Folder} {script script' : List Answer} (hscript : LooksPutIn script script')
    (htrace : ∀ x, trace = some x → x.Reliable) (htrace' : ∀ x, trace' = some x → x.Reliable)
    (hhost : c.Indifferent) :
    let s := opened image o trace c f (.lines script)
    let t := opened image o trace' c f' (.lines script')
    let Matches := fun n m => SameButReports (s.ticks n) (t.ticks m) ∧ t.executions m = s.executions n ∧
      ∀ names, Recorder.Agree names trace trace' f f' → (s.ticks n).folder.Agree names (t.ticks m).folder
    (∀ n, ∃ m, Matches n m) ∧ ∀ m, ∃ n, Matches n m := by
  intro s t Matches
  have h : LookedAt (Recorder.Agree · trace trace' f f') script script' s t :=
    { debugger := rfl
      phase := rfl
      console := ⟨rfl, ⟨rfl, rfl⟩, rfl, hhost⟩
      reliable := htrace
      reliable' := htrace'
      commands := rfl
      commands' := rfl
      putIn := hscript
      files := fun names hnames => hnames }
  constructor
  · intro n
    obtain ⟨m, xs, ys, hticks, hexecutions⟩ := h.exists_ticks n
    exact ⟨m, hticks.sameButReports, hexecutions, fun names hnames => (hticks.files names hnames).folders⟩
  · intro m
    obtain ⟨n, xs, ys, hticks, hexecutions⟩ := h.ticks m
    exact ⟨n, hticks.sameButReports, hexecutions, fun names hnames => (hticks.files names hnames).folders⟩

/-- A program that halts, with a dump on the way, under a script alone and under one with looks and a refused line,
    traced. -/
theorem looking_undisturbed_traced :
    let m := (Memory.zero.writeWords 0x4400 [0x4303, 0xd032, 0x0010]).writeWord Memory.resetAddress 0x4400
    let f : Folder := { files := [("t", ByteArray.empty)] }
    let script := [.line "tbreak 4402", .line "c", .line "dump d", .line "c"]
    let script' := [.line "print pc + 1", .line "tbreak 4402", .line "bt", .line "track 5", .line "c", .line "go",
      .line "mem 4400", .line "dump d", .line "insncount", .line "c"]
    let s := opened m {} none {} f (.lines script)
    let t := opened m {} (some { writer := { path := "t" } }) {} f (.lines script')
    (t.ticks 16).phase = .ended .halted ∧ (t.executions 16).map (·.1.pc) = [0x4400, 0x4402] ∧
      ∃ n, SameButReports (s.ticks n) (t.ticks 16) ∧ t.executions 16 = s.executions n ∧
        (s.ticks n).folder.Agree ["t"] (t.ticks 16).folder := by
  intro m f script script' s t
  have hkeep {line : String} {xs ys : List Answer} (hline : (Text.trim line).isEmpty = false)
      (h : LooksPutIn xs ys) : LooksPutIn (.line line :: xs) (.line line :: ys) :=
    .keep (fun _ hanswer => Answer.line.inj hanswer ▸ hline) h
  have hscript : LooksPutIn script script' := by
    refine .look (by decide +kernel) (hkeep (by decide +kernel) ?_)
    refine .look (by decide +kernel) (.look (by decide +kernel) (hkeep (by decide +kernel) ?_))
    refine .look (by decide +kernel) (.look (by decide +kernel) (hkeep (by decide +kernel) ?_))
    exact .look (by decide +kernel) (hkeep (by decide +kernel) .nil)
  have hnames : Recorder.Agree ["t"] none (some { writer := { path := "t" } }) f f := by
    refine ⟨⟨rfl, rfl, fun _ _ => rfl⟩, .inr ⟨nofun, fun x hx => .inr ?_⟩⟩
    cases hx
    decide +kernel
  have htrace : ∀ x, none = some x → Recorder.Reliable x := nofun
  have htrace' : ∀ x, some { writer := { path := "t" } } = some x → Recorder.Reliable x := fun x hx =>
    Option.some.inj hx ▸ rfl
  have hhost : ({} : Console).Indifferent := ⟨fun _ _ => rfl, fun _ _ => rfl⟩
  obtain ⟨n, hsame, hexecutions, hfolders⟩ := (looking_undisturbed hscript htrace htrace' hhost).2 16
  exact ⟨by decide +kernel, by decide +kernel, n, hsame, hexecutions, hfolders _ hnames⟩

end Session
end MicroDebug

import MicroDebug.Proofs.Debugger.Settled
import MicroDebug.Proofs.Processor.Requests

/-! Cancelled requests for input. A request that is cancelled brings a prompt and is made again when the program is let
    run from it. However often that happens, the line that is given in the end finds the program, its breakpoints and
    the function to be finished as the first request would have found them. -/

namespace MicroDebug
namespace Session

/-! ### Sessions that differ in their countdowns, hosts and commands -/

/-- The programs of two sessions stand alike under the same breakpoints, with the same to be finished and traced. -/
structure Alike (s t : Session) : Prop where
  processor : t.debugger.processor = s.debugger.processor
  breakpoints : t.debugger.breakpoints = s.debugger.breakpoints
  finishing : t.debugger.finishing = s.debugger.finishing
  retrying : t.debugger.retrying = s.debugger.retrying
  recorder : t.debugger.recorder = s.debugger.recorder
  folder : t.folder = s.folder
  phase : t.phase = s.phase

namespace Alike

variable {s t u : Session}

theorem refl (s : Session) : Alike s s := ⟨rfl, rfl, rfl, rfl, rfl, rfl, rfl⟩

theorem trans (h : Alike s t) (h' : Alike t u) : Alike s u where
  processor := h'.processor.trans h.processor
  breakpoints := h'.breakpoints.trans h.breakpoints
  finishing := h'.finishing.trans h.finishing
  retrying := h'.retrying.trans h.retrying
  recorder := h'.recorder.trans h.recorder
  folder := h'.folder.trans h.folder
  phase := h'.phase.trans h.phase

variable (h : Alike s t)
include h

theorem goTo (phase : Phase) : Alike (s.goTo phase) (t.goTo phase) :=
  ⟨h.processor, h.breakpoints, h.finishing, h.retrying, h.recorder, h.folder, rfl⟩

theorem report (text text' : String) : Alike (s.report text) (t.report text') :=
  ⟨h.processor, h.breakpoints, h.finishing, h.retrying, h.recorder, h.folder, h.phase⟩

theorem stopTracing : t.stopTracing.1 = s.stopTracing.1 ∧ Alike s.stopTracing.2 t.stopTracing.2 := by
  unfold Session.stopTracing
  rw [h.recorder]
  cases s.debugger.recorder with
  | none => exact ⟨rfl, h⟩
  | some r =>
    simp only [h.folder]
    exact ⟨trivial, h.processor, h.breakpoints, h.finishing, h.retrying, rfl, rfl, h.phase⟩

theorem conclude (outcome : Outcome) : Alike (s.conclude outcome) (t.conclude outcome) := by
  obtain ⟨hresult, hstopped⟩ := h.stopTracing
  unfold Session.conclude
  rcases hs : s.stopTracing with ⟨result, s'⟩
  rcases ht : t.stopTracing with ⟨result', t'⟩
  rw [hs, ht] at hresult hstopped
  obtain rfl : result' = result := hresult
  cases result' with
  | error reason => exact hstopped.goTo _
  | ok => exact hstopped.goTo _

theorem quit : Alike s.quit t.quit := (h.report _ _).conclude _

/-- With equal countdowns the same is decided. -/
theorem decide (hcountdown : t.debugger.countdown = s.debugger.countdown) :
    Alike s.decide t.decide ∧
      (s.decide.phase = .prompting → t.decide.debugger.countdown = s.decide.debugger.countdown) := by
  have hended {u v : Session} (huv : Alike u v) (outcome : Outcome) :
      Alike (u.conclude outcome) (v.conclude outcome) ∧
        ((u.conclude outcome).phase = .prompting →
          (v.conclude outcome).debugger.countdown = (u.conclude outcome).debugger.countdown) := by
    refine ⟨huv.conclude outcome, fun hprompting => ?_⟩
    obtain ⟨outcome', hphase⟩ := ended_conclude u outcome
    cases hprompting.symm.trans hphase
  unfold Session.decide
  simp only [h.processor]
  by_cases hunlocked : s.debugger.processor.unlocked = true
  · simp only [if_pos hunlocked]
    exact hended (h.report _ _) _
  by_cases hhalted : s.debugger.processor.isHalted = true
  · simp only [if_neg hunlocked, if_pos hhalted]
    exact hended ((h.report _ _).report _ _) _
  simp only [if_neg hunlocked, if_neg hhalted, checkBreakpoints, h.retrying, h.breakpoints, hcountdown]
  by_cases hretry : s.debugger.retrying = true
  · simp only [if_pos hretry]
    exact ⟨⟨rfl, rfl, h.finishing, rfl, h.recorder, h.folder, rfl⟩, fun _ => trivial⟩
  · simp only [if_neg hretry]
    cases s.debugger.breakpoints.check? s.debugger.processor.pc s.debugger.processor with
    | none => exact ⟨h.goTo _, fun hprompting => by cases hprompting⟩
    | some checked => exact ⟨⟨rfl, rfl, h.finishing, rfl, h.recorder, h.folder, rfl⟩, fun _ => rfl⟩

end Alike

/-! ### Requests -/

/-- The session is about to execute a step in which its program requests a line. -/
structure AwaitsLine (s : Session) : Prop where
  phase : s.phase = .stepping
  settled : s.Settled
  processor : s.debugger.processor.AwaitsLine

theorem AwaitsLine.retrying {s : Session} (h : s.AwaitsLine) : s.debugger.retrying = false := h.settled (.inr h.phase)

/-- What comes of the request in the next step. -/
def asked (s : Session) : Except Stop (List UInt8) :=
  (Gate.ask s.debugger.processor.inputMode s.debugger.processor.lineLimit s.console).1

/-- A step that requests a line leads alike sessions on alike if the request comes to the same. -/
theorem Alike.tick_of_asked {s t : Session} (h : Alike s t) (hs : s.AwaitsLine) (hasked : t.asked = s.asked) :
    Alike s.tick t.tick ∧
      (s.tick.phase = .deciding → s.tick.debugger.countdown = 1 ∧ t.tick.debugger.countdown = 1) := by
  have hnext : t.next = { s.next with console := t.next.console } := by
    unfold asked at hasked
    rw [h.processor] at hasked
    unfold next
    rw [h.processor, h.recorder, h.folder]
    exact Processor.stepWatched_of_fst_ask hs.processor _ _ hasked
  have hadvanced : Alike s.advanced t.advanced := by
    refine ⟨?_, h.breakpoints, h.finishing, h.retrying, ?_, ?_, h.phase⟩
    · exact congrArg (·.processor) hnext
    · exact congrArg (·.watcher.1) hnext
    · exact congrArg (·.watcher.2) hnext
  have hresult : t.next.result = s.next.result := congrArg (·.result) hnext
  rw [tick_of_stepping hs.phase, tick_of_stepping (h.phase.trans hs.phase), hresult]
  cases hstep : s.next.result with
  | ok info =>
    have hread : info.readInput = true := Processor.readInput_of_awaitsLine hs.processor _ _ hstep
    simp only [afterStep, hread, if_true, update, Debugger.follow_eq]
    refine ⟨⟨hadvanced.processor, hadvanced.breakpoints, ?_, hadvanced.retrying, hadvanced.recorder, hadvanced.folder,
      rfl⟩, fun _ => ⟨ite_self 1, ite_self 1⟩⟩
    exact congrArg (followed · info.flow) hadvanced.finishing
  | error stop =>
    obtain ⟨hhalted, hunlocked⟩ := Processor.not_ended_of_awaitsLine hs.processor _ _ hstep
    have hended {u : Session} {P : Prop} (h : ∃ outcome, u.phase = .ended outcome) : u.phase = .deciding → P := by
      obtain ⟨outcome, houtcome⟩ := h
      intro hdeciding
      cases houtcome.symm.trans hdeciding
    cases stop with
    | halted => exact absurd rfl hhalted
    | unlocked => exact absurd rfl hunlocked
    | endOfInput => exact ⟨hadvanced.quit, hended (ended_conclude _ _)⟩
    | cancelled =>
      exact ⟨⟨hadvanced.processor, hadvanced.breakpoints, hadvanced.finishing, rfl, hadvanced.recorder,
        hadvanced.folder, rfl⟩, fun _ => ⟨rfl, rfl⟩⟩
    | unreadable => exact ⟨hadvanced.goTo _, hended ⟨_, rfl⟩⟩
    | fault f => exact ⟨((hadvanced.report _ _).report _ _).conclude _, hended (ended_conclude _ _)⟩

/-! ### Cancelling -/

theorem folder_readLine (s : Session) : s.readLine.2.folder = s.folder := by
  unfold readLine
  split <;> rfl

theorem noticeFailure_readLine (s : Session) :
    s.readLine.2.console.noticeFailure = s.console.noticeFailure := by
  unfold readLine
  split
  · exact (Console.SameRefusals.take _).notice
  · rfl
  · rfl
  · rfl

theorem prompt_of_entered? {s : Session} {line : String} (h : s.entered? = some line) :
    s.prompt = s.displayed.readLine.2.runLine line := by
  unfold entered? at h
  rcases hread : s.displayed.readLine with ⟨answer, t⟩
  have hdebugger : t.debugger = s.debugger :=
    (congrArg (·.2.debugger) hread).symm.trans (debugger_readLine s.displayed)
  rw [hread] at h
  unfold displayed at hread
  unfold prompt
  cases answer with
  | ended | cancelled | failed reason | unreadable => cases h
  | line text =>
    by_cases hblank : (Text.trim text).isEmpty = true
    · simp only [if_pos hblank] at h
      simp only [hread, if_pos hblank, hdebugger, h]
    · obtain rfl : text = line := by simpa only [if_neg hblank, Option.some.injEq] using h
      simp only [hread, if_neg hblank]

/-- To let the program run changes nothing that a step depends on. -/
theorem tick_of_resume {s : Session} (h : s.command? = some .resume) :
    Alike (s.goTo .stepping) s.tick ∧ s.tick.console.noticeFailure = s.console.noticeFailure := by
  have hphase : s.phase = .prompting := by
    by_contra hphase
    rw [command?, if_neg hphase] at h
    cases h
  rw [command?, if_pos hphase, Option.bind_eq_some_iff] at h
  obtain ⟨line, hentered, hparse⟩ := h
  have hline : Command.parse line = .ok .resume := by
    cases hresult : Command.parse line with
    | error e =>
      rw [hresult] at hparse
      cases hparse
    | ok c =>
      rw [hresult] at hparse
      exact congrArg Except.ok (Option.some.inj hparse)
  have htick : s.tick = (s.displayed.readLine.2.update ({ · with lastLine := some line })).goTo .stepping := by
    rw [tick, hphase]
    refine (prompt_of_entered? hentered).trans ?_
    unfold runLine
    simp only [hline]
    rfl
  have hdebugger := debugger_readLine s.displayed
  rw [htick]
  refine ⟨⟨?_, ?_, ?_, ?_, ?_, folder_readLine s.displayed, rfl⟩, noticeFailure_readLine s.displayed⟩
  · exact congrArg (·.processor) hdebugger
  · exact congrArg (·.breakpoints) hdebugger
  · exact congrArg (·.finishing) hdebugger
  · exact congrArg (·.retrying) hdebugger
  · exact congrArg (·.recorder) hdebugger

/-- After a cancelled request the session prompts without a look at the breakpoints. -/
theorem AwaitsLine.ticks_two_of_cancelled {s : Session} (h : s.AwaitsLine)
    (hcancelled : s.next.result = .error .cancelled) :
    Alike (s.goTo .prompting) (s.ticks 2) ∧ (s.ticks 2).console.noticeFailure = s.console.noticeFailure := by
  obtain ⟨hprocessor, hwatcher, hconsole⟩ := Processor.stepWatched_of_cancelled h.processor _ _ hcancelled
  obtain ⟨hlocked, hhalted⟩ := not_or.mp h.processor.running
  have htick : s.tick = (s.advanced.update ({ · with countdown := 1, retrying := true })).goTo .deciding := by
    rw [tick_of_stepping h.phase, hcancelled]
    rfl
  have hadvanced : s.advanced.debugger.processor = s.debugger.processor := hprocessor
  have htwo : s.ticks 2 =
      { s.advanced with
        debugger := { s.advanced.debugger with countdown := 0, retrying := false }, phase := .prompting } := by
    have hdecide : s.ticks 2 = s.tick.decide := by
      rw [ticks_succ', tick, show s.ticks 1 = s.tick from rfl, htick]
      rfl
    rw [hdecide, htick]
    unfold decide
    simp only [goTo, update, hadvanced, if_neg hlocked, if_neg hhalted, checkBreakpoints, if_true]
    rfl
  rw [htwo]
  exact ⟨⟨hprocessor, rfl, rfl, h.retrying.symm, congrArg Prod.fst hwatcher, congrArg Prod.snd hwatcher, rfl⟩, hconsole⟩

theorem AwaitsLine.ticks_three_of_cancelled {s : Session} (h : s.AwaitsLine)
    (hcancelled : s.next.result = .error .cancelled) (hresume : (s.ticks 2).command? = some .resume) :
    Alike s (s.ticks 3) ∧ (s.ticks 3).console.noticeFailure = s.console.noticeFailure := by
  obtain ⟨halike, hnotices⟩ := h.ticks_two_of_cancelled hcancelled
  obtain ⟨halike', hnotices'⟩ := tick_of_resume hresume
  have hself : s.goTo .stepping = s := by
    rw [← h.phase]
    rfl
  have hstepping : Alike s ((s.ticks 2).goTo .stepping) := by
    have := halike.goTo .stepping
    rwa [show (s.goTo .prompting).goTo .stepping = s from hself] at this
  exact ⟨hstepping.trans halike', hnotices'.trans hnotices⟩

theorem AwaitsLine.of_alike {s t : Session} (h : s.AwaitsLine) (hst : Alike s t) : t.AwaitsLine where
  phase := hst.phase.trans h.phase
  settled := fun _ => hst.retrying.trans h.retrying
  processor := by
    rw [hst.processor]
    exact h.processor

/-- However many requests have been cancelled, the next one is made as the first was. -/
theorem AwaitsLine.alike_ticks {s : Session} (h : s.AwaitsLine) {k : Nat}
    (hcancelled : ∀ i < k, (s.ticks (3 * i)).next.result = .error .cancelled)
    (hresume : ∀ i < k, (s.ticks (3 * i + 2)).command? = some .resume) :
    Alike s (s.ticks (3 * k)) ∧ (s.ticks (3 * k)).console.noticeFailure = s.console.noticeFailure := by
  induction k with
  | zero => exact ⟨Alike.refl s, rfl⟩
  | succ k ih =>
    obtain ⟨halike, hnotices⟩ :=
      ih (fun i hi => hcancelled i (Nat.lt_succ_of_lt hi)) fun i hi => hresume i (Nat.lt_succ_of_lt hi)
    have hresumed := hresume k k.lt_succ_self
    rw [ticks_add] at hresumed
    obtain ⟨halike', hnotices'⟩ :=
      (h.of_alike halike).ticks_three_of_cancelled (hcancelled k k.lt_succ_self) hresumed
    rw [Nat.mul_succ, ticks_add]
    exact ⟨halike.trans halike', hnotices'.trans hnotices⟩

/-- The session with other answers to come from its host. -/
def withReplies (s : Session) (replies : List Reply) : Session :=
  { s with console := { s.console with replies := replies } }

theorem AwaitsLine.withReplies {s : Session} (h : s.AwaitsLine) (replies : List Reply) :
    (s.withReplies replies).AwaitsLine :=
  ⟨h.phase, h.settled, h.processor⟩

/-- A line that is given after some cancelled requests, each followed by the command to go on, has the same effect as
    one that is given at once. The next prompt or the end comes right after the line in both sessions, and there the
    program, the breakpoints with the hits that are left, and the function to be finished are the same. -/
theorem cancelled_requests_unseen {s : Session} (hs : s.AwaitsLine) {k : Nat}
    (hcancelled : ∀ i < k, (s.ticks (3 * i)).next.result = .error .cancelled)
    (hresume : ∀ i < k, (s.ticks (3 * i + 2)).command? = some .resume)
    {reply : Reply} {rest : List Reply} {line : String}
    (hreplies : (s.ticks (3 * k)).console.replies = reply :: rest) (hline : reply.answer = .line line)
    (hhost : InputText.Readable s.debugger.processor.inputMode line ∨ s.console.Steadfast) :
    let t := s.withReplies (reply :: rest)
    let u := s.ticks (3 * k)
    t.tick.phase ≠ .prompting ∧ u.phase = .stepping ∧ u.tick.phase ≠ .prompting ∧
      ((t.ticks 2).phase = .prompting ∨ ∃ outcome, (t.ticks 2).phase = .ended outcome) ∧
      (u.ticks 2).phase = (t.ticks 2).phase ∧
      (u.ticks 2).debugger.processor = (t.ticks 2).debugger.processor ∧
      (u.ticks 2).debugger.breakpoints = (t.ticks 2).debugger.breakpoints ∧
      (u.ticks 2).debugger.finishing = (t.ticks 2).debugger.finishing ∧
      ((t.ticks 2).phase = .prompting → (u.ticks 2).debugger.countdown = (t.ticks 2).debugger.countdown) := by
  intro t u
  obtain ⟨halike, hnotices⟩ := hs.alike_ticks hcancelled hresume
  have ht : t.AwaitsLine := hs.withReplies _
  have htu : Alike t u := (Alike.mk rfl rfl rfl rfl rfl rfl rfl : Alike t s).trans halike
  have hasked : u.asked = t.asked := by
    have hagree : t.console.Agree u.console := ⟨hreplies, hnotices⟩
    have htreplies : t.console.replies = reply :: rest := rfl
    unfold asked
    rw [htu.processor]
    exact Gate.fst_ask_of_agree hagree htreplies hline hhost
  obtain ⟨htick, hcountdown⟩ := htu.tick_of_asked ht hasked
  have hsilent : t.tick.phase ≠ .prompting := by
    rcases deciding_or_ended ht.phase with hdeciding | ⟨outcome, hended⟩
    · simp [hdeciding]
    · simp [hended]
  have husilent : u.tick.phase ≠ .prompting := by
    rw [htick.phase]
    exact hsilent
  refine ⟨hsilent, htu.phase.trans ht.phase, husilent, ?_⟩
  rw [show t.ticks 2 = t.tick.tick from rfl, show u.ticks 2 = u.tick.tick from rfl]
  rcases deciding_or_ended ht.phase with hdeciding | ⟨outcome, hended⟩
  · obtain ⟨ht1, hu1⟩ := hcountdown hdeciding
    have htt : t.tick.tick = t.tick.decide := by rw [tick, hdeciding]
    have huu : u.tick.tick = u.tick.decide := by rw [tick, htick.phase, hdeciding]
    obtain ⟨hdecided, hequal⟩ := htick.decide (hu1.trans ht1.symm)
    rw [htt, huu]
    exact ⟨phase_decide_of_countdown ht1, hdecided.phase, hdecided.processor, hdecided.breakpoints,
      hdecided.finishing, hequal⟩
  · rw [tick_of_ended hended, tick_of_ended (htick.phase.trans hended)]
    exact ⟨.inr ⟨outcome, hended⟩, htick.phase, htick.processor, htick.breakpoints, htick.finishing,
      fun hprompting => absurd hprompting hsilent⟩

/-- A request is cancelled twice before the line comes, under a breakpoint at the place to which the program returns
    with it. -/
theorem cancelled_requests_unseen_twice :
    let m := ((Memory.zero.writeWords 0 [0x4400, 0, 0, 0, 0x2000, 0x0010]).writeWords 0x4400 [0x4303]).writeWord
      Memory.resetAddress Gate.address
    let c : Console := { replies := [{ answer := .cancelled }, { answer := .cancelled }, { answer := .line "hi" }] }
    let script := [.line "set sr = 0x8200", .line "tbreak 4400 2", .line "c", .line "c", .line "c"]
    let s := (opened m {} none c {} (.lines script)).ticks 4
    let t := s.withReplies [{ answer := .line "hi" }]
    s.AwaitsLine ∧ (∀ i < 2, (s.ticks (3 * i)).next.result = .error .cancelled) ∧
      (∀ i < 2, (s.ticks (3 * i + 2)).command? = some .resume) ∧
      ((s.ticks 6).ticks 2).phase = .prompting ∧
      ((s.ticks 6).ticks 2).debugger.processor = (t.ticks 2).debugger.processor ∧
      ((s.ticks 6).ticks 2).debugger.breakpoints.entries = [(0x4400, { remaining := some 1 })] ∧
      ((s.ticks 6).ticks 2).debugger.processor.memory.readWord 0x2000 = 0x6968 := by
  intro m c script s t
  have hs : s.AwaitsLine :=
    ⟨by decide +kernel, (settled_opened m {} none c {} (.lines script)).ticks 4, by decide +kernel⟩
  have hcancelled : ∀ i < 2, (s.ticks (3 * i)).next.result = .error .cancelled := by decide +kernel
  have hresume : ∀ i < 2, (s.ticks (3 * i + 2)).command? = some .resume := by decide +kernel
  have hmode : s.debugger.processor.inputMode = .text := by decide +kernel
  have hreadable : InputText.Readable s.debugger.processor.inputMode "hi" := by
    rw [hmode]
    exact fun limit => ⟨_, rfl⟩
  have hreplies : (s.ticks (3 * 2)).console.replies = [{ answer := .line "hi" }] := by decide +kernel
  have hline : ({ answer := .line "hi" } : Reply).answer = .line "hi" := rfl
  obtain ⟨-, -, -, -, hphase, hprocessor, hbreakpoints, -, -⟩ :=
    cancelled_requests_unseen hs hcancelled hresume hreplies hline (.inl hreadable)
  refine ⟨hs, hcancelled, hresume, ?_, hprocessor, ?_, ?_⟩
  · rw [hphase]
    decide +kernel
  · rw [hbreakpoints]
    decide +kernel
  · rw [hprocessor]
    decide +kernel

end Session
end MicroDebug

import MicroDebug.Processor.Step

/-! What a host has been shown before has no part in what a program does with it. Of two hosts with the same answers
    to come, of which one has been shown some things more, a step makes the same and shows the same. -/

namespace MicroDebug

namespace Console

/-- The second host is the first one after it has been shown some things: it has the same answers to come and refuses
    the same of what it is shown from then on. -/
structure After (before : Array Shown) (c d : Console) : Prop where
  replies : d.replies = c.replies
  shown : d.shown = before ++ c.shown
  outputFailure : ∀ n, d.outputFailure (before.size + n) = c.outputFailure n
  noticeFailure : ∀ n, d.noticeFailure (before.size + n) = c.noticeFailure n

/-- A host with the same answers to come that has not been shown anything. -/
def fresh (c : Console) : Console where
  replies := c.replies
  outputFailure := fun n => c.outputFailure (c.shown.size + n)
  noticeFailure := fun n => c.noticeFailure (c.shown.size + n)

theorem after_fresh (c : Console) : c.fresh.After c.shown c :=
  ⟨rfl, (Array.append_empty).symm, fun _ => rfl, fun _ => rfl⟩

/-- The same comes of either host, and one is still the other after it has been shown some things. -/
def Same {α : Type} (before : Array Shown) (x y : α × Console) : Prop :=
  ∃ a c d, x = (a, c) ∧ y = (a, d) ∧ c.After before d

namespace After

variable {before : Array Shown} {c d : Console} (h : c.After before d)
include h

theorem size_shown : d.shown.size = before.size + c.shown.size := by rw [h.shown, Array.size_append]

theorem append (x : Shown) : (c.append x).After before (d.append x) where
  replies := h.replies
  shown := by simp only [Console.append, h.shown, Array.append_push]
  outputFailure := h.outputFailure
  noticeFailure := h.noticeFailure

theorem report (text : String) : (c.report text).After before (d.report text) := h.append _

theorem writeOutput (b : UInt8) : Same before (c.writeOutput b) (d.writeOutput b) := by
  simp only [Console.writeOutput, h.size_shown, h.outputFailure]
  split
  · exact ⟨_, _, _, rfl, rfl, h⟩
  · exact ⟨_, _, _, rfl, rfl, h.append _⟩

theorem notify (text : String) : Same before (c.notify text) (d.notify text) := by
  simp only [Console.notify, h.size_shown, h.noticeFailure]
  split
  · exact ⟨_, _, _, rfl, rfl, h⟩
  · exact ⟨_, _, _, rfl, rfl, h.append _⟩

theorem take : Same before c.take d.take := by
  unfold Console.take
  rw [h.replies]
  cases c.replies with
  | nil => exact ⟨_, _, _, rfl, rfl, rfl, h.shown, h.outputFailure, h.noticeFailure⟩
  | cons r rest =>
    have hrest : After before { c with replies := rest } { d with replies := rest } :=
      ⟨rfl, h.shown, h.outputFailure, h.noticeFailure⟩
    simp only
    split
    · exact ⟨_, _, _, rfl, rfl, hrest⟩
    · exact ⟨_, _, _, rfl, rfl, hrest.append _⟩

end After
end Console

/-! ### The gate -/

namespace Gate

open Console (Same)

variable {before : Array Shown} {c d : Console} (h : c.After before d)
include h

theorem same_askFrom (mode : InputMode) (limit : UInt16) (replies : List Reply) :
    Same before (askFrom mode limit c replies) (askFrom mode limit d replies) := by
  -- one answer is taken for each request, and what is refused of it is shown before the next request
  induction replies generalizing c d with
  | nil =>
    obtain ⟨answer, c', d', hc, hd, hafter⟩ := (h.append (.request (requestText mode limit))).take
    simp only [askFrom, hc, hd]
    exact ⟨_, _, _, rfl, rfl, hafter⟩
  | cons r rest ih =>
    obtain ⟨answer, c', d', hc, hd, hafter⟩ := (h.append (.request (requestText mode limit))).take
    simp only [askFrom, hc, hd]
    cases answer with
    | ended | cancelled | unreadable | failed reason => exact ⟨_, _, _, rfl, rfl, hafter⟩
    | line line =>
      simp only
      cases InputText.bytes mode limit line with
      | ok bytes => exact ⟨_, _, _, rfl, rfl, hafter⟩
      | error e =>
        obtain ⟨result, c'', d'', hc, hd, hnotified⟩ := hafter.notify e.message
        simp only [hc, hd]
        cases result with
        | error reason => exact ⟨_, _, _, rfl, rfl, hnotified⟩
        | ok => exact ih hnotified

theorem same_ask (mode : InputMode) (limit : UInt16) : Same before (ask mode limit c) (ask mode limit d) := by
  rw [ask, ask, h.replies]
  exact same_askFrom h mode limit c.replies

theorem same_fulfil (p : Processor) (r : Request) : Same before (fulfil p c r) (fulfil p d r) := by
  cases r with
  | writeByte =>
    obtain ⟨result, c', d', hc, hd, hafter⟩ := h.writeOutput (p.memory.readByte (p.registers.sp + 8))
    simp only [fulfil, hc, hd]
    cases result <;> exact ⟨_, _, _, rfl, rfl, hafter⟩
  | readLine =>
    obtain ⟨result, c', d', hc, hd, hafter⟩ := same_ask h p.inputMode (p.memory.readWord (p.registers.sp + 10))
    simp only [fulfil, hc, hd]
    cases result <;> exact ⟨_, _, _, rfl, rfl, hafter⟩
  | refuse | refuseInMemory => exact ⟨_, _, _, rfl, rfl, h⟩
  | unlock =>
    obtain ⟨result, c', d', hc, hd, hafter⟩ := h.notify "<Door unlocked!>"
    simp only [fulfil, hc, hd]
    cases result <;> exact ⟨_, _, _, rfl, rfl, hafter⟩

theorem same_serve (p : Processor) : Same before (serve p c) (serve p d) := by
  rw [serve, serve]
  split
  · exact ⟨_, _, _, rfl, rfl, h⟩
  · simp only
    split
    · exact ⟨_, _, _, rfl, rfl, h⟩
    · next r hr =>
      obtain ⟨result, c', d', hc, hd, hafter⟩ := same_fulfil h p r
      rw [hc, hd]
      exact ⟨_, _, _, rfl, rfl, hafter⟩

end Gate

/-! ### Steps -/

namespace Processor

open Console (Same)

variable {before : Array Shown} {c d : Console} (h : c.After before d) (p : Processor)
include h

theorem same_fetch : Same before (p.fetch c) (p.fetch d) := by
  have hserved : Same before (if p.pc = Gate.address then Gate.serve p c else (.ok { processor := p }, c))
      (if p.pc = Gate.address then Gate.serve p d else (.ok { processor := p }, d)) := by
    split
    · exact Gate.same_serve h p
    · exact ⟨_, _, _, rfl, rfl, h⟩
  obtain ⟨result, c', d', hc, hd, hafter⟩ := hserved
  rw [fetch, fetch]
  split
  · exact ⟨_, _, _, rfl, rfl, h⟩
  split
  · exact ⟨_, _, _, rfl, rfl, h⟩
  rw [hc, hd]
  cases result with
  | error s => exact ⟨_, _, _, rfl, rfl, hafter⟩
  | ok s =>
    simp only
    cases Instruction.decode s.processor.memory p.pc <;> exact ⟨_, _, _, rfl, rfl, hafter⟩

/-- A step comes to the same with either host. -/
theorem stepWatched_after {σ : Type} (watch : Watcher σ) (s : σ) :
    ∃ e, (p.stepWatched watch s c).console.After before e ∧
      p.stepWatched watch s d = { p.stepWatched watch s c with console := e } := by
  obtain ⟨result, c', d', hc, hd, hafter⟩ := same_fetch h p
  rw [stepWatched, stepWatched, hc, hd]
  cases result with
  | error stopped => exact ⟨d', hafter, rfl⟩
  | ok f =>
    simp only
    rcases watch s f.processor f.event with ⟨reason | _, t⟩
    · exact ⟨d', hafter, rfl⟩
    · cases f.effect <;> exact ⟨d', hafter, rfl⟩

end Processor

/-! ### Refusals -/

namespace Console

/-- The second host refuses what the first one does. -/
structure SameRefusals (c d : Console) : Prop where
  output : d.outputFailure = c.outputFailure
  notice : d.noticeFailure = c.noticeFailure

namespace SameRefusals

theorem trans {c d e : Console} (h : c.SameRefusals d) (h' : d.SameRefusals e) : c.SameRefusals e :=
  ⟨h'.output.trans h.output, h'.notice.trans h.notice⟩

variable (c : Console)

theorem append (x : Shown) : c.SameRefusals (c.append x) := ⟨rfl, rfl⟩

theorem writeOutput (b : UInt8) : c.SameRefusals (c.writeOutput b).2 := by
  rw [Console.writeOutput]
  split <;> exact ⟨rfl, rfl⟩

theorem notify (text : String) : c.SameRefusals (c.notify text).2 := by
  rw [Console.notify]
  split <;> exact ⟨rfl, rfl⟩

theorem take : c.SameRefusals c.take.2 := by
  rw [Console.take]
  split
  · exact ⟨rfl, rfl⟩
  · simp only
    split <;> exact ⟨rfl, rfl⟩

theorem askFrom (mode : InputMode) (limit : UInt16) (replies : List Reply) :
    c.SameRefusals (Gate.askFrom mode limit c replies).2 := by
  induction replies generalizing c with
  | nil => exact (append c _).trans (take _)
  | cons r rest ih =>
    have htake := (append c (.request (Gate.requestText mode limit))).trans (take _)
    rw [Gate.askFrom]
    rcases hafter : (c.append (.request (Gate.requestText mode limit))).take with ⟨answer, d⟩
    rw [hafter] at htake
    cases answer with
    | ended | cancelled | unreadable | failed reason => exact htake
    | line line =>
      cases hbytes : InputText.bytes mode limit line with
      | ok bytes => simpa only [hbytes] using htake
      | error e =>
        have hnotify := htake.trans (notify d e.message)
        rcases hnotified : d.notify e.message with ⟨result, d'⟩
        rw [hnotified] at hnotify
        cases result with
        | error reason => simpa only [hbytes, hnotified] using hnotify
        | ok => simpa only [hbytes, hnotified] using hnotify.trans (ih d')

theorem fulfil (p : Processor) (r : Gate.Request) : c.SameRefusals (Gate.fulfil p c r).2 := by
  cases r with
  | writeByte =>
    have hshown := writeOutput c (p.memory.readByte (p.registers.sp + 8))
    rw [Gate.fulfil]
    split <;> next hafter =>
      rw [hafter] at hshown
      exact hshown
  | readLine =>
    have hasked := askFrom c p.inputMode (p.memory.readWord (p.registers.sp + 10)) c.replies
    simp only [Gate.fulfil, Gate.ask]
    split <;> next hafter =>
      rw [hafter] at hasked
      exact hasked
  | refuse | refuseInMemory => exact ⟨rfl, rfl⟩
  | unlock =>
    have hshown := notify c "<Door unlocked!>"
    rw [Gate.fulfil]
    split <;> next hafter =>
      rw [hafter] at hshown
      exact hshown

theorem serve (p : Processor) : c.SameRefusals (Gate.serve p c).2 := by
  rw [Gate.serve]
  split
  · exact ⟨rfl, rfl⟩
  · simp only
    split
    · exact ⟨rfl, rfl⟩
    · exact fulfil c p _

theorem fetch (p : Processor) : c.SameRefusals (p.fetch c).2 := by
  rw [Processor.fetch]
  split
  · exact ⟨rfl, rfl⟩
  split
  · exact ⟨rfl, rfl⟩
  have hserved : c.SameRefusals (if p.pc = Gate.address then Gate.serve p c else (.ok { processor := p }, c)).2 := by
    split
    · exact serve c p
    · exact ⟨rfl, rfl⟩
  rcases hafter : (if p.pc = Gate.address then Gate.serve p c else (.ok { processor := p }, c)) with ⟨result, d⟩
  rw [hafter] at hserved
  cases result with
  | error stopped => exact hserved
  | ok served =>
    simp only
    split <;> exact hserved

end SameRefusals

end Console
end MicroDebug

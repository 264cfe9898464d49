import MicroDebug.Proofs.Processor.AllOrNothing
import MicroDebug.Proofs.Processor.Hosts

/-! Requests for a line of input. What comes of a request depends on the answers that are to come and not on what the
    host has been shown before it. Only a line that cannot be read needs a host that goes on taking notices, or goes
    on refusing them. -/

namespace MicroDebug

/-! ### Hosts -/

namespace Console

/-- Whether the host takes a notice does not depend on how much it has been shown. -/
def Steadfast (c : Console) : Prop := ∀ m n, c.noticeFailure m = c.noticeFailure n

/-- Two hosts have the same answers to give and take the same notices. -/
structure Agree (c d : Console) : Prop where
  replies : d.replies = c.replies
  noticeFailure : d.noticeFailure = c.noticeFailure

namespace Agree

variable {c d : Console} (h : c.Agree d)
include h

theorem append (x y : Shown) : (c.append x).Agree (d.append y) := ⟨h.replies, h.noticeFailure⟩

theorem take : d.take.1 = c.take.1 ∧ c.take.2.Agree d.take.2 := by
  have hreplies := h.replies
  unfold Console.take
  rcases hc : c.replies with _ | ⟨r, rest⟩ <;> rw [hc] at hreplies <;> simp only [hreplies]
  · exact ⟨trivial, rfl, h.noticeFailure⟩
  · refine ⟨trivial, ?_⟩
    split <;> exact ⟨rfl, h.noticeFailure⟩

theorem notify (hc : c.Steadfast) (text : String) :
    (∃ reason, c.notify text = (.error reason, c) ∧ d.notify text = (.error reason, d)) ∨
      ∃ c' d', c.notify text = (.ok (), c') ∧ d.notify text = (.ok (), d') ∧ c'.Agree d' ∧ c'.Steadfast := by
  have hsame : d.noticeFailure d.shown.size = c.noticeFailure c.shown.size := by
    rw [h.noticeFailure]
    exact hc _ _
  unfold Console.notify
  rw [hsame]
  cases c.noticeFailure c.shown.size with
  | some reason => exact .inl ⟨reason, rfl, rfl⟩
  | none => exact .inr ⟨_, _, rfl, rfl, h.append _ _, hc⟩

end Agree

end Console

/-! ### Asking -/

/-- A line of input makes sense in a mode, however much of it is wanted. -/
def InputText.Readable (mode : InputMode) (line : String) : Prop :=
  ∀ limit, ∃ stored, bytes mode limit line = .ok stored

namespace Gate

variable {mode : InputMode} {limit : UInt16} {c d : Console}

theorem fst_askFrom_of_agree (h : c.Agree d) (hc : c.Steadfast) (replies : List Reply) :
    (askFrom mode limit d replies).1 = (askFrom mode limit c replies).1 := by
  induction replies generalizing c d with
  | nil => rfl
  | cons r rest ih =>
    obtain ⟨hanswer, hafter⟩ := (h.append (.request (requestText mode limit)) (.request (requestText mode limit))).take
    have hsteadfast : (c.append (.request (requestText mode limit))).take.2.Steadfast := by
      unfold Console.Steadfast
      rw [(Console.SameRefusals.take _).notice]
      exact hc
    unfold askFrom
    rcases htake : (c.append (.request (requestText mode limit))).take with ⟨answer, c'⟩
    rcases htake' : (d.append (.request (requestText mode limit))).take with ⟨answer', d'⟩
    rw [htake, htake'] at hanswer hafter
    rw [htake] at hsteadfast
    obtain rfl : answer' = answer := hanswer
    cases answer' with
    | ended | cancelled | unreadable | failed reason => rfl
    | line line =>
      simp only
      cases InputText.bytes mode limit line with
      | ok bytes => rfl
      | error e =>
        rcases Console.Agree.notify hafter hsteadfast e.message with
          ⟨reason, hnotify, hnotify'⟩ | ⟨c'', d'', hnotify, hnotify', hagree, hsteadfast'⟩
        · simp only [hnotify, hnotify']
        · simp only [hnotify, hnotify']
          exact ih hagree hsteadfast'

theorem fst_ask_of_line {r : Reply} {rest : List Reply} {line : String} {bytes : List UInt8}
    (hreplies : c.replies = r :: rest) (hline : r.answer = .line line)
    (hbytes : InputText.bytes mode limit line = .ok bytes) : (ask mode limit c).1 = .ok bytes := by
  have htake : ((c.append (.request (requestText mode limit))).take).1 = .line line := by
    simp [Console.take, Console.append, hreplies, hline]
  unfold ask
  rw [hreplies]
  unfold askFrom
  rcases hafter : (c.append (.request (requestText mode limit))).take with ⟨answer, c'⟩
  rw [hafter] at htake
  obtain rfl : answer = .line line := htake
  simp only [hbytes]

/-- What comes of a request depends on the answers to come alone if the first of them is a line that can be read, or
    if the host is steadfast. -/
theorem fst_ask_of_agree (h : c.Agree d) {r : Reply} {rest : List Reply} {line : String}
    (hreplies : c.replies = r :: rest) (hline : r.answer = .line line)
    (hhost : InputText.Readable mode line ∨ c.Steadfast) : (ask mode limit d).1 = (ask mode limit c).1 := by
  rcases hhost with hreadable | hsteadfast
  · obtain ⟨bytes, hbytes⟩ := hreadable limit
    rw [fst_ask_of_line hreplies hline hbytes, fst_ask_of_line (h.replies.trans hreplies) hline hbytes]
  · unfold ask
    rw [h.replies]
    exact fst_askFrom_of_agree h hsteadfast c.replies

end Gate

/-! ### Steps -/

namespace Processor

/-- The program is at the gate and about to request a line. -/
structure AwaitsLine (p : Processor) : Prop where
  running : ¬(p.unlocked = true ∨ p.isHalted = true)
  pc : p.pc = Gate.address
  enabled : p.registers.sr &&& Status.gateMask ≠ 0
  request : Gate.Request.ofNumber? (Status.request p.registers.sr) = some .readLine

instance (p : Processor) : Decidable p.AwaitsLine :=
  decidable_of_iff
    (¬(p.unlocked = true ∨ p.isHalted = true) ∧ p.pc = Gate.address ∧ p.registers.sr &&& Status.gateMask ≠ 0 ∧
      Gate.Request.ofNumber? (Status.request p.registers.sr) = some .readLine)
    ⟨fun ⟨hrunning, hpc, henabled, hrequest⟩ => ⟨hrunning, hpc, henabled, hrequest⟩,
      fun h => ⟨h.running, h.pc, h.enabled, h.request⟩⟩

/-- How much of a line is wanted. -/
def lineLimit (p : Processor) : UInt16 := p.memory.readWord (p.registers.sp + 10)

/-- The return from the gate, about to take effect once some bytes have been stored for a line. -/
def received (p : Processor) (bytes : List UInt8) : Fetched :=
  let target := p.memory.readWord (p.registers.sp + 8)
  let m := (p.memory.writeBytes target bytes).writeWord Gate.address Gate.returnWord
  { processor := { p with memory := m, registers := p.registers.setPc (p.pc + 2), executed := p.executed + 1 }
    pc := p.pc, instruction := Gate.left, readInput := true }

variable {p : Processor} (h : p.AwaitsLine)
include h

theorem fetch_of_awaitsLine (c : Console) :
    p.fetch c =
      match Gate.ask p.inputMode p.lineLimit c with
      | (.ok bytes, d) => (.ok (p.received bytes), d)
      | (.error stop, d) => (.error { reason := stop, processor := p }, d) := by
  obtain ⟨hlocked, hhalted⟩ := not_or.mp h.running
  unfold fetch
  rw [if_neg hlocked, if_neg hhalted, if_pos h.pc]
  unfold Gate.serve
  rw [if_neg h.enabled]
  simp only [h.request, Gate.fulfil]
  rw [show p.memory.readWord (p.registers.sp + 10) = p.lineLimit from rfl]
  rcases Gate.ask p.inputMode p.lineLimit c with ⟨stop | bytes, d⟩
  · rfl
  · have hdecode := Gate.decode_leave
      { processor := p.setMemory (p.memory.writeBytes (p.memory.readWord (p.registers.sp + 8)) bytes), readInput := true }
    rw [← h.pc] at hdecode
    simp only [Except.map, hdecode]
    rfl

variable {σ : Type} (watch : Watcher σ) (s : σ)

/-- A step that requests a line comes to the same from two hosts of which the request has the same. -/
theorem stepWatched_of_fst_ask {c d : Console}
    (hask : (Gate.ask p.inputMode p.lineLimit d).1 = (Gate.ask p.inputMode p.lineLimit c).1) :
    p.stepWatched watch s d = { p.stepWatched watch s c with console := (p.stepWatched watch s d).console } := by
  unfold stepWatched
  rw [fetch_of_awaitsLine h, fetch_of_awaitsLine h]
  rcases hc : Gate.ask p.inputMode p.lineLimit c with ⟨stop | bytes, c'⟩ <;>
    rcases hd : Gate.ask p.inputMode p.lineLimit d with ⟨stop' | bytes', d'⟩ <;> rw [hc, hd] at hask <;> cases hask
  · rfl
  · simp only
    split
    · rfl
    · split <;> rfl

theorem readInput_of_awaitsLine {c : Console} {info : StepInfo} (hresult : (p.stepWatched watch s c).result = .ok info) :
    info.readInput = true := by
  rcases stepWatched_cases watch s p c with
    ⟨stopped, d, -, -, -, hstep⟩ | ⟨f, d, reason, t, -, -, -, hstep⟩ | ⟨f, d, t, m, hfetch, -, -, -, hstep⟩ <;>
    rw [hstep] at hresult <;> cases hresult
  rw [fetch_of_awaitsLine h] at hfetch
  split at hfetch
  · cases hfetch
    rfl
  · cases hfetch

theorem not_ended_of_awaitsLine {c : Console} {stop : Stop} (hresult : (p.stepWatched watch s c).result = .error stop) :
    stop ≠ .halted ∧ stop ≠ .unlocked := by
  rw [← not_or]
  intro hstop
  rcases stepWatched_cases watch s p c with
    ⟨stopped, d, hfetch, -, -, hstep⟩ | ⟨f, d, reason, t, -, -, -, hstep⟩ | ⟨f, d, t, m, -, -, -, -, hstep⟩ <;>
    rw [hstep] at hresult <;> cases hresult
  · exact h.running (ended_of_fetch hfetch hstop)
  · simp at hstop

/-- A request that is cancelled leaves the program and its watcher as they were. -/
theorem stepWatched_of_cancelled {c : Console} (hresult : (p.stepWatched watch s c).result = .error .cancelled) :
    (p.stepWatched watch s c).processor = p ∧ (p.stepWatched watch s c).watcher = s ∧
      (p.stepWatched watch s c).console.noticeFailure = c.noticeFailure := by
  rcases stepWatched_cases watch s p c with
    ⟨stopped, d, hfetch, hp, -, hstep⟩ | ⟨f, d, reason, t, -, -, -, hstep⟩ | ⟨f, d, t, m, -, -, -, -, hstep⟩
  · rw [hstep]
    refine ⟨rfl, rfl, ?_⟩
    have hconsole := (Console.SameRefusals.askFrom c p.inputMode p.lineLimit c.replies).notice
    rw [fetch_of_awaitsLine h] at hfetch
    unfold Gate.ask at hfetch
    split at hfetch
    · cases hfetch
    · next hask =>
      cases hfetch
      rw [hask] at hconsole
      exact hconsole
  · rw [hstep] at hresult
    cases hresult
  · rw [hstep] at hresult
    cases hresult

end Processor
end MicroDebug

import MicroDebug.Proofs.Debugger.Finish

/-! A program that is let run stops at a breakpoint or where it reads input, but not only there. A countdown or a
    function to be finished that earlier commands have left behind is still in force, and stops it as well. -/

namespace MicroDebug

namespace Session

/-! ### A step and what is decided after it -/

/-- The next tick ends the finishing of a function. -/
def Finishes (s : Session) : Prop := s.debugger.finishing ≠ none ∧ s.tick.debugger.finishing = none

theorem asks_of_ok {u : Session} {info : StepInfo} (h : u.next.result = .ok info) :
    u.Asks ↔ info.readInput = true := by
  simp [Asks, h, Except.toOption]

section

variable {u : Session} (hphase : u.phase = .stepping)
include hphase

theorem finishes_of_ok {info : StepInfo} (h : u.next.result = .ok info) :
    u.Finishes ↔ u.debugger.finishing = some 0 ∧ info.flow = .ret := by
  obtain ⟨-, -, hfinishing, -⟩ := tick_of_ok hphase h
  rw [Finishes, hfinishing]
  constructor
  · rintro ⟨hsome, hnone⟩
    obtain ⟨k, hk⟩ := Option.ne_none_iff_exists'.mp hsome
    rw [hk] at hnone
    obtain ⟨hret, rfl⟩ := eq_of_followed_eq_none hnone
    exact ⟨hk, hret⟩
  · rintro ⟨hzero, hret⟩
    rw [hzero, hret]
    exact ⟨nofun, rfl⟩

section

variable (hdeciding : u.tick.phase = .deciding) (hrunning : ¬u.tick.debugger.processor.Ended)
include hdeciding hrunning

/-- A step after which the session goes on has executed an instruction, or a request was cancelled. -/
theorem ok_or_cancelled :
    (∃ info, u.next.result = .ok info) ∨ u.next.result = .error .cancelled ∧ u.tick.debugger.countdown = 1 := by
  cases hresult : u.next.result with
  | ok info => exact .inl ⟨info, rfl⟩
  | error stop =>
    obtain ⟨-, ⟨outcome, hended⟩ | ⟨-, hended | ⟨rfl, hcountdown⟩⟩⟩ := tick_of_error hphase hresult
    · cases hdeciding.symm.trans hended
    · exact absurd hended hrunning
    · exact .inr ⟨rfl, hcountdown⟩

/-- What asks for a prompt after a step: input, the return of the function to be finished, or the countdown. -/
theorem countdown_tick_eq_one_iff :
    u.tick.debugger.countdown = 1 ↔ u.Asks ∨ u.Finishes ∨ u.debugger.countdown = 1 := by
  obtain ⟨info, hresult⟩ | ⟨hcancelled, hcountdown⟩ := ok_or_cancelled hphase hdeciding hrunning
  · obtain ⟨-, -, -, hcountdown⟩ := tick_of_ok hphase hresult
    rw [hcountdown, asks_of_ok hresult, finishes_of_ok hphase hresult, ← or_assoc]
    split
    · next hstops => exact ⟨fun _ => .inl hstops, fun _ => rfl⟩
    · next hgoes => exact ⟨.inr, fun h => h.resolve_left hgoes⟩
  · exact ⟨fun _ => .inl (.inl hcancelled), fun _ => hcountdown⟩

/-- A step after which nothing asks for a prompt has executed an instruction. -/
theorem ok_of_countdown_ne_one (hcountdown : u.tick.debugger.countdown ≠ 1) :
    ∃ info, u.next.result = .ok info ∧ u.tick.debugger.countdown = u.debugger.countdown := by
  obtain ⟨info, hresult⟩ | ⟨-, hone⟩ := ok_or_cancelled hphase hdeciding hrunning
  · obtain ⟨-, -, -, hkept⟩ := tick_of_ok hphase hresult
    refine ⟨info, hresult, ?_⟩
    rw [hkept]
    refine if_neg fun hstops => hcountdown ?_
    rw [hkept, if_pos hstops]
  · exact absurd hone hcountdown

end

variable (hu : u.Sound)
include hu

/-- A step and the decision after it: the session ends, or it prompts where a breakpoint is hit or a prompt has been
    asked for. -/
theorem round_cases :
    (¬(u.tick.phase = .deciding ∧ ¬u.tick.debugger.processor.Ended) ∧
      ∃ outcome, u.tick.tick.phase = .ended outcome) ∨
    (u.tick.phase = .deciding ∧ ¬u.tick.debugger.processor.Ended ∧
      u.tick.tick.debugger.countdown = u.tick.debugger.countdown - 1 ∧ Steady u.tick u.tick.tick ∧
      u.tick.tick.phase = if u.tick.Hits ∨ u.tick.debugger.countdown = 1 then .prompting else .stepping) := by
  obtain hdeciding | ⟨outcome, hended⟩ := deciding_or_ended hphase
  · have htick : u.tick.tick = u.tick.decide := by rw [tick, hdeciding]
    rw [htick]
    obtain ⟨hended, houtcome⟩ | ⟨hrunning, hcountdown, hdecide⟩ := decide_cases hu.tick
    · exact .inl ⟨fun h => h.2 hended, houtcome⟩
    · exact .inr ⟨hdeciding, hrunning, hcountdown, steady_decide u.tick, hdecide⟩
  · rw [tick_of_ended hended]
    refine .inl ⟨fun h => ?_, outcome, hended⟩
    cases hended.symm.trans h.1

theorem prompting_iff :
    u.tick.tick.phase = .prompting ↔
      u.tick.phase = .deciding ∧ ¬u.tick.debugger.processor.Ended ∧
        (u.tick.Hits ∨ u.Asks ∨ u.Finishes ∨ u.debugger.countdown = 1) := by
  obtain ⟨hends, outcome, hended⟩ | ⟨hdeciding, hrunning, -, -, hdecide⟩ := round_cases hphase hu
  · rw [hended, ← and_assoc]
    exact ⟨fun h => (by cases h), fun h => absurd h.1 hends⟩
  · rw [hdecide, ← countdown_tick_eq_one_iff hphase hdeciding hrunning]
    split
    · next h => exact ⟨fun _ => ⟨hdeciding, hrunning, h⟩, fun _ => rfl⟩
    · next h => exact ⟨fun h' => (by cases h'), fun h' => absurd h'.2.2 h⟩

/-- A session that steps again has executed an instruction, and nothing has asked for a prompt. -/
theorem of_stepping (h : u.tick.tick.phase = .stepping) :
    u.tick.phase = .deciding ∧ (∃ info, u.next.result = .ok info) ∧ ¬u.Finishes ∧ u.debugger.countdown ≠ 1 ∧
      u.tick.tick.debugger.countdown = u.debugger.countdown - 1 ∧ Steady u.tick u.tick.tick := by
  obtain ⟨-, outcome, hended⟩ | ⟨hdeciding, hrunning, hcountdown, hsteady, hdecide⟩ := round_cases hphase hu
  · cases h.symm.trans hended
  · split at hdecide
    · cases h.symm.trans hdecide
    next hstops =>
    rw [not_or] at hstops
    obtain ⟨-, hone⟩ := hstops
    obtain ⟨info, hresult, hkept⟩ := ok_of_countdown_ne_one hphase hdeciding hrunning hone
    rw [countdown_tick_eq_one_iff hphase hdeciding hrunning, not_or, not_or] at hone
    rw [hkept] at hcountdown
    exact ⟨hdeciding, ⟨info, hresult⟩, hone.2.1, hone.2.2, hcountdown, hsteady⟩

end

/-! ### Runs -/

theorem quiet_of_phase_ne {s : Session} (h : s.phase ≠ .prompting) : s.Quiet := by
  rw [Quiet, command?, if_neg h]
  exact ⟨(Option.some_ne_none _).symm, (Option.some_ne_none _).symm⟩

theorem flows_add_two {s : Session} {m : Nat} (hdeciding : (s.ticks m).tick.phase = .deciding) :
    s.flows (m + 2) = s.flows m ++ (s.ticks m).flows 1 := by
  have hnil : (s.ticks (m + 1)).flows 1 = [] := by
    rw [ticks_succ']
    exact flows_one_of_phase_ne (by simp [hdeciding])
  rw [flows_succ', hnil, List.append_nil, flows_succ']

/-- So many ticks after the session went on it is about to step again, and nothing has asked for a prompt. -/
structure Underway (s : Session) (n : Nat) : Prop where
  phase : (s.ticks n).phase = .stepping
  countdown : (s.ticks n).debugger.countdown = s.debugger.countdown - (s.flows n).length
  left : s.debugger.countdown = 0 ∨ (s.flows n).length < s.debugger.countdown
  pending : s.debugger.finishing ≠ none → (s.ticks n).debugger.finishing ≠ none

namespace Underway

variable {s : Session} {n : Nat}

theorem zero (hphase : s.phase = .stepping) : Underway s 0 where
  phase := hphase
  countdown := rfl
  left := s.debugger.countdown.eq_zero_or_pos
  pending := id

theorem add_two (hs : s.Sound) (h : Underway s n) (hphase : (s.ticks n).tick.tick.phase = .stepping) :
    Underway s (n + 2) := by
  obtain ⟨hdeciding, ⟨info, hresult⟩, hfinishes, hone, hcountdown, hsteady⟩ := of_stepping h.phase (hs.ticks n) hphase
  have hticks : s.ticks (n + 2) = (s.ticks n).tick.tick := by rw [ticks_succ', ticks_succ']
  have hlength : (s.flows (n + 2)).length = (s.flows n).length + 1 := by
    rw [flows_add_two hdeciding, flows_one_of_ok h.phase hresult, List.length_append, List.length_singleton]
  have hleft := h.left
  have hkept := h.countdown
  refine ⟨?_, ?_, ?_, fun hpending hnone => ?_⟩
  · rw [hticks, hphase]
  · rw [hticks, hcountdown, hkept, hlength, Nat.sub_sub]
  · omega
  · rw [hticks, hsteady.finishing] at hnone
    exact hfinishes ⟨h.pending hpending, hnone⟩

/-- A run without prompts alternates between steps and decisions until it ends or prompts. -/
theorem cases (hs : s.Sound) (hphase : s.phase = .stepping) (hsilent : ∀ m < n, (s.ticks m).phase ≠ .prompting) :
    Underway s n ∨ (∃ m, n = m + 1 ∧ Underway s m ∧ (s.ticks n).phase = .deciding) ∨
      (∃ outcome, (s.ticks n).phase = .ended outcome) ∨
      ∃ m, n = m + 2 ∧ Underway s m ∧ (s.ticks n).phase = .prompting := by
  induction n with
  | zero => exact .inl (zero hphase)
  | succ n ih =>
    rw [ticks_succ']
    obtain hstep | ⟨m, rfl, hm, hdeciding⟩ | ⟨outcome, hended⟩ | ⟨m, rfl, hm, hprompting⟩ :=
      ih fun m hm => hsilent m (Nat.lt_succ_of_lt hm)
    · obtain hdeciding | hended := deciding_or_ended hstep.phase
      · exact .inr (.inl ⟨n, rfl, hstep, hdeciding⟩)
      · exact .inr (.inr (.inl hended))
    · -- the decision belongs to the round of the step before it
      rw [ticks_succ']
      obtain ⟨-, hended⟩ | ⟨-, -, -, -, hdecide⟩ := round_cases hm.phase (hs.ticks m)
      · exact .inr (.inr (.inl hended))
      · split at hdecide
        · exact .inr (.inr (.inr ⟨m, rfl, hm, hdecide⟩))
        · exact .inl (hm.add_two hs hdecide)
    · exact .inr (.inr (.inl ⟨outcome, by rw [tick_of_ended hended, hended]⟩))
    · exact absurd hprompting (hsilent _ (Nat.lt_succ_self _))

theorem countdown_eq_one_iff (h : Underway s n) (hdeciding : (s.ticks n).tick.phase = .deciding) {info : StepInfo}
    (hresult : (s.ticks n).next.result = .ok info) :
    (s.ticks n).debugger.countdown = 1 ↔
      0 < s.debugger.countdown ∧ (s.flows (n + 2)).length = s.debugger.countdown := by
  have hleft := h.left
  rw [h.countdown, flows_add_two hdeciding, flows_one_of_ok h.phase hresult, List.length_append,
    List.length_singleton]
  omega

theorem finishes_iff (h : Underway s n) (hsilent : ∀ m < n, (s.ticks m).phase ≠ .prompting)
    (hdeciding : (s.ticks n).tick.phase = .deciding) :
    (s.ticks n).Finishes ↔ ∃ k, s.debugger.finishing = some k ∧ Returned k (s.flows (n + 2)) := by
  have hbefore := (ticks_follows fun m hm => quiet_of_phase_ne (hsilent m hm)).finishing
  have hquiet : (s.ticks n).Quiet := quiet_of_phase_ne (by simp [h.phase])
  have hafter : (s.ticks n).tick.debugger.finishing = (s.flows (n + 2)).foldl followed s.debugger.finishing := by
    rw [(tick_follows hquiet).finishing, hbefore, ← List.foldl_append, ← flows_add_two hdeciding]
  constructor
  · rintro ⟨hsome, hnone⟩
    cases hk : s.debugger.finishing with
    | none =>
      rw [hk, foldl_followed_none] at hbefore
      exact absurd hbefore hsome
    | some k =>
      rw [hafter, hk] at hnone
      exact ⟨k, rfl, (foldl_followed_eq_none_iff k _).mp hnone⟩
  · rintro ⟨k, hk, hreturned⟩
    refine ⟨h.pending (by rw [hk]; exact Option.some_ne_none k), ?_⟩
    rw [hafter, hk]
    exact (foldl_followed_eq_none_iff k _).mpr hreturned

/-- What asks for a prompt after the next step, by what was left when the session went on. -/
theorem asks_or_iff (h : Underway s n) (hsilent : ∀ m < n, (s.ticks m).phase ≠ .prompting)
    (hdeciding : (s.ticks n).tick.phase = .deciding) (hrunning : ¬(s.ticks n).tick.debugger.processor.Ended) :
    (s.ticks n).Asks ∨ (s.ticks n).Finishes ∨ (s.ticks n).debugger.countdown = 1 ↔
      (s.ticks n).Asks ∨ (0 < s.debugger.countdown ∧ (s.flows (n + 2)).length = s.debugger.countdown) ∨
        ∃ k, s.debugger.finishing = some k ∧ Returned k (s.flows (n + 2)) := by
  obtain ⟨info, hresult⟩ | ⟨hcancelled, -⟩ := ok_or_cancelled h.phase hdeciding hrunning
  · rw [h.countdown_eq_one_iff hdeciding hresult, h.finishes_iff hsilent hdeciding, or_comm (a := ∃ k, _)]
  · -- a cancelled request leaves no flow, so the flows say nothing about the countdown here
    exact ⟨fun _ => .inl (.inl hcancelled), fun _ => .inl (.inl hcancelled)⟩

end Underway

/-- A program that is let run goes on until a breakpoint is hit, input is read or a request for it is cancelled, a
    countdown that was left runs out, or a function that was left to be finished returns. The session prompts after
    the step where one of these is so, and nowhere else. -/
theorem prompts_after_resume {s : Session} (hs : s.Sound) (hresume : s.command? = some .resume) {n : Nat}
    (hsilent : ∀ m < n, (s.tick.ticks m).phase ≠ .prompting) :
    (s.tick.ticks n).phase = .prompting ↔
      ∃ m, n = m + 2 ∧ (s.tick.ticks m).phase = .stepping ∧ (s.tick.ticks (m + 1)).phase = .deciding ∧
        ¬(s.tick.ticks (m + 1)).debugger.processor.Ended ∧
        ((s.tick.ticks (m + 1)).Hits ∨ (s.tick.ticks m).Asks ∨
          (0 < s.debugger.countdown ∧ (s.tick.flows n).length = s.debugger.countdown) ∨
          ∃ k, s.debugger.finishing = some k ∧ Returned k (s.tick.flows n)) := by
  obtain ⟨line, t, ht, htick⟩ := tick_of_command? hresume
  have hphase : s.tick.phase = .stepping := by
    rw [htick]
    rfl
  have hcountdown : s.tick.debugger.countdown = s.debugger.countdown := by
    rw [htick]
    exact congrArg (·.countdown) ht
  have hfinishing : s.tick.debugger.finishing = s.debugger.finishing := by
    rw [htick]
    exact congrArg (·.finishing) ht
  rw [← hcountdown, ← hfinishing]
  have hearlier {m l : Nat} (hm : n = m + 2) (hl : l < m) : (s.tick.ticks l).phase ≠ .prompting :=
    hsilent l (by omega)
  constructor
  · intro hprompting
    obtain hstep | ⟨m, -, -, hdeciding⟩ | ⟨outcome, hended⟩ | ⟨m, rfl, hm, -⟩ := Underway.cases hs.tick hphase hsilent
    · cases hprompting.symm.trans hstep.phase
    · cases hprompting.symm.trans hdeciding
    · cases hprompting.symm.trans hended
    · rw [ticks_succ', ticks_succ', prompting_iff hm.phase (hs.tick.ticks m)] at hprompting
      obtain ⟨hdeciding, hrunning, hcause⟩ := hprompting
      rw [hm.asks_or_iff (fun l => hearlier rfl) hdeciding hrunning] at hcause
      refine ⟨m, rfl, hm.phase, ?_⟩
      rw [ticks_succ']
      exact ⟨hdeciding, hrunning, hcause⟩
  · rintro ⟨m, rfl, hstepping, hdeciding, hrunning, hcause⟩
    have hm : Underway s.tick m := by
      obtain hm | ⟨l, -, -, hdeciding⟩ | ⟨outcome, hended⟩ | ⟨l, -, -, hprompting⟩ :=
        Underway.cases hs.tick hphase fun l (hl : l < m) => hearlier rfl hl
      · exact hm
      · cases hstepping.symm.trans hdeciding
      · cases hstepping.symm.trans hended
      · cases hstepping.symm.trans hprompting
    rw [ticks_succ'] at hdeciding hrunning hcause
    rw [← hm.asks_or_iff (fun l => hearlier rfl) hdeciding hrunning] at hcause
    rw [ticks_succ', ticks_succ']
    exact (prompting_iff hstepping (hs.tick.ticks m)).mpr ⟨hdeciding, hrunning, hcause⟩

/-- A breakpoint at the instruction after the first. -/
theorem prompts_after_resume_at_breakpoint :
    let m := (Memory.zero.writeWords 0x4400 [0x4303, 0x4303]).writeWord Memory.resetAddress 0x4400
    let s := (opened m {} none {} {} (.lines [.line "break 4402", .line "c"])).ticks 2
    s.command? = some .resume ∧ (s.tick.ticks 2).phase = .prompting ∧ s.debugger.countdown = 0 ∧
      (s.tick.ticks 1).Hits := by
  intro m s
  have hs : s.Sound := (sound_opened m {} none {} {} (.lines _)).ticks 2
  have hresume : s.command? = some .resume := by decide
  have hsilent : ∀ k < 2, (s.tick.ticks k).phase ≠ .prompting := by decide
  have hhits : (s.tick.ticks 1).Hits := by decide
  have hprompts := (prompts_after_resume hs hresume hsilent).mpr
    ⟨0, rfl, by decide, by decide, by decide, .inl hhits⟩
  exact ⟨hresume, hprompts, by decide, hhits⟩

/-- Five steps are asked for and a breakpoint stops the first. The other four are counted after the program is let run,
    and then it stops where there is no breakpoint and nothing was read. -/
theorem prompts_after_resume_counted :
    let m := (Memory.zero.writeWords 0x4400 (List.replicate 8 0x4303)).writeWord Memory.resetAddress 0x4400
    let s := (opened m {} none {} {} (.lines [.line "break 4402", .line "s 5", .line "c"])).ticks 5
    s.command? = some .resume ∧ s.debugger.countdown = 4 ∧ (∀ k < 8, (s.tick.ticks k).phase ≠ .prompting) ∧
      (s.tick.ticks 8).phase = .prompting ∧ ¬(s.tick.ticks 7).Hits ∧ ¬(s.tick.ticks 6).Asks := by
  decide

end Session
end MicroDebug

import MicroDebug.Proofs.Debugger.Ticks

/-! The command that finishes the running function lets the program run until that function has returned. Among the
    flows of the steps since, the return that ends it is the first before which calls and returns are even. -/

namespace MicroDebug

/-! ### Flows -/

/-- Among the flows is the return of a function that waits for so many calls to return first. -/
def Returned (depth : Nat) (fs : List Flow) : Prop :=
  ∃ before after, fs = before ++ .ret :: after ∧ before.count .ret = before.count .call + depth

theorem not_returned_nil (depth : Nat) : ¬Returned depth [] := by
  rintro ⟨before, after, h, -⟩
  exact absurd h.symm (List.append_ne_nil_of_right_ne_nil _ (List.cons_ne_nil _ _))

theorem returned_zero_cons (fs : List Flow) : Returned 0 (.ret :: fs) := ⟨[], fs, rfl, rfl⟩

theorem eq_of_followed_eq_none {depth : Nat} {f : Flow} (h : followed (some depth) f = none) :
    f = .ret ∧ depth = 0 := by
  cases depth <;> cases f <;> simp_all [followed]

theorem followed_eq_some {depth d : Nat} {f : Flow} (h : followed (some depth) f = some d) :
    d + [f].count .ret = depth + [f].count .call ∧
      ∀ base, Processor.depthAfter (base + depth) f = base + d := by
  cases f with
  | call | sequential | branch =>
    cases h
    exact ⟨rfl, fun _ => rfl⟩
  | ret =>
    cases depth with
    | zero => cases h
    | succ depth =>
      cases h
      exact ⟨rfl, fun _ => rfl⟩

theorem returned_cons_iff {depth d : Nat} {f : Flow} (h : followed (some depth) f = some d) (fs : List Flow) :
    Returned depth (f :: fs) ↔ Returned d fs := by
  obtain ⟨hcounts, -⟩ := followed_eq_some h
  constructor
  · rintro ⟨before, after, hfs, hcount⟩
    cases before with
    | nil =>
      -- the first step is the return already, so none is left to be followed
      obtain ⟨rfl, rfl⟩ := List.cons.inj hfs
      obtain rfl : 0 = depth := by simpa using hcount
      cases h
    | cons g before =>
      obtain ⟨rfl, rfl⟩ := List.cons.inj hfs
      refine ⟨before, after, rfl, ?_⟩
      rw [← List.singleton_append, List.count_append, List.count_append] at hcount
      omega
  · rintro ⟨before, after, rfl, hcount⟩
    refine ⟨f :: before, after, rfl, ?_⟩
    rw [← List.singleton_append, List.count_append, List.count_append]
    omega

theorem foldl_followed_none (fs : List Flow) : fs.foldl followed none = none := by
  induction fs with
  | nil => rfl
  | cons f fs ih => exact ih

/-- The function to be finished is none any more once it has returned. -/
theorem foldl_followed_eq_none_iff (depth : Nat) (fs : List Flow) :
    fs.foldl followed (some depth) = none ↔ Returned depth fs := by
  induction fs generalizing depth with
  | nil => exact ⟨nofun, fun h => absurd h (not_returned_nil depth)⟩
  | cons f fs ih =>
    rw [List.foldl_cons]
    cases hf : followed (some depth) f with
    | none =>
      obtain ⟨rfl, rfl⟩ := eq_of_followed_eq_none hf
      exact ⟨fun _ => returned_zero_cons fs, fun _ => foldl_followed_none fs⟩
    | some d => rw [ih, returned_cons_iff hf]

instance (depth : Nat) (fs : List Flow) : Decidable (Returned depth fs) :=
  decidable_of_iff _ (foldl_followed_eq_none_iff depth fs)

/-- As long as the function to be finished has not returned, what is left to return for it is what was at first, with
    the calls since and without the returns, and it lies as deep in the calls as before. -/
theorem foldl_followed_eq_some {depth d : Nat} {fs : List Flow} (h : fs.foldl followed (some depth) = some d)
    (base : Nat) :
    d + fs.count .ret = depth + fs.count .call ∧ fs.foldl Processor.depthAfter (base + depth) = base + d := by
  induction fs generalizing depth with
  | nil =>
    cases h
    exact ⟨rfl, rfl⟩
  | cons f fs ih =>
    rw [List.foldl_cons] at h
    cases hf : followed (some depth) f with
    | none =>
      rw [hf, foldl_followed_none] at h
      cases h
    | some e =>
      rw [hf] at h
      obtain ⟨hcounts, hdepths⟩ := ih h
      obtain ⟨hcount, hdepth⟩ := followed_eq_some hf
      rw [← List.singleton_append, List.count_append, List.count_append, List.foldl_append]
      refine ⟨by omega, ?_⟩
      rw [List.foldl_cons, List.foldl_nil, hdepth base, hdepths]

namespace Session

/-- The return of the function to be finished asks for a prompt. -/
theorem returned_tick {t : Session} (ht : t.Sound) {k : Nat} (hk : t.debugger.finishing = some k)
    (h : (t.flows 1).foldl followed (some k) = none) :
    k = 0 ∧ t.tick.debugger.finishing = none ∧ t.tick.depth = t.depth - 1 ∧ t.tick.phase = .deciding ∧
      (¬t.tick.debugger.processor.Ended → t.tick.tick.phase = .prompting) := by
  have hflows : t.flows 1 ≠ [] := fun hnil => by
    rw [hnil] at h
    cases h
  obtain ⟨hphase, info, hresult, hflow⟩ := ok_of_flows_one hflows
  rw [hflow] at h
  obtain ⟨hret, rfl⟩ := eq_of_followed_eq_none h
  obtain ⟨hdeciding, hprocessor, hfinishing, hcountdown⟩ := tick_of_ok hphase hresult
  rw [if_pos (.inr ⟨hk, hret⟩)] at hcountdown
  rw [hk, hret] at hfinishing
  refine ⟨rfl, hfinishing, ?_, hdeciding, fun hrunning => ?_⟩
  · have hdepth := (Processor.depth_stepWatched _ _ _ _).1 info hresult
    rw [hret] at hdepth
    exact (congrArg (·.calls.depth) hprocessor).trans hdepth
  · obtain ⟨hended, -⟩ | ⟨-, -, hprompting⟩ := decide_cases ht.tick
    · exact absurd hended hrunning
    · rw [tick, hdeciding]
      exact hprompting.trans (if_pos (.inr hcountdown))

/-- A function to be finished is pending until the first return before which there were as many returns as calls.
    Until then the calls are deeper than they were by what is pending. That return brings a prompt before the next
    instruction, unless the program has ended. -/
theorem finish_until_return {s : Session} (hs : s.Sound) (hfinish : s.command? = some .finish) {n : Nat}
    (hquiet : ∀ m < n, (s.tick.ticks m).Quiet) :
    let t := s.tick.ticks n
    let fs := s.tick.flows n
    (¬Returned 0 fs →
      ∃ k, t.debugger.finishing = some k ∧ t.depth = s.depth + k ∧ k + fs.count .ret = fs.count .call) ∧
    (Returned 0 fs → t.debugger.finishing = none) ∧
    (¬Returned 0 fs → Returned 0 (s.tick.flows (n + 1)) →
      t.tick.debugger.finishing = none ∧ t.tick.depth = s.depth - 1 ∧ t.tick.phase = .deciding ∧
        (¬t.tick.debugger.processor.Ended → t.tick.tick.phase = .prompting)) := by
  intro t fs
  obtain ⟨line, u, hu, htick⟩ := tick_of_command? hfinish
  have hfinishing : s.tick.debugger.finishing = some 0 := by
    rw [htick]
    rfl
  have hdepth : s.tick.depth = s.depth + 0 := by
    rw [htick]
    exact congrArg (·.processor.calls.depth) hu
  obtain ⟨hpending, hdeep⟩ := ticks_follows hquiet
  rw [hfinishing] at hpending
  rw [hdepth] at hdeep
  have pending (h : ¬Returned 0 fs) :
      ∃ k, t.debugger.finishing = some k ∧ t.depth = s.depth + k ∧ k + fs.count .ret = fs.count .call := by
    rw [← foldl_followed_eq_none_iff, ← ne_eq, Option.ne_none_iff_exists'] at h
    obtain ⟨k, hk⟩ := h
    obtain ⟨hcount, hfold⟩ := foldl_followed_eq_some hk s.depth
    exact ⟨k, hpending.trans hk, hdeep.trans hfold, by omega⟩
  refine ⟨pending, fun h => hpending.trans ((foldl_followed_eq_none_iff 0 fs).mpr h), fun h hreturned => ?_⟩
  obtain ⟨k, hk, hkdepth, -⟩ := pending h
  have hnone : (t.flows 1).foldl followed (some k) = none := by
    rw [← hk, hpending, ← List.foldl_append, ← flows_succ']
    exact (foldl_followed_eq_none_iff 0 _).mpr hreturned
  obtain ⟨rfl, hrest⟩ := returned_tick (hs.tick.ticks n) hk hnone
  rw [Nat.add_zero] at hkdepth
  rw [← hkdepth]
  exact hrest

/-- The function at `0x4410` calls another one before it returns. -/
theorem finish_until_return_of_nested :
    let m := (((Memory.zero.writeWords 0x4400 [0x12b0, 0x4410]).writeWords 0x4410 [0x12b0, 0x4420, 0x4130]).writeWord
      0x4420 0x4130).writeWord Memory.resetAddress 0x4400
    let s := (opened m {} none {} {} (.lines [.line "s", .line "f"])).ticks 4
    s.command? = some .finish ∧ s.depth = 1 ∧ s.tick.flows 5 = [.call, .ret, .ret] ∧
      (s.tick.ticks 5).debugger.finishing = none ∧ (s.tick.ticks 5).depth = 0 ∧
      (s.tick.ticks 6).phase = .prompting := by
  intro m s
  have hs : s.Sound := (sound_opened m {} none {} {} (.lines _)).ticks 4
  have hfinish : s.command? = some .finish := by decide
  have hquiet : ∀ k < 4, (s.tick.ticks k).Quiet := by decide
  obtain ⟨-, -, hreturn⟩ := finish_until_return hs hfinish hquiet
  obtain ⟨hnone, hdepth, -, hprompt⟩ := hreturn (by decide) (by decide)
  have hs1 : s.depth = 1 := by decide
  rw [hs1] at hdepth
  exact ⟨hfinish, hs1, by decide, hnone, hdepth, hprompt (by decide)⟩

end Session
end MicroDebug

import MicroDebug.Proofs.Processor.Hosts

/-! What a step has nothing to do with. The reports that a debugger makes between the steps change nothing for the
    program, and neither does a watcher that never fails. -/

namespace MicroDebug

namespace Console

/-! ### Reports -/

/-- What the host has been shown apart from the text of the debugger. -/
def told (c : Console) : List Shown :=
  c.shown.toList.filter fun x =>
    match x with
    | .report _ => false
    | .output _ | .request _ | .notice _ | .echo _ => true

/-- What the host refuses does not depend on how much it has been shown. -/
structure Indifferent (c : Console) : Prop where
  output : ∀ m n, c.outputFailure m = c.outputFailure n
  notice : ∀ m n, c.noticeFailure m = c.noticeFailure n

/-- Two hosts have the same answers to come and refuse the same, and they have been shown the same of the program. -/
structure Alike (c d : Console) : Prop where
  replies : d.replies = c.replies
  refusals : c.SameRefusals d
  told : d.told = c.told
  indifferent : c.Indifferent

namespace Alike

variable {c d : Console} (h : c.Alike d)
include h

theorem symm : d.Alike c :=
  ⟨h.replies.symm, ⟨h.refusals.output.symm, h.refusals.notice.symm⟩, h.told.symm,
    by rw [h.refusals.output]; exact h.indifferent.output, by rw [h.refusals.notice]; exact h.indifferent.notice⟩

theorem report_right (text : String) : c.Alike (d.report text) where
  replies := h.replies
  refusals := h.refusals.trans (.append d _)
  told := by
    rw [← h.told]
    simp [Console.told, report, append]
  indifferent := h.indifferent

theorem report_left (text : String) : (c.report text).Alike d := (h.symm.report_right text).symm

theorem report (text text' : String) : (c.report text).Alike (d.report text') :=
  (h.report_left text).report_right text'

/-- Either host may be shown a report. -/
theorem reported {c' d' : Console} (hc : c' = c ∨ ∃ text, c' = c.report text)
    (hd : d' = d ∨ ∃ text, d' = d.report text) : c'.Alike d' := by
  rcases hc with rfl | ⟨text, rfl⟩ <;> rcases hd with rfl | ⟨text', rfl⟩
  · exact h
  · exact h.report_right text'
  · exact h.report_left text
  · exact h.report text text'

theorem fresh : d.fresh = c.fresh := by
  have houtput (n : Nat) : c.outputFailure (d.shown.size + n) = c.outputFailure (c.shown.size + n) :=
    h.indifferent.output _ _
  have hnotice (n : Nat) : c.noticeFailure (d.shown.size + n) = c.noticeFailure (c.shown.size + n) :=
    h.indifferent.notice _ _
  simp only [Console.fresh, h.replies, h.refusals.output, h.refusals.notice, houtput, hnotice]

end Alike
end Console

/-! ### Steps -/

namespace Processor

theorem fetch_alike {c d : Console} (h : c.Alike d) (p : Processor) :
    (p.fetch d).1 = (p.fetch c).1 ∧ (p.fetch c).2.Alike (p.fetch d).2 := by
  -- either host is the same fresh one after what it has been shown
  have hc := same_fetch c.after_fresh p
  have hd := same_fetch d.after_fresh p
  have hrc := Console.SameRefusals.fetch c p
  have hrd := Console.SameRefusals.fetch d p
  rw [h.fresh] at hd
  obtain ⟨result, e, c', hfresh, hfetch, hafter⟩ := hc
  obtain ⟨result', e', d', hfresh', hfetch', hafter'⟩ := hd
  rw [hfresh] at hfresh'
  cases hfresh'
  rw [hfetch] at hrc ⊢
  rw [hfetch'] at hrd ⊢
  refine ⟨rfl, hafter'.replies.trans hafter.replies.symm, ?_, ?_, ?_⟩
  · exact ⟨hrd.output.trans (h.refusals.output.trans hrc.output.symm),
      hrd.notice.trans (h.refusals.notice.trans hrc.notice.symm)⟩
  · have htold := h.told
    simp only [Console.told] at htold ⊢
    rw [hafter.shown, hafter'.shown, Array.toList_append, Array.toList_append, List.filter_append, List.filter_append,
      htold]
  · exact ⟨by rw [hrc.output]; exact h.indifferent.output, by rw [hrc.notice]; exact h.indifferent.notice⟩

/-- What comes of a step and what the host is then shown of the program has nothing to do with reports before it, nor
    with a watcher that never fails. Either watcher is told the same, or neither is told anything. -/
theorem stepWatched_alike {σ τ : Type} {watch : Watcher σ} {watch' : Watcher τ} {s : σ} {s' : τ} {c d : Console}
    (h : c.Alike d) (p : Processor) (hs : ∀ q e, (watch s q e).1 = .ok ()) (hs' : ∀ q e, (watch' s' q e).1 = .ok ()) :
    let x := p.stepWatched watch s c
    let y := p.stepWatched watch' s' d
    y.result = x.result ∧ y.processor = x.processor ∧ x.console.Alike y.console ∧
      ((x.watcher = s ∧ y.watcher = s') ∨ ∃ q e, x.watcher = (watch s q e).2 ∧ y.watcher = (watch' s' q e).2) := by
  obtain ⟨hresult, hconsole⟩ := fetch_alike h p
  rcases hc : p.fetch c with ⟨result, c'⟩
  rcases hd : p.fetch d with ⟨result', d'⟩
  rw [hc, hd] at hresult hconsole
  obtain rfl : result' = result := hresult
  simp only [stepWatched, hc, hd]
  cases result' with
  | error stopped => exact ⟨rfl, rfl, hconsole, .inl ⟨rfl, rfl⟩⟩
  | ok f =>
    have hok := hs f.processor f.event
    have hok' := hs' f.processor f.event
    rcases hwatch : watch s f.processor f.event with ⟨told, t⟩
    rcases hwatch' : watch' s' f.processor f.event with ⟨told', t'⟩
    rw [hwatch] at hok
    rw [hwatch'] at hok'
    obtain rfl : told = .ok () := hok
    obtain rfl : told' = .ok () := hok'
    simp only [hwatch, hwatch']
    cases f.effect <;>
      exact ⟨rfl, rfl, hconsole, .inr ⟨f.processor, f.event, by rw [hwatch], by rw [hwatch']⟩⟩

end Processor
end MicroDebug

import MicroDebug.Proofs.Trace.FirstPass

/-! Loops without a jump but the one that closes them. A tracer that is told of some passes through such a loop writes
    the first one line by line and counts the others, whatever it has been told of before. -/

namespace MicroDebug
namespace Tracer

/-! ### Lines before the end of a trace -/

/-- The lines that a tracer comes to for events, without what it leaves for the end of the trace. -/
def written (t : Tracer) : List (Machine × Event) → List TraceLine
  | [] => []
  | (m, e) :: told =>
    match t.absorb? e.pc with
    | some t => written t told
    | none => t.loopLine?.toList ++ eventLine m e :: written (t.record e) told

/-- Tells a tracer of events one after another, up to the first that it fails at. -/
def tell {σ : Type} (write : σ → TraceLine → Except String Unit × σ) (t : Tracer) (s : σ) :
    List (Machine × Event) → Except String Unit × σ
  | [] => (.ok (), s)
  | (m, e) :: told =>
    match t.observe write s m e with
    | (.error reason, _, s) => (.error reason, s)
    | (.ok (), t, s) => tell write t s told

theorem tell_eq_writeAll {σ : Type} (write : σ → TraceLine → Except String Unit × σ) (t : Tracer) (s : σ)
    (told : List (Machine × Event)) : tell write t s told = writeAll write s (written t told) := by
  induction told generalizing t s with
  | nil => rfl
  | cons x told ih =>
    obtain ⟨m, e⟩ := x
    rw [tell, observe, written]
    cases t.absorb? e.pc with
    | some t' => exact ih t' s
    | none =>
      simp only [leaveLoop_eq, writeAll_append]
      rcases writeAll write s t.loopLine?.toList with ⟨reason | _, s'⟩
      · rfl
      · simp only [writeAll]
        rcases write s' (eventLine m e) with ⟨reason | _, s''⟩
        · rfl
        · exact ih (t.record e) s''

/-- A sink that keeps every line has them all in the end. -/
theorem writeAll_keep (s ls : List TraceLine) : writeAll (fun s l => (.ok (), s ++ [l])) s ls = (.ok (), s ++ ls) := by
  induction ls generalizing s with
  | nil => rw [writeAll, List.append_nil]
  | cons l ls ih => exact (ih (s ++ [l])).trans (by rw [List.append_assoc, List.singleton_append])

section

variable (t : Tracer)

theorem after_cons (x : Machine × Event) (told : List (Machine × Event)) :
    after t (x :: told) = after ((t.absorb? x.2.pc).getD (t.record x.2)) told := rfl

theorem after_append (xs ys : List (Machine × Event)) : after t (xs ++ ys) = after (after t xs) ys :=
  List.foldl_append

theorem written_append (xs ys : List (Machine × Event)) :
    written t (xs ++ ys) = written t xs ++ written (after t xs) ys := by
  induction xs generalizing t with
  | nil => rfl
  | cons x xs ih =>
    obtain ⟨m, e⟩ := x
    rw [List.cons_append, written, written, after_cons]
    cases t.absorb? e.pc with
    | some u => exact ih u
    | none => simp only [Option.getD_none, ih, List.append_assoc, List.cons_append]

/-- The end of a trace adds the line of the loop that is being counted. -/
theorem lines_eq_written (told : List (Machine × Event)) :
    lines t told = written t told ++ (after t told).loopLine?.toList := by
  induction told generalizing t with
  | nil => rfl
  | cons x told ih =>
    obtain ⟨m, e⟩ := x
    rw [lines, written, after_cons]
    cases t.absorb? e.pc with
    | some u => exact ih u
    | none => simp only [Option.getD_none, ih, List.append_assoc, List.cons_append]

end

/-! ### The first pass -/

theorem isStraight_take {head : UInt16} {history : List (UInt16 × Bool)} (h : isStraight head history = true)
    (n : Nat) : isStraight head (history.take n) = true := by
  induction history generalizing n with
  | nil => rw [List.take_nil, isStraight]
  | cons x history ih =>
    obtain ⟨a, jump⟩ := x
    cases n with
    | zero => rfl
    | succ n =>
      rw [isStraight] at h
      rw [List.take_succ_cons, isStraight]
      split
      · rfl
      · next hhead =>
        rw [if_neg hhead] at h
        split
        · next hjump =>
          rw [if_pos hjump] at h
          cases h
        · next hjump =>
          rw [if_neg hjump] at h
          exact ih h n

theorem Closes.isJump {e : Event} {l : Loop} (h : Closes e l) : isJump e = true := by
  obtain ⟨i, d, rfl, hd, -⟩ := h
  simp only [Tracer.isJump, hd]

theorem Closes.pc {e : Event} {l : Loop} (h : Closes e l) : e.pc = l.last := by
  obtain ⟨i, d, rfl, -⟩ := h
  rfl

theorem closed?_of_not_isJump (history : List (UInt16 × Bool)) {e : Event} (h : isJump e = false) :
    closed? history e = none := by
  cases hclosed : closed? history e with
  | none => rfl
  | some l =>
    obtain ⟨-, hcloses, -⟩ := closed?_eq_some_iff.mp hclosed
    rw [hcloses.isJump] at h
    cases h

section

variable {t : Tracer}

theorem written_of_loop_none (h : t.loop = none) (m : Machine) (e : Event) :
    written t [(m, e)] = [eventLine m e] := by
  simp only [written, absorb?_of_loop_none h, loopLine?, h]
  rfl

theorem after_of_loop_none (h : t.loop = none) (m : Machine) (e : Event) : after t [(m, e)] = t.record e := by
  rw [after_cons, absorb?_of_loop_none h]
  rfl

/-- Instructions that are no jumps have their lines, and no jump is remembered since the head of the loop. -/
theorem written_straight {head : UInt16} (hloop : t.loop = none) (hstraight : isStraight head t.history = true)
    {body : List (Machine × Event)} (hbody : ∀ x ∈ body, isJump x.2 = false) :
    written t body = body.map (fun x => eventLine x.1 x.2) ∧ (after t body).loop = none ∧
      isStraight head (after t body).history = true := by
  induction body generalizing t with
  | nil => exact ⟨rfl, hloop, hstraight⟩
  | cons x body ih =>
    obtain ⟨m, e⟩ := x
    rw [List.forall_mem_cons] at hbody
    have hrecord : (t.record e).loop = none := closed?_of_not_isJump _ hbody.1
    have hhistory : isStraight head (t.record e).history = true := by
      refine isStraight_take ?_ _
      rw [isStraight, hbody.1, hstraight, if_neg Bool.false_ne_true, ite_self]
    obtain ⟨hwritten, hafter⟩ := ih hrecord hhistory hbody.2
    rw [← List.singleton_append, written_append, after_append, written_of_loop_none hloop, after_of_loop_none hloop,
      hwritten]
    exact ⟨rfl, hafter⟩

end

/-! ### Passes -/

/-- Instructions that are no jumps, at ascending addresses from the head of a loop on, and the jump after them that
    closes the loop. -/
structure Simple (l : Loop) (body : List Event) (jump : Event) : Prop where
  starts : body.head?.map Event.pc = some l.head
  ascends : (body ++ [jump]).Pairwise fun e f => e.pc < f.pc
  straight : ∀ e ∈ body, isJump e = false
  closes : Closes jump l

theorem Closes.closed?_eq {e : Event} {l : Loop} (h : Closes e l) {history : List (UInt16 × Bool)}
    (hstraight : isStraight l.head history = true) : closed? history e = some { l with passes := 0 } :=
  closed?_eq_some_iff.mpr ⟨rfl, h, hstraight⟩

namespace Simple

variable {l : Loop} {body : List Event} {jump : Event} (h : Simple l body jump)
include h

theorem exists_cons : ∃ e rest, body = e :: rest ∧ e.pc = l.head := by
  have hstarts := h.starts
  cases hbody : body with
  | nil =>
    rw [hbody] at hstarts
    cases hstarts
  | cons e rest =>
    rw [hbody] at hstarts
    exact ⟨e, rest, rfl, Option.some.inj hstarts⟩

/-- The addresses of a pass are the head of the loop and then others in it. -/
theorem addresses : ∃ rest, (body ++ [jump]).map Event.pc = l.head :: rest ∧ ∀ a ∈ rest, l.head < a ∧ a ≤ l.last := by
  obtain ⟨e, rest, hbody, he⟩ := h.exists_cons
  have hascends := h.ascends
  rw [hbody, List.cons_append, List.pairwise_cons] at hascends
  obtain ⟨habove, hascends⟩ := hascends
  refine ⟨(rest ++ [jump]).map Event.pc, by rw [hbody, List.cons_append, List.map_cons, he], ?_⟩
  intro a ha
  obtain ⟨f, hf, rfl⟩ := List.mem_map.mp ha
  refine ⟨he ▸ habove f hf, ?_⟩
  rw [← h.closes.pc]
  rcases List.mem_append.mp hf with hf | hf
  · exact UInt16.le_of_lt ((List.pairwise_append.mp hascends).2.2 f hf jump (List.mem_singleton_self jump))
  · rw [List.mem_singleton.mp hf]
    exact UInt16.le_refl _

/-- The first pass is written, and the loop is counted from its end on. -/
theorem first {t : Tracer} (hloop : t.loop = none) {pass : List (Machine × Event)}
    (hpass : pass.map Prod.snd = body ++ [jump]) :
    written t pass = pass.map (fun x => eventLine x.1 x.2) ∧
      (after t pass).loop = some { l with passes := 0 } := by
  obtain ⟨xs, ys, rfl, hxs, hys⟩ := List.map_eq_append_iff.mp hpass
  obtain ⟨⟨m', e'⟩, rfl, rfl⟩ := List.map_eq_singleton_iff.mp hys
  obtain ⟨_, rest, hbody, hhead⟩ := h.exists_cons
  obtain ⟨⟨m, e⟩, told, rfl, rfl, htold⟩ := List.map_eq_cons_iff.mp (hxs.trans hbody)
  have hstraight := h.straight
  rw [hbody, List.forall_mem_cons] at hstraight
  -- the head is the latest instruction that is remembered when the rest of the body comes
  have hrecord : (t.record e).loop = none := closed?_of_not_isJump _ hstraight.1
  have hhistory : isStraight l.head (t.record e).history = true := by
    refine isStraight_take ?_ _
    exact if_pos hhead
  obtain ⟨hwritten, hnone, hsince⟩ := written_straight hrecord hhistory fun x hx =>
    hstraight.2 x.2 (htold ▸ List.mem_map_of_mem hx)
  have hafter : after t ((m, e) :: told) = after (t.record e) told := by
    rw [after_cons, absorb?_of_loop_none hloop, Option.getD_none]
  constructor
  · rw [written_append, hafter, written_of_loop_none hnone, ← List.singleton_append, written_append,
      written_of_loop_none hloop, after_of_loop_none hloop, hwritten, List.map_append]
    rfl
  · rw [after_append, hafter, after_of_loop_none hnone]
    exact h.closes.closed?_eq hsince

end Simple

/-! ### Counting -/

section

variable {t : Tracer} {l : Loop} (hloop : t.loop = some l)
include hloop

/-- Nothing is written for events in the loop, and the passes counted are the times that its head is come to. -/
theorem absorbs {told : List (Machine × Event)} (htold : ∀ x ∈ told, l.Contains x.2.pc) :
    written t told = [] ∧
      (after t told).loop = some { l with passes := l.passes + told.countP fun x => x.2.pc = l.head } := by
  induction told generalizing t l with
  | nil => exact ⟨rfl, hloop⟩
  | cons x told ih =>
    obtain ⟨m, e⟩ := x
    rw [List.forall_mem_cons] at htold
    have habsorb := absorb?_of_loop_some hloop e.pc
    rw [if_pos htold.1] at habsorb
    obtain ⟨hwritten, hafter⟩ := ih
      (t := { t with loop := some { l with passes := l.passes + if e.pc = l.head then 1 else 0 } }) rfl htold.2
    rw [written, after_cons, habsorb]
    refine ⟨hwritten, hafter.trans ?_⟩
    simp only [List.countP_cons, decide_eq_true_eq]
    congr 2
    omega

/-- An event outside the loop brings the line with the number of passes, and then its own. -/
theorem written_outside {e : Event} (hout : ¬l.Contains e.pc) (m : Machine) :
    written t [(m, e)] = [.loop l.passes, eventLine m e] := by
  simp only [written, absorb?_of_loop_some hloop, if_neg hout, loopLine?, hloop]
  rfl

end

namespace Simple

variable {l : Loop} {body : List Event} {jump : Event} (h : Simple l body jump)
include h

theorem head_lt_last : l.head < l.last := by
  obtain ⟨e, rest, rfl, he⟩ := h.exists_cons
  have hascends := h.ascends
  rw [List.cons_append, List.pairwise_cons] at hascends
  rw [← he, ← h.closes.pc]
  exact hascends.1 jump (List.mem_append_right rest (List.mem_singleton_self jump))

/-- Passes at the addresses of the loop lie in it, and each comes to its head once. -/
theorem contains_of_passes {passes : List (List (Machine × Event))}
    (hpasses : ∀ pass ∈ passes, pass.map (fun x => x.2.pc) = (body ++ [jump]).map Event.pc) :
    (∀ x ∈ passes.flatten, l.Contains x.2.pc) ∧
      (passes.flatten.countP fun x => x.2.pc = l.head) = passes.length := by
  obtain ⟨others, haddresses, hothers⟩ := h.addresses
  induction passes with
  | nil => exact ⟨fun _ hx => absurd hx List.not_mem_nil, rfl⟩
  | cons pass passes ih =>
    rw [List.forall_mem_cons, haddresses] at hpasses
    obtain ⟨x, xs, rfl, hx, hxs⟩ := List.map_eq_cons_iff.mp hpasses.1
    have habove : ∀ y ∈ xs, l.head < y.2.pc ∧ y.2.pc ≤ l.last := fun y hy =>
      hothers _ (hxs ▸ List.mem_map_of_mem hy)
    have hnone : (xs.countP fun y => y.2.pc = l.head) = 0 := List.countP_eq_zero.mpr fun y hy => by
      simpa using (UInt16.ne_of_lt (habove y hy).1).symm
    obtain ⟨hin, hcount⟩ := ih (haddresses ▸ hpasses.2)
    constructor
    · intro y hy
      rw [List.flatten_cons, List.cons_append, List.mem_cons, List.mem_append] at hy
      rcases hy with rfl | hy | hy
      · exact .inl hx
      · exact .inr (habove y hy)
      · exact hin y hy
    · rw [List.flatten_cons, List.countP_append, List.countP_cons, hnone, hcount, hx, List.length_cons]
      simp [Nat.add_comm]

/-- What is written for passes through the loop, and what is counted. -/
theorem passes {t : Tracer} (hloop : t.loop = none) {first : List (Machine × Event)}
    {later : List (List (Machine × Event))} (hfirst : first.map Prod.snd = body ++ [jump])
    (hlater : ∀ pass ∈ later, pass.map (fun x => x.2.pc) = (body ++ [jump]).map Event.pc) :
    written t (first ++ later.flatten) = first.map (fun x => eventLine x.1 x.2) ∧
      (after t (first ++ later.flatten)).loop = some { l with passes := later.length } := by
  obtain ⟨hwritten, hcounted⟩ := h.first hloop hfirst
  obtain ⟨hin, hcount⟩ := h.contains_of_passes hlater
  obtain ⟨hsilent, hafter⟩ := absorbs hcounted hin
  rw [written_append, after_append, hwritten, hsilent, List.append_nil, hafter]
  refine ⟨rfl, ?_⟩
  simp only [Nat.zero_add, ← hcount]

end Simple

section

variable {t : Tracer} (hloop : t.loop = none) {l : Loop} {body : List Event} {jump : Event} (h : Simple l body jump)
  {first : List (Machine × Event)} {later : List (List (Machine × Event))}
  (hfirst : first.map Prod.snd = body ++ [jump])
  (hlater : ∀ pass ∈ later, pass.map (fun x => x.2.pc) = (body ++ [jump]).map Event.pc)
include hloop h hfirst hlater

/-- The lines of passes up to the end of a trace. -/
theorem lines_passes :
    lines t (first ++ later.flatten) = first.map (fun x => eventLine x.1 x.2) ++ [.loop later.length] := by
  obtain ⟨hwritten, hafter⟩ := h.passes hloop hfirst hlater
  rw [lines_eq_written, hwritten, loopLine?, hafter]
  rfl

/-- The lines of passes and of an event outside the loop. -/
theorem written_passes {e : Event} (hout : ¬(l.head ≤ e.pc ∧ e.pc ≤ l.last)) (m : Machine) :
    written t (first ++ later.flatten ++ [(m, e)]) =
      first.map (fun x => eventLine x.1 x.2) ++ [.loop later.length] ++ [eventLine m e] := by
  obtain ⟨hwritten, hafter⟩ := h.passes hloop hfirst hlater
  have hnot : ¬l.Contains e.pc := by
    rintro (hhead | ⟨hhead, hlast⟩)
    · exact hout ⟨UInt16.le_of_eq hhead.symm, hhead ▸ UInt16.le_of_lt h.head_lt_last⟩
    · exact hout ⟨UInt16.le_of_lt hhead, hlast⟩
  rw [written_append, hwritten, written_outside hafter hnot, List.append_assoc]
  rfl

end

theorem joined_passes (first : List (Machine × Event)) (passes : Nat) :
    TraceLine.joined (first.map (fun x => eventLine x.1 x.2) ++ [.loop passes]) =
      String.join (first.map fun x => Hex.word x.2.pc ++ " " ++ eventText x.1 x.2 ++ "\n") ++
        ("<loop " ++ toString passes ++ " times>\n") := by
  have hloop : TraceLine.joined [.loop passes] = "<loop " ++ toString passes ++ " times>\n" := by
    simp [TraceLine.joined, TraceLine.text, String.append_assoc]
  rw [TraceLine.joined_append, hloop, TraceLine.joined, List.map_map]
  rfl

/-- A tracer that counts no loop is told of some passes through a loop without other jumps. Whatever it has been told of
    before, it writes a line for each instruction of the first pass and one with the number of the passes after it, and
    then goes on with the event that follows outside the loop, if one does. A file without a limit then has the texts of
    these lines in it, after what it had before. -/
theorem tell_passes {σ : Type} (write : σ → TraceLine → Except String Unit × σ) (s : σ) {t : Tracer}
    (hloop : t.loop = none) {l : Loop} {body : List Event} {jump : Event} (h : Simple l body jump)
    {first : List (Machine × Event)} {later : List (List (Machine × Event))}
    (hfirst : first.map Prod.snd = body ++ [jump])
    (hlater : ∀ pass ∈ later, pass.map (fun x => x.2.pc) = (body ++ [jump]).map Event.pc) :
    let passes := first ++ later.flatten
    let counted := first.map (fun x => eventLine x.1 x.2) ++ [.loop later.length]
    let text := String.join (first.map fun x => Hex.word x.2.pc ++ " " ++ eventText x.1 x.2 ++ "\n") ++
      ("<loop " ++ toString later.length ++ " times>\n")
    (follow write t s passes = writeAll write s counted ∧
      ∀ m e, ¬(l.head ≤ e.pc ∧ e.pc ≤ l.last) →
        tell write t s (passes ++ [(m, e)]) = writeAll write s (counted ++ [eventLine m e])) ∧
    ∀ (w : FileWriter) (f : Folder) (path : String) (bytes : ByteArray), w.Holds f path bytes →
      (∃ v g, follow Recorder.writeLine t (w, f) passes = (.ok (), v, g) ∧
        v.Holds g path (bytes ++ text.toUTF8)) ∧
      ∀ m e, ¬(l.head ≤ e.pc ∧ e.pc ≤ l.last) →
        ∃ v g, tell Recorder.writeLine t (w, f) (passes ++ [(m, e)]) = (.ok (), v, g) ∧
          v.Holds g path (bytes ++ (text ++ (Hex.word e.pc ++ " " ++ eventText m e ++ "\n")).toUTF8) := by
  intro passes counted text
  have hlines : lines t passes = counted := lines_passes hloop h hfirst hlater
  have hwritten {e : Event} (hout : ¬(l.head ≤ e.pc ∧ e.pc ≤ l.last)) (m : Machine) :
      written t (passes ++ [(m, e)]) = counted ++ [eventLine m e] := written_passes hloop h hfirst hlater hout m
  have htext : TraceLine.joined counted = text := joined_passes first later.length
  refine ⟨⟨?_, fun m e hout => ?_⟩, fun w f path bytes hw => ⟨?_, fun m e hout => ?_⟩⟩
  · rw [follow_eq_writeAll, hlines]
  · rw [tell_eq_writeAll, hwritten hout]
  · rw [follow_eq_writeAll, hlines, ← htext]
    exact holds_writeAll hw counted
  · have hevent : TraceLine.joined [eventLine m e] = Hex.word e.pc ++ " " ++ eventText m e ++ "\n" := by
      simp [TraceLine.joined, TraceLine.text, eventLine]
    have hall := holds_writeAll hw (counted ++ [eventLine m e])
    rw [TraceLine.joined_append, htext, hevent] at hall
    rw [tell_eq_writeAll, hwritten hout]
    exact hall

/-- Three passes through a loop with the longest body, after as many jumps from elsewhere as are remembered. -/
theorem tell_passes_longest :
    let i : Instruction :=
      { operation := .binary .mov, width := .word, operands := .two (.ofRegister 4) (.ofRegister 5), size := 2 }
    let jump : Event :=
      .execute 0x4420 { operation := .jump .notZero, width := .word, operands := .offset (-32), size := 2 }
    let body := (List.range 16).map fun k => Event.execute (0x4400 + 2 * UInt16.ofNat k) i
    let l : Loop := { head := 0x4400, last := 0x4420 }
    let m : Machine := (Processor.start Memory.zero).toMachine
    let pass := (body ++ [jump]).map fun e => (m, e)
    let t : Tracer := { history := List.replicate memoryLength (0x4000, true) }
    let told := pass ++ [pass, pass].flatten ++ [(m, .execute 0x4422 i)]
    Simple l body jump ∧
      tell (fun s l => (.ok (), s ++ [l])) t [] told =
        (.ok (), pass.map (fun x => eventLine x.1 x.2) ++ [.loop 2, eventLine m (.execute 0x4422 i)]) ∧
      ∃ v g, tell Recorder.writeLine t ({ path := "trace" }, Folder.put {} "trace" ByteArray.empty) told =
          (.ok (), v, g) ∧
        (v.flush g).2.find? "trace" =
          some (String.join (pass.map fun x => Hex.word x.2.pc ++ " " ++ eventText x.1 x.2 ++ "\n") ++
            "<loop 2 times>\n4422 mov\tr4, r5 [0000 (0000), 0000 (0000)]\n").toUTF8 := by
  intro i jump body l m pass t told
  have hsimple : Simple l body jump :=
    ⟨rfl, by decide, by decide, _, -32, rfl, rfl, nofun, by decide, by decide, by decide⟩
  have hfirst : pass.map Prod.snd = body ++ [jump] := by simp [pass, Function.comp_def]
  have hlater : ∀ p ∈ [pass, pass], p.map (fun x => x.2.pc) = (body ++ [jump]).map Event.pc := by
    simp [pass, Function.comp_def]
  obtain ⟨⟨-, hlines⟩, hfile⟩ := tell_passes (fun s l => (.ok (), s ++ [l])) [] (t := t) rfl hsimple hfirst hlater
  refine ⟨hsimple, (hlines m (.execute 0x4422 i) (by decide)).trans ?_, ?_⟩
  · rw [writeAll_keep, List.nil_append, List.append_assoc]
    rfl
  · obtain ⟨-, hout⟩ := hfile _ _ _ _ (@FileWriter.holds_put "trace" rfl {})
    obtain ⟨v, g, htold, hholds⟩ := hout m (.execute 0x4422 i) (by decide)
    have hfound := hholds.find?_flush
    rw [ByteArray.empty_append] at hfound
    have hlast : "<loop " ++ toString 2 ++ " times>\n" ++ (Hex.word 0x4422 ++ " " ++ eventText m (.execute 0x4422 i) ++ "\n") =
        "<loop 2 times>\n4422 mov\tr4, r5 [0000 (0000), 0000 (0000)]\n" := by decide
    rw [← hlast, ← String.append_assoc]
    exact ⟨v, g, htold, hfound⟩

end Tracer
end MicroDebug

import MicroDebug.Proofs.Host.FileWriter
import MicroDebug.Proofs.Text.Hex
import MicroDebug.Trace.Recorder

/-! A trace loses nothing and invents nothing. Each event that a tracer is told of has a line of its own, or it
    belongs to the loop that the line before it closed; such a loop has one line more, with the number of times that
    its head was come to. Which jumps close a loop is told by the lines before them alone. In a file the lines stand
    one below the other. -/

namespace MicroDebug

/-! ### Lines as text -/

theorem TraceLine.exists_eq_loop {l : TraceLine} (h : l.text.toList.head? = some '<') : ∃ passes, l = .loop passes := by
  cases l with
  | loop passes => exact ⟨passes, rfl⟩
  | event pc t =>
    obtain ⟨c, cs, hcs⟩ : ∃ c cs, Hex.paddedDigits 4 pc.toNat = c :: cs :=
      List.exists_cons_of_length_pos (by simp [Hex.paddedDigits, List.leftpad]; omega)
    have hmem : c ∈ Hex.paddedDigits 4 pc.toNat := by simp [hcs]
    have hc : c = '<' := by simpa [text, Hex.word, Hex.padded, hcs] using h
    rw [hc] at hmem
    exact absurd (Hex.digit_of_mem_paddedDigits hmem) (by decide)

/-- What a file with the lines in it reads. -/
def TraceLine.joined (ls : List TraceLine) : String := String.join (ls.map fun l => l.text ++ "\n")

theorem TraceLine.joined_append (ls ks : List TraceLine) : joined (ls ++ ks) = joined ls ++ joined ks := by
  simp [joined]

/-- An address is the head of the loop, or one after it up to the last. -/
def Loop.Contains (l : Loop) (a : UInt16) : Prop := a = l.head ∨ l.head < a ∧ a ≤ l.last

instance (l : Loop) (a : UInt16) : Decidable (l.Contains a) := inferInstanceAs (Decidable (_ ∨ _))

namespace Tracer

/-! ### What the lines of events are -/

/-- The event is a jump that is not always taken, at the last address of the loop and back to its head. -/
def Closes (e : Event) (l : Loop) : Prop :=
  ∃ i d, e = .execute l.last i ∧ i.operands = .offset d ∧ i.operation ≠ .jump .always ∧
    -32 ≤ d.toInt ∧ d.toInt ≤ -1 ∧ l.head = l.last + d.toUInt16

/-- Among events, the latest first, there is none at `head`, or none is a jump that is later than the latest there. -/
def StraightSince (head : UInt16) (shown : List Event) : Prop :=
  ∀ newer e older, shown = newer ++ e :: older → isJump e = true → e.pc = head ∨ ∃ x ∈ newer, x.pc = head

/-- The event closes the loop after those that were written, the latest first. -/
def Opens (shown : List Event) (e : Event) (l : Loop) : Prop :=
  Closes e l ∧ StraightSince l.head (shown.take memoryLength)

/-- The lines of a trace of events, each told with the machine at that time, after those that were written. -/
inductive Condenses : List Event → List (Machine × Event) → List TraceLine → Prop
  | nil (shown : List Event) : Condenses shown [] []
  | line {shown : List Event} {m : Machine} {e : Event} {told : List (Machine × Event)} {lines : List TraceLine}
      (hnone : ∀ l, ¬Opens shown e l) (hrest : Condenses (e :: shown) told lines) :
      Condenses shown ((m, e) :: told) (eventLine m e :: lines)
  | loop {shown : List Event} {m : Machine} {e : Event} {l : Loop} {stretch told : List (Machine × Event)}
      {lines : List TraceLine} (hopens : Opens shown e l) (hin : ∀ x ∈ stretch, l.Contains x.2.pc)
      (hout : ∀ x ∈ told.head?, ¬l.Contains x.2.pc) (hrest : Condenses (e :: shown) told lines) :
      Condenses shown ((m, e) :: (stretch ++ told))
        (eventLine m e :: .loop (stretch.countP fun x => x.2.pc = l.head) :: lines)

/-! ### Which loops are counted -/

/-- What a tracer keeps of the events that were written. -/
def remembered (shown : List Event) : List (UInt16 × Bool) :=
  (shown.take memoryLength).map fun e => (e.pc, isJump e)

theorem isStraight_iff {head : UInt16} {shown : List Event} :
    isStraight head (shown.map fun e => (e.pc, isJump e)) = true ↔ StraightSince head shown := by
  induction shown with
  | nil => simp [isStraight, StraightSince]
  | cons e shown ih =>
    rw [List.map_cons, isStraight]
    split
    · next hhead =>
      refine iff_of_true rfl fun newer x older h _ => ?_
      rcases newer with _ | ⟨y, newer⟩
      · obtain ⟨rfl, -⟩ := List.cons.inj h
        exact .inl hhead
      · obtain ⟨rfl, -⟩ := List.cons.inj h
        exact .inr ⟨e, List.mem_cons_self, hhead⟩
    next hhead =>
    split
    · next hjump =>
      refine iff_of_false Bool.false_ne_true fun h => ?_
      rcases h [] e shown rfl hjump with h | ⟨x, hx, -⟩
      · exact hhead h
      · cases hx
    · next hjump =>
      rw [ih]
      constructor
      · intro h newer x older hsplit hx
        rcases newer with _ | ⟨y, newer⟩
        · obtain ⟨rfl, -⟩ := List.cons.inj hsplit
          exact absurd hx hjump
        · obtain ⟨rfl, hrest⟩ := List.cons.inj hsplit
          exact (h newer x older hrest hx).imp_right fun ⟨z, hz, hpc⟩ => ⟨z, List.mem_cons_of_mem _ hz, hpc⟩
      · intro h newer x older hsplit hx
        refine (h (e :: newer) x older (congrArg (List.cons e) hsplit) hx).imp_right ?_
        rintro ⟨z, hz, hpc⟩
        rcases List.mem_cons.mp hz with rfl | hz
        · exact absurd hpc hhead
        · exact ⟨z, hz, hpc⟩

theorem closed?_eq_some_iff {history : List (UInt16 × Bool)} {e : Event} {l : Loop} :
    closed? history e = some l ↔ l.passes = 0 ∧ Closes e l ∧ isStraight l.head history = true := by
  constructor
  · intro h
    rcases e with ⟨pc, i⟩ | ⟨pc, remaining⟩
    · cases hd : i.operands with
      | offset d =>
        simp only [closed?, hd, Option.ite_none_right_eq_some, Option.some.injEq] at h
        obtain ⟨⟨hop, ⟨hlow, hhigh⟩, hstraight⟩, rfl⟩ := h
        exact ⟨rfl, ⟨i, d, rfl, hd, hop, hlow, by omega, rfl⟩, hstraight⟩
      | one x | two x y =>
        simp only [closed?, hd] at h
        cases h
    · cases h
  · rintro ⟨hpasses, ⟨i, d, rfl, hd, hop, hlow, hhigh, hhead⟩, hstraight⟩
    obtain ⟨head, last, passes⟩ := l
    obtain rfl : passes = 0 := hpasses
    obtain rfl : head = Instruction.jumpTarget last d := hhead
    have hback : ShortBack d := ⟨hlow, by omega⟩
    simp [closed?, hd, hop, hback, hstraight]

theorem opens_iff {shown : List Event} {e : Event} {l : Loop} :
    Opens shown e l ↔ Closes e l ∧ isStraight l.head (remembered shown) = true := by
  rw [Opens, remembered, isStraight_iff]

theorem not_opens_of_closed? {shown : List Event} {e : Event} (h : closed? (remembered shown) e = none) (l : Loop) :
    ¬Opens shown e l := by
  intro hopens
  have hsome : closed? (remembered shown) e = some { l with passes := 0 } :=
    closed?_eq_some_iff.mpr ⟨rfl, opens_iff.mp hopens⟩
  cases h.symm.trans hsome

/-! ### The lines of a tracer -/

/-- The lines that a tracer comes to for events and for the end of the trace. -/
def lines (t : Tracer) : List (Machine × Event) → List TraceLine
  | [] => t.loopLine?.toList
  | (m, e) :: told =>
    match t.absorb? e.pc with
    | some t => lines t told
    | none => t.loopLine?.toList ++ eventLine m e :: lines (t.record e) told

section

variable {σ : Type} (write : σ → TraceLine → Except String Unit × σ)

/-- Writes lines one after another, up to the first that is not taken. -/
def writeAll (s : σ) : List TraceLine → Except String Unit × σ
  | [] => (.ok (), s)
  | l :: rest =>
    match write s l with
    | (.error reason, s) => (.error reason, s)
    | (.ok (), s) => writeAll s rest

/-- Tells a tracer of events one after another, up to the first that it fails at, and then ends the trace. -/
def follow (t : Tracer) (s : σ) : List (Machine × Event) → Except String Unit × σ
  | [] =>
    let (result, _, s) := t.finish write s
    (result, s)
  | (m, e) :: told =>
    match t.observe write s m e with
    | (.error reason, _, s) => (.error reason, s)
    | (.ok (), t, s) => follow t s told

theorem writeAll_append (s : σ) (ls ks : List TraceLine) :
    writeAll write s (ls ++ ks) =
      match writeAll write s ls with
      | (.error reason, s) => (.error reason, s)
      | (.ok (), s) => writeAll write s ks := by
  induction ls generalizing s with
  | nil => rfl
  | cons l ls ih =>
    rw [List.cons_append, writeAll, writeAll]
    rcases write s l with ⟨reason | _, s'⟩
    · rfl
    · exact ih s'

end

/-- In a file the lines come one after another after what has been written before. -/
theorem holds_writeAll {w : FileWriter} {f : Folder} {path : String} {bytes : ByteArray} (h : w.Holds f path bytes)
    (ls : List TraceLine) :
    ∃ v g, writeAll Recorder.writeLine (w, f) ls = (.ok (), v, g) ∧
      v.Holds g path (bytes ++ (TraceLine.joined ls).toUTF8) := by
  induction ls generalizing w f bytes with
  | nil => exact ⟨w, f, rfl, by simpa [TraceLine.joined] using h⟩
  | cons l ls ih =>
    obtain ⟨v, g, hwrite, hline⟩ := h.writeLine l.pieces
    obtain ⟨u, k, hrest, hlines⟩ := ih hline
    refine ⟨u, k, ?_, ?_⟩
    · rw [writeAll, Recorder.writeLine, hwrite]
      exact hrest
    · rw [ByteArray.append_assoc, l.join_pieces] at hlines
      simpa [TraceLine.joined] using hlines

section

variable {σ : Type} (write : σ → TraceLine → Except String Unit × σ)

theorem leaveLoop_eq (t : Tracer) (s : σ) :
    t.leaveLoop write s =
      match writeAll write s t.loopLine?.toList with
      | (.error reason, s) => (.error reason, t, s)
      | (.ok (), s) => (.ok (), { t with loop := none }, s) := by
  rw [leaveLoop]
  rcases t with ⟨history, _ | l⟩
  · rfl
  · simp only [loopLine?, Option.map_some, Option.toList_some, writeAll]
    rcases write s (.loop l.passes) with ⟨reason | _, s'⟩ <;> rfl

theorem follow_eq_writeAll (t : Tracer) (s : σ) (told : List (Machine × Event)) :
    follow write t s told = writeAll write s (lines t told) := by
  induction told generalizing t s with
  | nil =>
    rw [follow, finish, leaveLoop_eq, lines]
    rcases writeAll write s t.loopLine?.toList with ⟨reason | _, s'⟩ <;> rfl
  | cons x told ih =>
    obtain ⟨m, e⟩ := x
    rw [follow, observe, lines]
    cases t.absorb? e.pc with
    | some t' => exact ih t' s
    | none =>
      simp only [leaveLoop_eq, writeAll_append]
      rcases writeAll write s t.loopLine?.toList with ⟨reason | _, s'⟩
      · rfl
      · simp only [writeAll]
        -- `record` sets both fields, so that the loop was given up before makes no difference
        rcases write s' (eventLine m e) with ⟨reason | _, s''⟩
        · rfl
        · exact ih (t.record e) s''

end

/-! ### The lines are those of the events -/

section

variable {t : Tracer} {shown : List Event} {l : Loop}

theorem absorb?_of_loop_none (h : t.loop = none) (a : UInt16) : t.absorb? a = none := by
  rw [absorb?, h, Option.bind_none]

theorem absorb?_of_loop_some (h : t.loop = some l) (a : UInt16) : t.absorb? a =
    if l.Contains a then some { t with loop := some { l with passes := l.passes + if a = l.head then 1 else 0 } }
    else none := by
  rw [absorb?, h, Option.bind_some]
  by_cases hhead : a = l.head
  · simp [hhead, Loop.Contains]
  · simp only [hhead, if_false, Loop.Contains, false_or, Nat.add_zero, ← h]

theorem remembered_record (h : t.history = remembered shown) (e : Event) :
    (t.record e).history = remembered (e :: shown) := by
  simp [record, h, remembered, memoryLength, List.map_take, List.take_take]

/-- The lines of what follows while a loop is being counted. -/
def Resumes (shown : List Event) (l : Loop) (told : List (Machine × Event)) (lines : List TraceLine) : Prop :=
  ∃ stretch rest after, told = stretch ++ rest ∧ (∀ x ∈ stretch, l.Contains x.2.pc) ∧
    (∀ x ∈ rest.head?, ¬l.Contains x.2.pc) ∧ Condenses shown rest after ∧
    lines = .loop (l.passes + stretch.countP fun x => x.2.pc = l.head) :: after

/-- An event that is written opens a loop that is then counted, or none. -/
theorem condenses_record {told : List (Machine × Event)} (m : Machine) (e : Event) (h : t.history = remembered shown)
    (hnone : ∀ {t : Tracer}, t.history = remembered (e :: shown) → t.loop = none →
      Condenses (e :: shown) told (lines t told))
    (hsome : ∀ {t : Tracer} {l}, t.history = remembered (e :: shown) → t.loop = some l →
      Resumes (e :: shown) l told (lines t told)) :
    Condenses shown ((m, e) :: told) (eventLine m e :: lines (t.record e) told) := by
  have hloop : (t.record e).loop = closed? (remembered shown) e := by rw [record, h]
  cases hclosed : closed? (remembered shown) e with
  | none => exact .line (not_opens_of_closed? hclosed) (hnone (remembered_record h e) (hloop.trans hclosed))
  | some l =>
    obtain ⟨hpasses, hopens⟩ := closed?_eq_some_iff.mp hclosed
    obtain ⟨stretch, rest, after, rfl, hin, hout, hafter, hlines⟩ :=
      hsome (remembered_record h e) (hloop.trans hclosed)
    rw [hlines, hpasses, Nat.zero_add]
    exact .loop (opens_iff.mpr hopens) hin hout hafter

/-- By induction on the events, both while no loop is counted and while one is. -/
theorem condenses_lines (told : List (Machine × Event)) :
    (∀ {t : Tracer} {shown}, t.history = remembered shown → t.loop = none → Condenses shown told (lines t told)) ∧
    ∀ {t : Tracer} {shown l}, t.history = remembered shown → t.loop = some l →
      Resumes shown l told (lines t told) := by
  induction told with
  | nil =>
    refine ⟨fun {t shown} _ hloop => ?_, fun {t shown l} _ hloop => ⟨[], [], [], rfl, by simp, by simp, .nil shown, ?_⟩⟩
    · rw [lines, loopLine?, hloop]
      exact .nil shown
    · rw [lines, loopLine?, hloop]
      rfl
  | cons x told ih =>
    obtain ⟨m, e⟩ := x
    obtain ⟨ihnone, ihsome⟩ := ih
    refine ⟨fun {t shown} hhistory hloop => ?_, fun {t shown l} hhistory hloop => ?_⟩
    · rw [lines, absorb?_of_loop_none hloop]
      simp only [loopLine?, hloop, Option.map_none, Option.toList_none, List.nil_append]
      exact condenses_record m e hhistory ihnone ihsome
    · rw [lines, absorb?_of_loop_some hloop]
      by_cases hin : l.Contains e.pc
      · obtain ⟨stretch, rest, after, rfl, hstretch, hout, hafter, hlines⟩ := ihsome
          (t := { t with loop := some { l with passes := l.passes + if e.pc = l.head then 1 else 0 } }) hhistory rfl
        refine ⟨(m, e) :: stretch, rest, after, rfl, ?_, hout, hafter, ?_⟩
        · exact List.forall_mem_cons.mpr ⟨hin, hstretch⟩
        · simp only [if_pos hin, hlines, List.countP_cons, decide_eq_true_eq]
          congr 2
          omega
      · refine ⟨[], (m, e) :: told, _, rfl, by simp, ?_, condenses_record m e hhistory ihnone ihsome, ?_⟩
        · simpa using hin
        · simp only [if_neg hin, loopLine?, hloop]
          rfl

end

/-- A tracer that is told of events writes their lines in order, as long as they are taken. A file without a limit
    takes them all, and then has their texts in it. -/
theorem follow_condenses {σ : Type} (write : σ → TraceLine → Except String Unit × σ) (s : σ)
    (told : List (Machine × Event)) :
    ∃ ls, Condenses [] told ls ∧ follow write {} s told = writeAll write s ls ∧
      (∀ line ∈ ls, line.text.toList.head? = some '<' → ∃ passes, line = .loop passes) ∧
      ∀ (w : FileWriter) (f : Folder) (path : String) (bytes : ByteArray), w.Holds f path bytes →
        ∃ v g, follow Recorder.writeLine {} (w, f) told = (.ok (), v, g) ∧
          v.Holds g path (bytes ++ (TraceLine.joined ls).toUTF8) := by
  refine ⟨lines {} told, (condenses_lines told).1 rfl rfl, follow_eq_writeAll write {} s told,
    fun _ _ => TraceLine.exists_eq_loop, fun w f path bytes h => ?_⟩
  rw [follow_eq_writeAll]
  exact holds_writeAll h _

end Tracer
end MicroDebug

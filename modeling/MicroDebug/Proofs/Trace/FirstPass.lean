import MicroDebug.Proofs.Processor.Calls
import MicroDebug.Proofs.Trace.Condensing
import Mathlib.Data.List.Infix

/-! What a trace does not show again. While a loop is counted the instructions in it have no lines, and each of them
    had one before, if the head of the loop did and the loop is run through in one way. A loop is also counted when
    its head has not been seen at all, as in a trace that starts in the middle of the loop. -/

namespace MicroDebug

namespace TraceLine

def pc? : TraceLine → Option UInt16
  | event pc _ => some pc
  | loop _ => none

end TraceLine

namespace Tracer

/-! ### Events one after another -/

/-- The tracer after events that it was told of, if its lines were taken. -/
def after (t : Tracer) (told : List (Machine × Event)) : Tracer :=
  told.foldl (fun t x => (t.absorb? x.2.pc).getD (t.record x.2)) t

/-- The addresses of the events that have lines of their own. -/
def shown (t : Tracer) (told : List (Machine × Event)) : List UInt16 := (lines t told).filterMap TraceLine.pc?

theorem observe_eq_after {σ : Type} {write : σ → TraceLine → Except String Unit × σ} {t t' : Tracer} {s s' : σ}
    {m : Machine} {e : Event} (h : t.observe write s m e = (.ok (), t', s')) : t' = after t [(m, e)] := by
  simp only [observe] at h
  simp only [after, List.foldl_cons, List.foldl_nil]
  cases habsorb : t.absorb? e.pc with
  | some u =>
    rw [habsorb] at h
    cases h
    rfl
  | none =>
    simp only [habsorb, leaveLoop_eq] at h
    rcases hline : writeAll write s t.loopLine?.toList with ⟨reason | _, s₁⟩
    · simp only [hline] at h
      cases h
    · simp only [hline, Prod.mk.injEq] at h
      exact h.2.1.symm

theorem filterMap_pc?_loopLine (t : Tracer) : t.loopLine?.toList.filterMap TraceLine.pc? = [] := by
  rw [loopLine?]
  cases t.loop <;> rfl

section

variable (t : Tracer) (told : List (Machine × Event)) (x : Machine × Event)

theorem after_concat :
    after t (told ++ [x]) = ((after t told).absorb? x.2.pc).getD ((after t told).record x.2) := by
  simp only [after, List.foldl_append, List.foldl_cons, List.foldl_nil]

theorem shown_concat :
    shown t (told ++ [x]) = shown t told ++ if ((after t told).absorb? x.2.pc).isSome then [] else [x.2.pc] := by
  induction told generalizing t with
  | nil =>
    obtain ⟨m, e⟩ := x
    rw [shown, shown, List.nil_append, lines, lines, after, List.foldl_nil]
    cases t.absorb? e.pc with
    | some u => simp only [lines, filterMap_pc?_loopLine, Option.isSome_some, if_true, List.append_nil]
    | none => simp [filterMap_pc?_loopLine, lines, TraceLine.pc?, eventLine]
  | cons y told ih =>
    obtain ⟨m, e⟩ := y
    rw [shown, shown, List.cons_append, lines, lines, after, List.foldl_cons]
    cases t.absorb? e.pc with
    | some u => exact ih u
    | none =>
      simp only [List.filterMap_append, List.filterMap_cons, TraceLine.pc?, eventLine, List.append_assoc,
        List.cons_append]
      exact congrArg _ (congrArg _ (ih (t.record e)))

variable {t told}

theorem mem_shown_concat {a : UInt16} (h : a ∈ shown t told) : a ∈ shown t (told ++ [x]) := by
  rw [shown_concat]
  exact List.mem_append_left _ h

theorem exists_of_mem_shown {a : UInt16} (h : a ∈ shown t told) : ∃ x ∈ told, x.2.pc = a := by
  induction told using List.reverseRecOn with
  | nil =>
    rw [shown, lines, filterMap_pc?_loopLine] at h
    cases h
  | append_singleton told x ih =>
    rw [shown_concat, List.mem_append] at h
    rcases h with h | h
    · obtain ⟨y, hy, hpc⟩ := ih h
      exact ⟨y, List.mem_append_left _ hy, hpc⟩
    · split at h
      · cases h
      · exact ⟨x, by simp, (List.mem_singleton.mp h).symm⟩

end

theorem absorb?_eq_some {t u : Tracer} {a : UInt16} (h : t.absorb? a = some u) :
    ∃ l, t.loop = some l ∧ l.Contains a ∧
      u.loop = some { l with passes := l.passes + if a = l.head then 1 else 0 } := by
  cases hloop : t.loop with
  | none => cases (absorb?_of_loop_none hloop a).symm.trans h
  | some l =>
    rw [absorb?_of_loop_some hloop, Option.ite_none_right_eq_some] at h
    obtain ⟨hin, hu⟩ := h
    cases hu
    exact ⟨l, rfl, hin, rfl⟩

/-- A loop that is counted after an event was closed by it, or was counted before and has the event in it. -/
theorem closes_or_contains {t : Tracer} {told : List (Machine × Event)} {x : Machine × Event} {l : Loop}
    (h : (after t (told ++ [x])).loop = some l) :
    Closes x.2 l ∨ ∃ k, (after t told).loop = some k ∧ k.head = l.head ∧ k.last = l.last ∧ l.Contains x.2.pc ∧
      shown t (told ++ [x]) = shown t told := by
  rw [after_concat] at h
  cases habsorb : (after t told).absorb? x.2.pc with
  | none =>
    rw [habsorb, Option.getD_none, record] at h
    exact .inl (closed?_eq_some_iff.mp h).2.1
  | some u =>
    rw [habsorb, Option.getD_some] at h
    obtain ⟨k, hk, hin, hu⟩ := absorb?_eq_some habsorb
    cases hu.symm.trans h
    refine .inr ⟨k, hk, rfl, rfl, hin, ?_⟩
    rw [shown_concat, habsorb, Option.isSome_some, if_pos rfl, List.append_nil]

theorem exists_closes {told : List (Machine × Event)} {l : Loop} (h : (after {} told).loop = some l) :
    ∃ x ∈ told, Closes x.2 l := by
  induction told using List.reverseRecOn generalizing l with
  | nil => cases h
  | append_singleton told x ih =>
    rcases closes_or_contains h with hcloses | ⟨k, hk, hhead, hlast, -, -⟩
    · exact ⟨x, by simp, hcloses⟩
    · obtain ⟨y, hy, hcloses⟩ := ih hk
      rw [Closes, hhead, hlast] at hcloses
      exact ⟨y, List.mem_append_left _ hy, hcloses⟩

end Tracer

/-! ### Where instructions lead -/

namespace Processor

theorem Fetched.pc_event (f : Fetched) : f.event.pc = f.pc := by
  rw [event]
  split <;> rfl

/-- A jump leads to its target or past its word, also when it runs a whole loop. -/
theorem Fetched.pc_settle_of_offset {p : Processor} {f : Fetched} {m : Machine} (hf : p.Fetches f)
    (hm : f.effect = some m) {d : Int16} (hd : f.instruction.operands = .offset d) :
    (f.settle m).pc = f.pc + d.toUInt16 ∨ (f.settle m).pc = f.pc + 2 := by
  obtain ⟨cond, hop⟩ : ∃ cond, f.instruction.operation = .jump cond := by
    have hsuits := Instruction.suits_of_decode hf.decode
    rw [hd] at hsuits
    cases hop : f.instruction.operation with
    | jump cond => exact ⟨cond, rfl⟩
    | unary op | binary op => rw [hop] at hsuits; exact absurd hsuits id
  have hnext : f.next = f.pc + 2 := by
    obtain ⟨-, -, -, hread⟩ := Instruction.decode_eq_ok_iff_read.mp hf.decode
    rw [hop] at hread
    rw [next, show f.instruction.size = 2 from (congrArg Prod.snd hread).symm]
  have hwritten : f.written? = none ∨ f.written? = some (f.pc + d.toUInt16) := by
    rw [written?]
    split
    · exact .inl rfl
    · simp only [Machine.written?, hop, hd]
      split
      · rw [hf.past, UInt16.add_sub_cancel]
        exact .inr rfl
      · exact .inl rfl
  rw [pc_settle, hnext, pc_effect hf hm]
  rcases hwritten with h | h
  · rw [h, Option.getD_none, if_pos rfl]
    exact .inr rfl
  · rw [h, Option.getD_some]
    split
    · exact .inr rfl
    · exact .inl rfl

/-- What a tracer is told of an instruction that is executed. -/
def Executed.told (x : Executed) : Machine × Event := (x.fetched.processor.toMachine, x.fetched.event)

theorem Executed.pc_told (x : Executed) : x.told.2.pc = x.fetched.pc := x.fetched.pc_event

end Processor

/-! ### Loops that are counted -/

/-- A loop is run through in one way: what is at an address in it leads to one address, and the instruction that
    closes it is the same each time. -/
structure Loop.Steady (l : Loop) (xs : List Processor.Executed) : Prop where
  way : ∀ x ∈ xs, ∀ y ∈ xs, l.Contains x.fetched.pc → x.fetched.pc ≠ l.last → y.fetched.pc = x.fetched.pc →
    y.next = x.next
  jump : ∀ x ∈ xs, ∀ y ∈ xs, x.fetched.pc = l.last → y.fetched.pc = l.last →
    y.fetched.instruction = x.fetched.instruction

instance (l : Loop) (xs : List Processor.Executed) : Decidable (l.Steady xs) :=
  decidable_of_iff (_ ∧ _) ⟨fun h => ⟨h.1, h.2⟩, fun h => ⟨h.way, h.jump⟩⟩

/-- What the jump that closes a loop leads to is the head of the loop, if it is in the loop. -/
theorem Loop.eq_head_of_contains {l : Loop} {a : UInt16} {d : Int16} (hlow : -32 ≤ d.toInt) (hhigh : d.toInt ≤ -1)
    (hhead : l.head = l.last + d.toUInt16) (ha : a = l.last + d.toUInt16 ∨ a = l.last + 2) (hin : l.Contains a) :
    a = l.head := by
  rcases ha with ha | ha
  · exact ha.trans hhead.symm
  · have hd : (d.toUInt16.toNat : Int) = 65536 + d.toInt := by
      have h := BitVec.toInt_eq_toNat_cond d.toBitVec
      change d.toInt = _ at h
      change ((d.toBitVec.toNat : Nat) : Int) = _
      split at h <;> omega
    have hlast := l.last.toNat_lt
    rw [Contains, UInt16.lt_iff_toNat_lt, UInt16.le_iff_toNat_le, ← UInt16.toNat_inj, hhead, ha] at hin
    rw [ha, hhead, ← UInt16.toNat_inj]
    simp only [UInt16.toNat_add, UInt16.reduceToNat] at hin ⊢
    omega

theorem exists_next_of_isChain {α : Type} {R : α → α → Prop} {xs : List α} {y z : α} (h : (xs ++ [y]).IsChain R)
    (hz : z ∈ xs) : ∃ w ∈ xs ++ [y], R z w := by
  obtain ⟨before, rest, rfl⟩ := List.append_of_mem hz
  rw [List.append_assoc] at h
  obtain ⟨w, ws, hws⟩ := List.exists_cons_of_ne_nil (show rest ++ [y] ≠ [] by simp)
  have hnext := h.right_of_append
  rw [List.cons_append, hws] at hnext
  exact ⟨w, by simp [hws], (List.isChain_cons_cons.mp hnext).1⟩

namespace Processor

open Tracer

theorem Executed.exists_offset {x : Executed} {l : Loop} (h : Closes x.told.2 l) :
    x.fetched.pc = l.last ∧ ∃ d, x.fetched.instruction.operands = .offset d ∧ -32 ≤ d.toInt ∧ d.toInt ≤ -1 ∧
      l.head = l.last + d.toUInt16 := by
  obtain ⟨i, d, he, hd, -, hlow, hhigh, hhead⟩ := h
  rw [told, Fetched.event] at he
  split at he
  · cases he
  · obtain ⟨hpc, rfl⟩ := Event.execute.inj he
    exact ⟨hpc, d, hd, hlow, hhigh, hhead⟩

section

variable {n : Nat} {p : Processor} {c : Console}

theorem pc_eq_head {xs : List Executed} {y : Executed} {l : Loop} (hxs : xs ⊆ executions n p c)
    (hl : (after {} (xs.map Executed.told)).loop = some l) (hsteady : l.Steady xs) (hy : y ∈ xs)
    (hlast : y.fetched.pc = l.last) (hin : l.Contains y.next) : y.next = l.head := by
  obtain ⟨e, he, hcloses⟩ := exists_closes hl
  obtain ⟨z, hz, rfl⟩ := List.mem_map.mp he
  obtain ⟨hzlast, d, hd, hlow, hhigh, hhead⟩ := Executed.exists_offset hcloses
  rw [← hsteady.jump z hz y hy hzlast hlast] at hd
  obtain ⟨q, m, hq, hm, hnext⟩ := of_mem_executions (hxs hy)
  have ha := Fetched.pc_settle_of_offset hq hm hd
  rw [← hnext, hlast] at ha
  exact Loop.eq_head_of_contains hlow hhigh hhead ha hin

/-- An instruction that is not written after others has the address of one that was, if each of those has. -/
theorem mem_shown_of_absorbed {past : List Executed} {x : Executed} (hxs : past ++ [x] <+: executions n p c)
    (hhead : ∀ l ∈ (after {} (past.map Executed.told)).loop, l.head ∈ shown {} (past.map Executed.told))
    (hsteady : ∀ l ∈ (after {} (past.map Executed.told)).loop, l.Steady past)
    (hpast : ∀ y ∈ past, y.fetched.pc ∈ shown {} (past.map Executed.told))
    (hx : ((after {} (past.map Executed.told)).absorb? x.fetched.pc).isSome) :
    x.fetched.pc ∈ shown {} (past.map Executed.told) := by
  obtain ⟨u, hu⟩ := Option.isSome_iff_exists.mp hx
  obtain ⟨l, hl, hin, -⟩ := absorb?_eq_some hu
  rcases List.eq_nil_or_concat' past with rfl | ⟨before, y, rfl⟩
  · cases hl
  have hchain : (before ++ [y] ++ [x]).IsChain fun x y => y.fetched.pc = x.next := by
    obtain ⟨rest, hrest⟩ := hxs
    exact (hrest ▸ isChain_executions n p c).left_of_append
  have hyx : x.fetched.pc = y.next := by
    rw [List.append_assoc] at hchain
    exact (List.isChain_cons_cons.mp hchain.right_of_append).1
  by_cases hlast : y.fetched.pc = l.last
  · have hsub : before ++ [y] ⊆ executions n p c := (List.prefix_append _ _).trans hxs |>.subset
    rw [hyx] at hin ⊢
    rw [pc_eq_head hsub hl (hsteady l hl) (by simp) hlast hin]
    exact hhead l hl
  · -- the one before was in the loop and is not its first time there, so it led to the same address then
    obtain ⟨hy, hyshown⟩ : l.Contains y.fetched.pc ∧ y.fetched.pc ∈ shown {} (before.map Executed.told) := by
      have hyshown := hpast y (by simp)
      rw [List.map_append, List.map_cons, List.map_nil] at hl hyshown
      rcases closes_or_contains hl with hcloses | ⟨k, -, -, -, hy, hsame⟩
      · exact absurd (Executed.exists_offset hcloses).1 hlast
      · exact ⟨Executed.pc_told y ▸ hy, hsame ▸ hyshown⟩
    obtain ⟨e, he, hzy⟩ := exists_of_mem_shown hyshown
    obtain ⟨z, hz, rfl⟩ := List.mem_map.mp he
    rw [Executed.pc_told] at hzy
    -- what came after that time is what comes now
    obtain ⟨w, hw, hwz⟩ := exists_next_of_isChain hchain.left_of_append hz
    rw [hyx, ← (hsteady l hl).way y (by simp) z (List.mem_append_left _ hz) hy hlast hzy, ← hwz]
    exact hpast w hw

/-- An instruction that is not written has the address of one that was, if the heads of loops that are counted had
    lines and such loops are run through in one way. -/
theorem shown_of_absorbed
    (hhead : ∀ past, past <+: executions n p c → ∀ l ∈ (after {} (past.map Executed.told)).loop,
      l.head ∈ shown {} (past.map Executed.told))
    (hsteady : ∀ past, past <+: executions n p c → ∀ l ∈ (after {} (past.map Executed.told)).loop, l.Steady past)
    {past : List Executed} {x : Executed} (hxs : past ++ [x] <+: executions n p c)
    (hx : ((after {} (past.map Executed.told)).absorb? x.fetched.pc).isSome) :
    x.fetched.pc ∈ shown {} (past.map Executed.told) := by
  have hpasts : past <+: executions n p c := (List.prefix_append _ _).trans hxs
  refine mem_shown_of_absorbed hxs (hhead past hpasts) (hsteady past hpasts) ?_ hx
  clear hx hxs x
  -- all that was executed before has been shown: each was written then, or the lemma applies to it in its turn
  induction past using List.reverseRecOn with
  | nil => exact List.forall_mem_nil _
  | append_singleton past x ih =>
    have hpast : past <+: executions n p c := (List.prefix_append _ _).trans hpasts
    intro y hy
    rw [List.map_append, List.map_cons, List.map_nil]
    rcases List.mem_append.mp hy with hy | hy
    · exact mem_shown_concat _ (ih hpast y hy)
    · obtain rfl := List.mem_singleton.mp hy
      by_cases habsorb : ((after {} (past.map Executed.told)).absorb? y.fetched.pc).isSome
      · exact mem_shown_concat _
          (mem_shown_of_absorbed hpasts (hhead past hpast) (hsteady past hpast) (ih hpast) habsorb)
      · rw [shown_concat, Executed.pc_told, if_neg habsorb]
        simp

end

/-- `sub #1, r5` and a jump back to it, up to the second pass. -/
theorem shown_of_absorbed_once :
    let p : Processor := { start (Memory.zero.writeWords 0x4400 [0x8315, 0x23fe]) with
      registers := (Registers.zero.setPc 0x4400).set 5 3 }
    let xs := executions 3 p {}
    (∀ past, past <+: xs → ∀ l ∈ (after {} (past.map Executed.told)).loop,
        l.head ∈ shown {} (past.map Executed.told)) ∧
      (∀ past, past <+: xs → ∀ l ∈ (after {} (past.map Executed.told)).loop, l.Steady past) ∧
      ∃ past x, past ++ [x] = xs ∧ ((after {} (past.map Executed.told)).absorb? x.fetched.pc).isSome ∧
        x.fetched.pc ∈ shown {} (past.map Executed.told) := by
  intro p xs
  have hloops : ∀ past ∈ xs.inits, ∀ l ∈ (after {} (past.map Executed.told)).loop,
      l.head ∈ shown {} (past.map Executed.told) ∧ l.Steady past := by
    decide +kernel
  have hhead : ∀ past, past <+: xs → ∀ l ∈ (after {} (past.map Executed.told)).loop,
      l.head ∈ shown {} (past.map Executed.told) := fun past h l hl => (hloops past ((List.mem_inits _ _).mpr h) l hl).1
  have hsteady : ∀ past, past <+: xs → ∀ l ∈ (after {} (past.map Executed.told)).loop, l.Steady past :=
    fun past h l hl => (hloops past ((List.mem_inits _ _).mpr h) l hl).2
  obtain ⟨x, hlast, hx⟩ : ∃ x, xs.getLast? = some x ∧
      ((after {} (xs.dropLast.map Executed.told)).absorb? x.fetched.pc).isSome = true :=
    (Option.any_eq_true _ _).mp (by decide +kernel)
  have hxs : xs.dropLast ++ [x] = xs := List.dropLast_append_getLast? x hlast
  have hall : xs.dropLast ++ [x] <+: xs := ⟨[], (List.append_nil _).trans hxs⟩
  exact ⟨hhead, hsteady, xs.dropLast, x, hxs, hx, shown_of_absorbed hhead hsteady hall hx⟩

/-- Of the same loop, come to at its jump, the head is executed and not written. So is `nop` in a loop whose head is
    `jz $+4` past it, when the jump is not taken in the second pass. -/
theorem not_shown_of_absorbed :
    let p : Processor := { start (Memory.zero.writeWords 0x4400 [0x8315, 0x23fe]) with
      registers := (Registers.zero.setPc 0x4402).set 5 2 }
    let q : Processor := { start (Memory.zero.writeWords 0x4400 [0x2401, 0x4303, 0x8315, 0x23fc]) with
      registers := (((Registers.zero.setPc 0x4400).set 5 3).setFlag .zero true) }
    (executions 2 p {}).map (·.fetched.pc) = [0x4402, 0x4400] ∧
      shown {} ((executions 2 p {}).map Executed.told) = [0x4402] ∧
      (executions 5 q {}).map (·.fetched.pc) = [0x4400, 0x4404, 0x4406, 0x4400, 0x4402] ∧
      shown {} ((executions 5 q {}).map Executed.told) = [0x4400, 0x4404, 0x4406] := by
  decide +kernel

end Processor
end MicroDebug

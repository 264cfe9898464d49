import MicroDebug.Proofs.Host.InputText
import MicroDebug.Proofs.Processor.GateCalls
import Mathlib.Data.List.TakeWhile

/-! A line of input lands where the program has asked for it. Lines that make no sense are refused one by one, each
    after a request of its own, and the first other answer settles the whole: its bytes are stored in a row, across the
    end of memory if need be, or nothing is stored. -/

namespace MicroDebug

/-! ### Requests -/

/-- The host after it has been shown more, with the answers that are left. -/
def Console.later (c : Console) (shown : List Shown) (replies : List Reply) : Console :=
  { c with replies, shown := c.shown ++ shown.toArray }

theorem Console.later_nil (c : Console) : c.later [] c.replies = c := by
  simp [later]

theorem Console.later_later (c : Console) (xs ys : List Shown) (rs ss : List Reply) :
    (c.later xs rs).later ys ss = c.later (xs ++ ys) ss := by
  simp [later]

/-- What typing an answer shows. -/
def Reply.typed (r : Reply) : List Shown := if r.echo.isEmpty then [] else [.echo r.echo]

theorem Console.take_append {c : Console} {r : Reply} {rest : List Reply} (h : c.replies = r :: rest) (x : Shown) :
    (c.append x).take = (r.answer, c.later (x :: r.typed) rest) := by
  have hreplies : (c.append x).replies = r :: rest := h
  unfold take Reply.typed
  simp only [hreplies]
  split <;> simp [append, later, ← Array.toList_inj]

namespace Gate

/-- The answer is a line that makes no sense in the mode. -/
def Refused (mode : InputMode) : Answer → Prop
  | .line line => mode = .hex ∧ InputText.Malformed line
  | _ => False

instance (mode : InputMode) (answer : Answer) : Decidable (Refused mode answer) :=
  match answer with
  | .line line => inferInstanceAs (Decidable (mode = .hex ∧ InputText.Malformed line))
  | .ended | .cancelled | .failed _ | .unreadable => inferInstanceAs (Decidable False)

/-- What the host is shown when it is asked for an answer and gives it. -/
def asked (mode : InputMode) (limit : UInt16) (r : Reply) : List Shown :=
  .request (requestText mode limit) :: r.typed

/-- What the host is shown about an answer that is refused. -/
def complaints : Answer → List Shown
  | .line line => [.notice (InputText.complaint line).message]
  | _ => []

/-- What the host is shown for an answer that is refused: a request and a notice. -/
def refusal (mode : InputMode) (limit : UInt16) (r : Reply) : List Shown :=
  asked mode limit r ++ complaints r.answer

variable {mode : InputMode} {limit : UInt16} {c : Console} {r : Reply} {rest : List Reply}

theorem ask_of_nil (h : c.replies = []) :
    ask mode limit c =
      (.error .endOfInput,
        { c.later [.request (requestText mode limit)] [] with exhausted := some (c.shown.size + 1) }) := by
  simp [ask, askFrom, h, Console.take, Console.append, Console.later]

theorem ask_of_cancelled (h : c.replies = r :: rest) (hanswer : r.answer = .cancelled) :
    ask mode limit c = (.error .cancelled, c.later (asked mode limit r) rest) := by
  rw [ask, h, askFrom, Console.take_append h, hanswer]
  rfl

theorem ask_of_line {line : String} {stored : List UInt8} (h : c.replies = r :: rest)
    (hanswer : r.answer = .line line) (hbytes : InputText.bytes mode limit line = .ok stored) :
    ask mode limit c = (.ok stored, c.later (asked mode limit r) rest) := by
  rw [ask, h, askFrom, Console.take_append h, hanswer]
  simp only [hbytes]
  rfl

/-- A refused answer costs a request and a notice, and the host is asked again. -/
theorem ask_of_refused (hnotice : ∀ n, c.noticeFailure n = none) (h : c.replies = r :: rest)
    (hr : Refused mode r.answer) : ask mode limit c = ask mode limit (c.later (refusal mode limit r) rest) := by
  cases hanswer : r.answer with
  | ended | cancelled | failed reason | unreadable =>
    rw [hanswer] at hr
    exact hr.elim
  | line line =>
    rw [hanswer] at hr
    obtain ⟨rfl, hmalformed⟩ := hr
    have hbytes : InputText.bytes .hex limit line = .error (InputText.complaint line) := by
      rcases InputText.bytes_cases .hex limit line with ⟨-, -, hbytes⟩ | ⟨hread, -⟩
      · exact hbytes
      · exact absurd ⟨rfl, hmalformed⟩ hread
    have hnotify : ∀ text, (c.later (.request (requestText .hex limit) :: r.typed) rest).notify text =
        (.ok (), (c.later (.request (requestText .hex limit) :: r.typed) rest).append (.notice text)) := by
      intro text
      rw [Console.notify]
      split
      · next reason hfailure => cases (hnotice _).symm.trans hfailure
      · rfl
    have hshown : (c.later (asked .hex limit r) rest).append (.notice (InputText.complaint line).message) =
        c.later (refusal .hex limit r) rest := by
      rw [refusal, hanswer, complaints]
      simp [Console.append, Console.later]
    rw [ask, h, askFrom, Console.take_append h, hanswer]
    simp only [hbytes, hnotify]
    rw [← asked, hshown]
    rfl

theorem ask_of_all_refused (hnotice : ∀ n, c.noticeFailure n = none) {skipped : List Reply}
    (h : c.replies = skipped ++ rest) (hskipped : ∀ r ∈ skipped, Refused mode r.answer) :
    ask mode limit c = ask mode limit (c.later (skipped.flatMap (refusal mode limit)) rest) := by
  induction skipped generalizing c with
  | nil =>
    obtain rfl : c.replies = rest := h
    rw [List.flatMap_nil, Console.later_nil]
  | cons r skipped ih =>
    rw [List.forall_mem_cons] at hskipped
    have hrest := ih (c := c.later (refusal mode limit r) (skipped ++ rest)) hnotice rfl hskipped.2
    rw [Console.later_later] at hrest
    exact (ask_of_refused hnotice h hskipped.1).trans hrest

theorem not_refused_of_dropWhile {replies : List Reply}
    (h : replies.dropWhile (Refused mode ·.answer) = r :: rest) : ¬Refused mode r.answer := by
  have hhead := List.head_dropWhile_not (fun r : Reply => decide (Refused mode r.answer)) (l := replies) (by simp [h])
  simpa [h] using hhead

/-- A program that asks for a line is served the first answer that is not refused. Each refused line before it costs
    a request and a notice and stores nothing. A line is stored from the address that the program gives on, as many
    bytes of it as the program wants, and nothing else changes. Memory is as it was if the request is cancelled or if
    there are no answers left. -/
theorem fulfil_readLine {p : Processor} {c : Console} (hnotice : ∀ n, c.noticeFailure n = none)
    (hreplies : ∀ r ∈ c.replies, (∃ line, r.answer = .line line) ∨ r.answer = .cancelled) :
    let target := p.memory.readWord (p.registers.sp + 8)
    let limit := p.memory.readWord (p.registers.sp + 10)
    let skipped := c.replies.takeWhile (Refused p.inputMode ·.answer)
    let told := skipped.flatMap (refusal p.inputMode limit)
    match c.replies.dropWhile (Refused p.inputMode ·.answer) with
    | [] => ∃ exhausted, fulfil p c .readLine =
        (.error { reason := .endOfInput, processor := p },
          { c.later (told ++ [.request (requestText p.inputMode limit)]) [] with exhausted })
    | r :: rest => ∃ result,
        fulfil p c .readLine = (result, c.later (told ++ asked p.inputMode limit r) rest) ∧
        ((r.answer = .cancelled ∧ result = .error { reason := .cancelled, processor := p }) ∨
          ∃ line stored m, r.answer = .line line ∧ InputText.Stores p.inputMode limit line stored ∧
            p.memory.Lands target stored m ∧
            result = .ok { processor := p.setMemory m, readInput := true }) := by
  intro target limit skipped told
  have hsplit : c.replies = skipped ++ c.replies.dropWhile (Refused p.inputMode ·.answer) :=
    List.takeWhile_append_dropWhile.symm
  have hskipped : ∀ r ∈ skipped, Refused p.inputMode r.answer := fun r hr => by
    simpa using List.mem_takeWhile_imp hr
  have hask : ask p.inputMode limit c = _ := ask_of_all_refused hnotice hsplit hskipped
  split
  · next hrest =>
    rw [hrest, ask_of_nil (c := c.later told []) rfl] at hask
    refine ⟨some ((c.later told []).shown.size + 1), ?_⟩
    simp only [fulfil]
    rw [hask]
    simp [Console.later, told]
  · next r rest hrest =>
    have hread := not_refused_of_dropWhile hrest
    rw [hrest] at hask hsplit
    rcases hreplies r (hsplit ▸ List.mem_append_right _ List.mem_cons_self) with ⟨line, hanswer⟩ | hanswer
    · rw [hanswer] at hread
      rcases InputText.bytes_cases p.inputMode limit line with ⟨hhex, hmalformed, -⟩ | ⟨-, stored, hbytes, hstores⟩
      · exact absurd ⟨hhex, hmalformed⟩ hread
      · rw [ask_of_line (c := c.later told (r :: rest)) rfl hanswer hbytes, Console.later_later] at hask
        refine ⟨_, ?_, .inr ⟨line, stored, p.memory.writeBytes target stored, hanswer, hstores,
          p.memory.lands_writeBytes target hstores.length_le, rfl⟩⟩
        simp only [fulfil]
        rw [hask]
    · rw [ask_of_cancelled (c := c.later told (r :: rest)) rfl hanswer, Console.later_later] at hask
      refine ⟨_, ?_, .inl ⟨hanswer, rfl⟩⟩
      simp only [fulfil]
      rw [hask]

/-- Two lines are refused, and the third is cut to the bytes that are wanted, which lie across the end of memory. -/
theorem fulfil_readLine_hex :
    let p := { Processor.start (Memory.zero.writeWords 8 [0xffff, 2]) with inputMode := .hex }
    let c : Console := { replies := [⟨.line "abc", ""⟩, ⟨.line "zz", "zz"⟩, ⟨.line "41 4 2 43", ""⟩, ⟨.cancelled, ""⟩] }
    let shown : List Shown :=
      [.request "(max: 2; mode: hex)> ", .notice "Hex input should have an even length.",
        .request "(max: 2; mode: hex)> ", .echo "zz", .notice "Error parsing hex input: invalid digit found in string",
        .request "(max: 2; mode: hex)> "]
    ∃ m, fulfil p c .readLine =
        (.ok { processor := p.setMemory m, readInput := true },
          { replies := [⟨.cancelled, ""⟩], shown := shown.toArray }) ∧
      m.readByte 0xffff = 0x41 ∧ m.readByte 0 = 0x42 ∧
      ∀ a, a ≠ 0xffff → a ≠ 0 → m.readByte a = p.memory.readByte a := by
  intro p c shown
  have htarget : p.memory.readWord (p.registers.sp + 8) = 0xffff := by decide
  have hlimit : p.memory.readWord (p.registers.sp + 10) = 2 := by decide
  have hskipped : c.replies.takeWhile (Refused p.inputMode ·.answer) = [⟨.line "abc", ""⟩, ⟨.line "zz", "zz"⟩] := by
    decide +kernel
  have hrest : c.replies.dropWhile (Refused p.inputMode ·.answer) =
      [⟨.line "41 4 2 43", ""⟩, ⟨.cancelled, ""⟩] := by
    decide +kernel
  have hqueue : ∀ r ∈ c.replies, (∃ line, r.answer = .line line) ∨ r.answer = .cancelled := by
    simp [c]
  have h := fulfil_readLine (p := p) (c := c) (fun _ => rfl) hqueue
  simp only [hrest, hskipped, htarget, hlimit] at h
  obtain ⟨result, hfulfil, ⟨hcancelled, -⟩ | ⟨line, stored, m, hline, hstores, hlands, rfl⟩⟩ := h
  · cases hcancelled
  · cases hline
    obtain ⟨bytes, hwrites, rfl⟩ := hstores
    have hbytes : bytes = [0x41, 0x42, 0x43] := by
      have hpairs := InputText.pairs_eq_ok_iff.mpr hwrites
      have hline : InputText.pairs (InputText.characters "41 4 2 43") = .ok [0x41, 0x42, 0x43] := by decide +kernel
      rw [hline] at hpairs
      cases hpairs
      rfl
    subst hbytes
    have htold : [⟨.line "abc", ""⟩, ⟨.line "zz", "zz"⟩].flatMap (refusal .hex 2) ++
        asked .hex 2 ⟨.line "41 4 2 43", ""⟩ = shown := by
      decide +kernel
    refine ⟨m, ?_, hlands.stored 0 (by decide), hlands.stored 1 (by decide), fun a hlast hfirst => ?_⟩
    · rw [hfulfil, htold]
      simp [Console.later, shown, c]
    · refine hlands.elsewhere a fun i hi => ?_
      match i, hi with
      | 0, _ => exact hlast
      | 1, _ => exact hfirst

end Gate
end MicroDebug

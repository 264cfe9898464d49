import MicroDebug.Instruction.Text
import MicroDebug.Processor.Step

/-! A trace of a program with a line for each instruction. The passes through a short loop after the first are
    counted and not written: such a loop is closed by a jump back over instructions that are no jumps, and one
    line with their number follows when the program leaves it. -/

namespace MicroDebug

/-- A line of a trace. -/
inductive TraceLine where
  /-- An event at an address, and what it is written as. -/
  | event (pc : UInt16) (text : String)
  /-- A loop that the program has left, with the number of its passes after the first. -/
  | loop (passes : Nat)
deriving DecidableEq, Repr

namespace TraceLine

def text : TraceLine → String
  | event pc t => Hex.word pc ++ " " ++ t
  | loop passes => "<loop " ++ toString passes ++ " times>"

/-- The pieces that a line is written in. The zeros that fill up an address come one by one. -/
def pieces : TraceLine → List String
  | event pc t =>
    List.replicate (4 - (Hex.digits pc.toNat).length) "0" ++ [Hex.short pc.toNat, " ", t, "\n"]
  | loop passes => ["<loop ", toString passes, " times>\n"]

theorem join_pieces (l : TraceLine) : String.join l.pieces = l.text ++ "\n" := by
  apply String.toList_injective
  cases l with
  | event pc t =>
    simp [pieces, text, Hex.word, Hex.padded, Hex.short, Hex.paddedDigits, List.leftpad, List.flatMap_replicate]
  | loop passes => simp [pieces, text]

end TraceLine

/-- A loop whose passes are counted. -/
structure Loop where
  /-- Where a pass starts. -/
  head : UInt16
  /-- The jump that closes it. -/
  last : UInt16
  passes : Nat := 0
deriving DecidableEq, Repr

/-- The latest instructions that were written, the latest first and each with whether it is a jump, and the
    loop that is being counted. -/
structure Tracer where
  history : List (UInt16 × Bool) := []
  loop : Option Loop := none
deriving DecidableEq, Repr

namespace Tracer

/-- How many instructions are remembered. -/
def memoryLength : Nat := 17

/-- How many bytes a loop spans at most. -/
def loopSpan : Nat := 32

/-- The number of bytes a jump goes back, if it goes back no more than a loop may span. -/
def ShortBack (distance : Int16) : Prop := -(loopSpan : Int) ≤ distance.toInt ∧ distance.toInt < 0

instance (distance : Int16) : Decidable (ShortBack distance) := inferInstanceAs (Decidable (_ ∧ _))

/-- Whether only instructions that are no jumps lie between now and the last time that `target` was written,
    as far as is remembered. -/
def isStraight (target : UInt16) : List (UInt16 × Bool) → Bool
  | [] => true
  | (a, isJump) :: rest => if a = target then true else if isJump then false else isStraight target rest

/-! ### Lines -/

/-- The line of a jump, under the name it goes by. -/
def jumpText (name : String) (pc : UInt16) (distance : Int16) : String :=
  name ++ "\t" ++ offsetText distance ++ " [" ++ Hex.word (Instruction.jumpTarget pc distance) ++ "]"

/-- The value of an operand and of its register. -/
def operandText (m : Machine) (x : Operand) (width : Width) : String :=
  Hex.word (m.peek x width) ++ " (" ++ Hex.word (m.registers.get x.reg) ++ ")"

/-- The line of an instruction that is no jump, with the values of the operands that are places. -/
def operationText (m : Machine) (i : Instruction) : String :=
  let (name, operands) := i.spelling
  let values := (operands.filter fun x => !x.isValue).map fun x => operandText m x i.width
  name ++ i.width.suffix ++ "\t" ++ ", ".intercalate (operands.map Operand.text) ++
    (if values.isEmpty then "" else " [" ++ ", ".intercalate values ++ "]")

/-- What an event is written as, after its address. -/
def eventText (m : Machine) : Event → String
  | .countdown pc remaining => jumpText s!"jnz_peephole_{remaining}" pc (-2)
  | .execute pc i =>
    match i.operands with
    | .offset d => jumpText i.operation.mnemonic pc d
    | _ => operationText m i

/-! ### Events -/

/-- Whether an event is a jump. -/
def isJump : Event → Bool
  | .countdown _ _ => true
  | .execute _ i =>
    match i.operands with
    | .offset _ => true
    | _ => false

/-- The loop that an event closes, given what was written before it. Jumps that are always taken close
    none, nor do loops that run as one step. -/
def closed? (history : List (UInt16 × Bool)) : Event → Option Loop
  | .countdown _ _ => none
  | .execute pc i =>
    match i.operands with
    | .offset d =>
      let head := Instruction.jumpTarget pc d
      if i.operation ≠ .jump .always ∧ ShortBack d ∧ isStraight head history then
        some { head := head, last := pc }
      else none
    | _ => none

/-- The state after an event at `pc` that belongs to the loop being counted. -/
def absorb? (t : Tracer) (pc : UInt16) : Option Tracer :=
  t.loop.bind fun l =>
    if pc = l.head then some { t with loop := some { l with passes := l.passes + 1 } }
    else if l.head < pc ∧ pc ≤ l.last then some t
    else none

/-- The line for the loop that is being counted. -/
def loopLine? (t : Tracer) : Option TraceLine := t.loop.map fun l => .loop l.passes

/-- The state after an event has been written. -/
def record (t : Tracer) (e : Event) : Tracer :=
  { history := ((e.pc, isJump e) :: t.history).take memoryLength
    loop := closed? t.history e }

/-- The line of an event. -/
def eventLine (m : Machine) (e : Event) : TraceLine := .event e.pc (eventText m e)

/-! ### Writing -/

variable {σ : Type} (write : σ → TraceLine → Except String Unit × σ)

/-- Writes the line of the loop that is being counted, if there is one. The loop goes on being counted if the
    line is not taken. -/
def leaveLoop (t : Tracer) (s : σ) : Except String Unit × Tracer × σ :=
  match t.loopLine? with
  | none => (.ok (), t, s)
  | some line =>
    match write s line with
    | (.ok (), s) => (.ok (), { t with loop := none }, s)
    | (.error reason, s) => (.error reason, t, s)

/-- Writes what an event calls for. -/
def observe (t : Tracer) (s : σ) (m : Machine) (e : Event) : Except String Unit × Tracer × σ :=
  match t.absorb? e.pc with
  | some t => (.ok (), t, s)
  | none =>
    match t.leaveLoop write s with
    | (.error reason, t, s) => (.error reason, t, s)
    | (.ok (), t, s) =>
      let (result, s) := write s (eventLine m e)
      (result, t.record e, s)

/-- Ends a trace. A loop that is being counted is given up even if its line is not taken. -/
def finish (t : Tracer) (s : σ) : Except String Unit × Tracer × σ :=
  let (result, _, s) := t.leaveLoop write s
  (result, { t with loop := none }, s)

end Tracer
end MicroDebug

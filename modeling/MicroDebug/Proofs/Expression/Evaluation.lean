import Mathlib.Data.Int.Bitwise
import MicroDebug.Expression.Compiler
import MicroDebug.Proofs.Memory.Words

/-! What an expression says, read off its tree: integers have any size and as many sign bits as it takes, and an
    address is taken modulo the size of memory. The operations that an expression is compiled to, with constants
    computed beforehand, leave that value alone on the stack. -/

namespace MicroDebug

/-! ### The value of a tree -/

namespace Expr

/-- The byte at an address of any size. -/
def byteAt (m : Memory) (a : Int) : Int := (m.readByte (UInt16.ofNat (a % 65536).toNat)).toNat

/-- What memory holds at an address in a view: one byte, or two with the low one first. -/
def viewed? (m : Memory) (view : String) (a : Int) : Option Value :=
  if view = "byte" then some (.int (byteAt m a))
  else if view = "mem" then some (.int (byteAt m a + 256 * byteAt m (a + 1)))
  else none

/-- What a register, a flag or the number of executed instructions is. -/
def named? (p : Processor) (text : String) : Option Value :=
  match Register.ofName? text, Flag.ofName? text with
  | some r, _ => some (.int (p.registers.get r).toNat)
  | none, some f => some (.bool (p.registers.flag f))
  | none, none => if text = "insncount" then some (.int p.executed) else none

def unaryValue? : UnaryOperator → Value → Option Value
  | .negate, .int n => some (.int (-n))
  | .not, .bool b => some (.bool !b)
  | _, _ => none

def ofTruths? : BinaryOperator → Bool → Bool → Option Value
  | .and, a, b => some (.bool (a && b))
  | .or, a, b => some (.bool (a || b))
  | .equal, a, b => some (.bool (decide (a = b)))
  | .notEqual, a, b => some (.bool (decide (a ≠ b)))
  | _, _, _ => none

def ofIntegers? : BinaryOperator → Int → Int → Option Value
  | .bitAnd, a, b => some (.int (Int.land a b))
  | .bitOr, a, b => some (.int (Int.lor a b))
  | .minus, a, b => some (.int (a - b))
  | .plus, a, b => some (.int (a + b))
  | .equal, a, b => some (.bool (decide (a = b)))
  | .notEqual, a, b => some (.bool (decide (a ≠ b)))
  | .greaterEqual, a, b => some (.bool (decide (b ≤ a)))
  | .greater, a, b => some (.bool (decide (b < a)))
  | .lessEqual, a, b => some (.bool (decide (a ≤ b)))
  | .less, a, b => some (.bool (decide (a < b)))
  | .and, _, _ | .or, _, _ => none

def binaryValue? : BinaryOperator → Value → Value → Option Value
  | op, .bool a, .bool b => ofTruths? op a b
  | op, .int a, .int b => ofIntegers? op a b
  | _, _, _ => none

/-- The value of an expression, if operators and memory find operands of the types they take. -/
def value? (p : Processor) : Expr → Option Value
  | number _ n => some (.int n)
  | name _ text => named? p text
  | index _ view _ address =>
    match address.value? p with
    | some (.int a) => viewed? p.memory view a
    | _ => none
  | unary _ op _ operand => (operand.value? p).bind (unaryValue? op)
  | binary _ op _ left right =>
    (left.value? p).bind fun a => (right.value? p).bind fun b => binaryValue? op a b

end Expr

/-! ### Operators, names and memory -/

namespace Expr

theorem without_eq_ldiff (a b : Nat) : Value.without a b = Nat.ldiff a b := by
  refine Nat.eq_of_testBit_eq fun i => ?_
  rw [Value.without, Nat.testBit_xor, Nat.testBit_and, Nat.testBit_ldiff]
  cases a.testBit i <;> cases b.testBit i <;> rfl

theorem intAnd_eq_land (a b : Int) : Value.intAnd a b = Int.land a b := by
  cases a <;> cases b <;> simp only [Value.intAnd, Int.land, without_eq_ldiff, Int.ofNat_eq_natCast]

theorem intOr_eq_lor (a b : Int) : Value.intOr a b = Int.lor a b := by
  cases a <;> cases b <;> simp only [Value.intOr, Int.lor, without_eq_ldiff, Int.ofNat_eq_natCast]

theorem unaryValue?_eq (op : UnaryOperator) (a : Value) : unaryValue? op a = op.result? a := by
  cases op <;> cases a <;> rfl

theorem binaryValue?_eq (op : BinaryOperator) (a b : Value) : binaryValue? op a b = op.result? a b := by
  cases op <;> cases a <;> cases b <;>
    simp [binaryValue?, ofTruths?, ofIntegers?, BinaryOperator.result?, intAnd_eq_land, intOr_eq_lor, bne,
      Bool.beq_eq_decide_eq]

/-- A name stands for an operation that pushes what it names. -/
theorem named?_eq {text : String} {op : Postfix.Op} {type : ValueType} (h : Typing.name? text = some (op, type))
    (p : Processor) :
    ∃ v, named? p text = some v ∧ v.type = type ∧ ∀ stack, op.run p stack = some (v :: stack) := by
  rw [Typing.name?] at h
  rw [named?]
  rcases hr : Register.ofName? text with _ | r <;> rw [hr] at h
  · rcases hf : Flag.ofName? text with _ | f <;> rw [hf] at h
    · by_cases hx : text = executedName
      · simp only [hx, if_true, Option.some.injEq, Prod.mk.injEq] at h
        obtain ⟨rfl, rfl⟩ := h
        exact ⟨_, if_pos hx, rfl, fun stack => rfl⟩
      · simp [hx] at h
    · cases h
      exact ⟨_, rfl, rfl, fun stack => rfl⟩
  · cases h
    exact ⟨_, rfl, rfl, fun stack => rfl⟩

theorem wrapWord_add_one (a : Int) : Value.wrapWord (a + 1) = Value.wrapWord a + 1 := by
  rw [Value.wrapWord, Value.wrapWord, ← UInt16.toNat_inj, UInt16.toNat_add, UInt16.toNat_ofNat',
    UInt16.toNat_ofNat', UInt16.toNat_one]
  omega

/-- Memory is read at an address modulo its size, a word with its high byte at the next one. -/
theorem viewed?_eq (m : Memory) (v : MemoryView) (a : Int) :
    viewed? m v.name a = some (Value.ofWord (v.read m (Value.wrapWord a))) := by
  cases v with
  | byte =>
    rw [MemoryView.name, viewed?, if_pos rfl, MemoryView.read, Value.ofWord, UInt8.toNat_toUInt16]
    rfl
  | word =>
    rw [MemoryView.name, viewed?, if_neg (by decide), if_pos rfl, MemoryView.read, Value.ofWord,
      Memory.toNat_readWord, ← wrapWord_add_one, Int.natCast_add, Int.natCast_mul]
    rfl

end Expr

/-! ### Operations on the stack -/

namespace Postfix

theorem run_append (p : Processor) (ops rest : List Op) (stack : List Value) :
    run p (ops ++ rest) stack = (run p ops stack).bind (run p rest) := by
  induction ops generalizing stack with
  | nil => rfl
  | cons op ops ih =>
    rw [List.cons_append, run, run]
    cases op.run p stack with
    | none => rfl
    | some next => exact ih next

end Postfix

namespace Expr

/-- Operations that compute a value put it on top of any stack. -/
def Computes (p : Processor) (ops : List Postfix.Op) (v : Value) : Prop :=
  ∀ stack, Postfix.run p ops stack = some (v :: stack)

theorem Computes.push (p : Processor) (v : Value) : Computes p [.push v] v := fun _ => rfl

theorem Computes.eq_constant {p : Processor} {code : Postfix} {v w : Value} (hv : Computes p code.ops v)
    (hw : Typing.constant? code = some w) : v = w := by
  have h := hv []
  rw [Typing.constant?_eq_some_iff.mp hw, Computes.push p w []] at h
  cases h
  rfl

/-- An operation on what is on top of the stack. -/
theorem Computes.concat {p : Processor} {ops : List Postfix.Op} {op : Postfix.Op} {v w : Value}
    (hv : Computes p ops v) (hop : ∀ stack, op.run p (v :: stack) = some (w :: stack)) :
    Computes p (ops ++ [op]) w := by
  intro stack
  rw [Postfix.run_append, hv stack, Option.bind_some, Postfix.run, hop stack]
  rfl

theorem Computes.concat_binary {p : Processor} {left right : List Postfix.Op} {op : BinaryOperator} {a b v : Value}
    (ha : Computes p left a) (hb : Computes p right b) (hv : op.result? a b = some v) :
    Computes p (left ++ right ++ [.binary op]) v := by
  intro stack
  rw [Postfix.run_append, Postfix.run_append, ha stack, Option.bind_some, hb (a :: stack), Option.bind_some,
    Postfix.run, Postfix.Op.run_binary, hv]
  rfl

/-- The operations of a typed expression compute the value of its tree. -/
theorem computes_of_check (p : Processor) {e : Expr} {code : Postfix} (h : (Typing.check e).2 = some code) :
    ∃ v, e.value? p = some v ∧ v.type = code.type ∧ Computes p code.ops v := by
  induction e generalizing code with
  | number span n =>
    obtain rfl := Option.some.inj h
    exact ⟨_, rfl, rfl, Computes.push p _⟩
  | name span text =>
    obtain ⟨op, type, hop, rfl⟩ := Typing.check_name_eq_some_iff.mp h
    obtain ⟨v, hv, htype, hrun⟩ := named?_eq hop p
    refine ⟨v, hv, htype, fun stack => ?_⟩
    rw [Postfix.run, hrun stack]
    rfl
  | index span view viewSpan address ih =>
    obtain ⟨w, a, hview, ha, htype, rfl⟩ := Typing.check_index_eq_some_iff.mp h
    obtain ⟨v, hv, hvtype, hcomp⟩ := ih ha
    cases v with
    | bool b => exact absurd (hvtype.trans htype) (by simp [Value.type])
    | int n =>
      refine ⟨_, ?_, rfl, hcomp.concat fun stack => rfl⟩
      rw [value?, hv, MemoryView.ofName?_eq_some_iff.mp hview]
      exact viewed?_eq p.memory w n
  | unary span op opSpan operand ih =>
    obtain ⟨e, he, htype, rfl⟩ := Typing.check_unary_eq_some_iff.mp h
    obtain ⟨a, ha, hatype, hcomp⟩ := ih he
    obtain ⟨v, hv, hvtype⟩ := op.exists_result? (hatype.trans htype)
    have hvalue : (unary span op opSpan operand).value? p = some v := by
      rw [value?, ha, Option.bind_some, unaryValue?_eq, hv]
    obtain ⟨a', v', ha', hv', -, heq⟩ | ⟨-, heq⟩ := Typing.unary_cases htype fun a => Typing.type_of_constant he
    · obtain rfl := hcomp.eq_constant ha'
      obtain rfl := Option.some.inj (hv.symm.trans hv')
      rw [heq]
      exact ⟨v, hvalue, hvtype.trans htype.symm, Computes.push p v⟩
    · rw [heq]
      refine ⟨v, hvalue, hvtype.trans htype.symm, hcomp.concat fun stack => ?_⟩
      rw [Postfix.Op.run_unary, hv]
      rfl
  | binary span op opSpan left right ihl ihr =>
    obtain ⟨l, r, type, hl, hr, htype, rfl⟩ := Typing.check_binary_eq_some_iff.mp h
    obtain ⟨a, ha, hatype, hcompa⟩ := ihl hl
    obtain ⟨b, hb, hbtype, hcompb⟩ := ihr hr
    have htype' := htype
    rw [← hatype, ← hbtype] at htype'
    obtain ⟨v, hv, hvtype⟩ := op.exists_result? htype'
    have hvalue : (binary span op opSpan left right).value? p = some v := by
      rw [value?, ha, hb, Option.bind_some, Option.bind_some, binaryValue?_eq, hv]
    obtain ⟨a', b', v', ha', hb', hv', hvtype', heq⟩ | ⟨-, heq⟩ := Typing.binary_cases htype
      (fun a => Typing.type_of_constant hl) fun b => Typing.type_of_constant hr
    · obtain rfl := hcompa.eq_constant ha'
      obtain rfl := hcompb.eq_constant hb'
      obtain rfl := Option.some.inj (hv.symm.trans hv')
      rw [heq]
      exact ⟨v, hvalue, hvtype, Computes.push p v⟩
    · rw [heq]
      exact ⟨v, hvalue, hvtype, hcompa.concat_binary hcompb hv⟩

/-- The operations of an expression without errors leave the value of its tree, which is of the type told. -/
theorem evaluate?_compile {e : Expr} {code : Postfix} (h : e.compile = .ok code) (p : Processor) :
    ∃ v, e.value? p = some v ∧ code.evaluate? p = some v ∧ v.type = code.type := by
  obtain ⟨v, hvalue, htype, hcomp⟩ := computes_of_check p (compile_eq_ok_iff.mp h)
  refine ⟨v, hvalue, ?_, htype⟩
  rw [Postfix.evaluate?, hcomp []]

/-- In `mem[0 - 1] + 3` the address is computed beforehand, and the word lies across the end of memory. -/
theorem evaluate?_compile_across_end :
    let address : Expr := .binary (.ofLength 4 5) .minus (.ofLength 6 1) (.number (.ofLength 4 1) 0)
      (.number (.ofLength 8 1) 1)
    let e : Expr := .binary (.ofLength 0 14) .plus (.ofLength 11 1)
      (.index (.ofLength 0 10) "mem" (.ofLength 0 3) address) (.number (.ofLength 13 1) 3)
    let code : Postfix := { ops := [.push (.int (-1)), .read .word, .push (.int 3), .binary .plus], type := .int }
    e.compile = .ok code ∧
      code.evaluate? (Processor.start (Memory.zero.writeWord 0xffff 0x1234)) = some (.int 0x1237) := by
  intro address e code
  have hcode : e.compile = .ok code := compile_eq_ok_iff.mpr rfl
  have hvalue : e.value? (Processor.start (Memory.zero.writeWord 0xffff 0x1234)) = some (.int 0x1237) := by
    decide
  obtain ⟨v, hv, heval, -⟩ := evaluate?_compile hcode (Processor.start (Memory.zero.writeWord 0xffff 0x1234))
  rw [heval, ← hv, hvalue]
  exact ⟨hcode, rfl⟩

end Expr
end MicroDebug

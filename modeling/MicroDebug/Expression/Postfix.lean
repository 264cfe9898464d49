import MicroDebug.Expression.Value
import MicroDebug.Processor.Basic

/-! Expressions as a list of operations on a stack of values. Run on operations that do not fit together, the
    stack runs out or an operator finds no operands that it takes, and there is no value. -/

namespace MicroDebug

/-- A view of memory that expressions can index. -/
inductive MemoryView where
  | byte
  | word
deriving DecidableEq, Repr

namespace MemoryView

def name : MemoryView → String
  | byte => "byte"
  | word => "mem"

def ofName? (text : String) : Option MemoryView := [byte, word].find? fun v => v.name == text

theorem ofName?_eq_some_iff {text : String} {v : MemoryView} : ofName? text = some v ↔ text = v.name := by
  constructor
  · intro h
    have hname := List.find?_some h
    exact (beq_iff_eq.mp hname).symm
  · rintro rfl
    cases v <;> rfl

def read (v : MemoryView) (m : Memory) (a : UInt16) : UInt16 :=
  match v with
  | byte => (m.readByte a).toUInt16
  | word => m.readWord a

def write (v : MemoryView) (m : Memory) (a w : UInt16) : Memory :=
  match v with
  | byte => m.writeByte a w.toUInt8
  | word => m.writeWord a w

end MemoryView

namespace Postfix

/-- An operation on the stack. -/
inductive Op where
  | push (v : Value)
  | register (r : Register)
  | flag (f : Flag)
  /-- The number of instructions that have been executed. -/
  | executed
  | read (v : MemoryView)
  | unary (op : UnaryOperator)
  | binary (op : BinaryOperator)
deriving DecidableEq, Repr

/-- The stack after an operation, the top first. -/
def Op.run (p : Processor) : Op → List Value → Option (List Value)
  | push v, stack => some (v :: stack)
  | register r, stack => some (Value.ofWord (p.registers.get r) :: stack)
  | flag f, stack => some (.bool (p.registers.flag f) :: stack)
  | executed, stack => some (.int p.executed :: stack)
  | read v, .int a :: stack => some (Value.ofWord (v.read p.memory (Value.wrapWord a)) :: stack)
  | unary op, a :: stack => (op.result? a).map (· :: stack)
  | binary op, b :: a :: stack => (op.result? a b).map (· :: stack)
  | _, _ => none

theorem Op.run_unary (p : Processor) (op : UnaryOperator) (a : Value) (stack : List Value) :
    (Op.unary op).run p (a :: stack) = (op.result? a).map (· :: stack) := rfl

theorem Op.run_binary (p : Processor) (op : BinaryOperator) (a b : Value) (stack : List Value) :
    (Op.binary op).run p (b :: a :: stack) = (op.result? a b).map (· :: stack) := rfl

/-- The stack after operations one after another. -/
def run (p : Processor) : List Op → List Value → Option (List Value)
  | [], stack => some stack
  | op :: rest, stack => (op.run p stack).bind (run p rest)

end Postfix

/-- Operations that compute a value, and its type. -/
structure Postfix where
  ops : List Postfix.Op
  type : ValueType
deriving DecidableEq, Repr

namespace Postfix

/-- The value that the operations leave alone on the stack. -/
def evaluate? (e : Postfix) (p : Processor) : Option Value :=
  match run p e.ops [] with
  | some [v] => some v
  | _ => none

end Postfix
end MicroDebug

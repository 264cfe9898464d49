import MicroDebug.Expression.Expr
import MicroDebug.Text.Hex

/-! Values of expressions: integers of any size and truth values. An operator gives no value for operands of
    types that it does not take. -/

namespace MicroDebug

inductive ValueType where
  | bool
  | int
deriving DecidableEq, Repr

def ValueType.name : ValueType → String
  | bool => "bool"
  | int => "int"

inductive Value where
  | bool (b : Bool)
  | int (n : Int)
deriving DecidableEq, Repr

namespace Value

def type : Value → ValueType
  | bool _ => .bool
  | int _ => .int

def ofWord (w : UInt16) : Value := int w.toNat

/-- The word that holds an integer modulo its size. -/
def wrapWord (n : Int) : UInt16 := UInt16.ofNat (n % 65536).toNat

/-- A truth value by its name, an integer in base 10 and in base 16. -/
def text : Value → String
  | bool true => "true"
  | bool false => "false"
  | int n => toString n ++ " (" ++ (if n < 0 then "-0x" else "0x") ++ Hex.short n.natAbs ++ ")"

/-! ### Bits of integers -/

/-- The bits of `a` that are not in `b`. -/
def without (a b : Nat) : Nat := a ^^^ (a &&& b)

/-- The common bits of two integers, of which a negative one has ones without end. -/
def intAnd : Int → Int → Int
  | .ofNat a, .ofNat b => .ofNat (a &&& b)
  | .ofNat a, .negSucc b => .ofNat (without a b)
  | .negSucc a, .ofNat b => .ofNat (without b a)
  | .negSucc a, .negSucc b => .negSucc (a ||| b)

/-- The bits of either of two integers. -/
def intOr : Int → Int → Int
  | .ofNat a, .ofNat b => .ofNat (a ||| b)
  | .ofNat a, .negSucc b => .negSucc (without b a)
  | .negSucc a, .ofNat b => .negSucc (without a b)
  | .negSucc a, .negSucc b => .negSucc (a &&& b)

end Value

/-! ### Operators -/

namespace BinaryOperator

/-- The type of the result for operands of two types, if the operator takes them. -/
def resultType? : BinaryOperator → ValueType → ValueType → Option ValueType
  | and, .bool, .bool | or, .bool, .bool => some .bool
  | equal, .bool, .bool | notEqual, .bool, .bool => some .bool
  | equal, .int, .int | notEqual, .int, .int => some .bool
  | greaterEqual, .int, .int | greater, .int, .int | lessEqual, .int, .int | less, .int, .int => some .bool
  | bitAnd, .int, .int | bitOr, .int, .int | minus, .int, .int | plus, .int, .int => some .int
  | _, _, _ => none

/-- The result of the operator, if it takes the operands. -/
def result? : BinaryOperator → Value → Value → Option Value
  | and, .bool a, .bool b => some (.bool (a && b))
  | or, .bool a, .bool b => some (.bool (a || b))
  | equal, .bool a, .bool b => some (.bool (a == b))
  | notEqual, .bool a, .bool b => some (.bool (a != b))
  | equal, .int a, .int b => some (.bool (a == b))
  | notEqual, .int a, .int b => some (.bool (a != b))
  | greaterEqual, .int a, .int b => some (.bool (a ≥ b))
  | greater, .int a, .int b => some (.bool (a > b))
  | lessEqual, .int a, .int b => some (.bool (a ≤ b))
  | less, .int a, .int b => some (.bool (a < b))
  | bitAnd, .int a, .int b => some (.int (Value.intAnd a b))
  | bitOr, .int a, .int b => some (.int (Value.intOr a b))
  | minus, .int a, .int b => some (.int (a - b))
  | plus, .int a, .int b => some (.int (a + b))
  | _, _, _ => none

/-- An operator has a result exactly for operands of types that it takes, and it is of the type told. -/
theorem type_result? (op : BinaryOperator) (a b : Value) :
    (op.result? a b).map Value.type = op.resultType? a.type b.type := by
  cases op <;> cases a <;> cases b <;> rfl

theorem exists_result? {op : BinaryOperator} {a b : Value} {type : ValueType}
    (h : op.resultType? a.type b.type = some type) : ∃ v, op.result? a b = some v ∧ v.type = type :=
  Option.map_eq_some_iff.mp ((type_result? op a b).trans h)

end BinaryOperator

namespace UnaryOperator

/-- The type of operand that the operator takes, which is also that of its result. -/
def operandType : UnaryOperator → ValueType
  | negate => .int
  | not => .bool

def result? : UnaryOperator → Value → Option Value
  | negate, .int n => some (.int (-n))
  | not, .bool b => some (.bool !b)
  | _, _ => none

theorem type_result? (op : UnaryOperator) (a : Value) :
    (op.result? a).map Value.type = if a.type = op.operandType then some op.operandType else none := by
  cases op <;> cases a <;> rfl

theorem exists_result? {op : UnaryOperator} {a : Value} (h : a.type = op.operandType) :
    ∃ v, op.result? a = some v ∧ v.type = op.operandType :=
  Option.map_eq_some_iff.mp ((type_result? op a).trans (if_pos h))

end UnaryOperator
end MicroDebug

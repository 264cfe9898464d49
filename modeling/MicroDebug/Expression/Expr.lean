import MicroDebug.Source.Span

/-! Expressions as trees. Every node knows the part of the line that it was written as. -/

namespace MicroDebug

inductive BinaryOperator where
  | and
  | bitAnd
  | bitOr
  | equal
  | greaterEqual
  | greater
  | lessEqual
  | less
  | notEqual
  | minus
  | or
  | plus
deriving DecidableEq, Repr

namespace BinaryOperator

/-- Operators of a higher rank bind more tightly. -/
def rank : BinaryOperator → Nat
  | or => 0
  | and => 1
  | equal | greaterEqual | greater | lessEqual | less | notEqual => 2
  | bitAnd | bitOr | minus | plus => 3

/-- What is done with the operands, in the words of a message. -/
def verb : BinaryOperator → String
  | and | bitAnd => "and"
  | or | bitOr => "or"
  | equal | greaterEqual | greater | lessEqual | less | notEqual => "compare"
  | minus => "subtract"
  | plus => "add"

end BinaryOperator

inductive UnaryOperator where
  | negate
  | not
deriving DecidableEq, Repr

namespace UnaryOperator

def verb : UnaryOperator → String
  | negate => "negate"
  | not => "invert"

end UnaryOperator

inductive Expr where
  | number (span : Span) (value : Int)
  | name (span : Span) (text : String)
  /-- What a named view of memory holds at an address. -/
  | index (span : Span) (view : String) (viewSpan : Span) (address : Expr)
  | unary (span : Span) (op : UnaryOperator) (opSpan : Span) (operand : Expr)
  | binary (span : Span) (op : BinaryOperator) (opSpan : Span) (left right : Expr)
deriving DecidableEq, Repr

namespace Expr

def span : Expr → Span
  | number s _ | name s _ | index s _ _ _ | unary s _ _ _ | binary s _ _ _ _ => s

/-- The same expression written over another span, as with parentheses around it. -/
def withSpan (s : Span) : Expr → Expr
  | number _ n => number s n
  | name _ x => name s x
  | index _ v vs a => index s v vs a
  | unary _ op os e => unary s op os e
  | binary _ op os l r => binary s op os l r

end Expr

/-- What an assignment assigns to. -/
inductive Target where
  | name (span : Span) (text : String)
  | index (span : Span) (view : String) (viewSpan : Span) (address : Expr)
deriving DecidableEq, Repr

namespace Target

def span : Target → Span
  | name s _ | index s _ _ _ => s

end Target
end MicroDebug

import MicroDebug.Expression.Combinator
import MicroDebug.Expression.Expr

/-! The grammar of expressions and assignments as a parser. Operators of each rank stand in chains that lean to the
    left, with chains of the next rank as their operands. -/

namespace MicroDebug.Parser

/-! ### Tokens of the grammar -/

/-- The operator between two operands that a sign stands for. -/
def binaryOperator? : Sign → Option BinaryOperator
  | .ampAmp => some .and
  | .amp => some .bitAnd
  | .pipe => some .bitOr
  | .eqEq => some .equal
  | .gtEq => some .greaterEqual
  | .gt => some .greater
  | .ltEq => some .lessEqual
  | .lt => some .less
  | .bangEq => some .notEqual
  | .minus => some .minus
  | .pipePipe => some .or
  | .plus => some .plus
  | _ => none

/-- The operator before an operand that a sign stands for. -/
def unaryOperator? : Sign → Option UnaryOperator
  | .minus => some .negate
  | .bang => some .not
  | _ => none

/-- Takes a token that something can be made of. -/
def token {α : Type} (f : Token → Option α) : Parser α :=
  any.tryMap fun t i =>
    match f t with
    | some a => .ok a
    | none => .error (unexpected t i)

def symbol (sign : Sign) : Parser Token := token fun t => if t.lexeme = .sign sign then some t else none

def identifier : Parser (Span × String) :=
  token fun t =>
    match t.lexeme with
    | .name x => some (t.span, x)
    | _ => none

def integer : Parser Expr :=
  token fun t =>
    match t.lexeme with
    | .number n => some (.number t.span n)
    | _ => none

def unary : Parser (Span × UnaryOperator) :=
  token fun t =>
    match t.lexeme with
    | .sign s => (unaryOperator? s).map fun op => (t.span, op)
    | _ => none

/-- An operator of a rank. -/
def binary (rank : Nat) : Parser (Span × BinaryOperator) :=
  token fun t =>
    match t.lexeme with
    | .sign s => ((binaryOperator? s).filter fun op => op.rank = rank).map fun op => (t.span, op)
    | _ => none

/-! ### Expressions -/

/-- An expression in parentheses. -/
def group (expr : Parser Expr) : Parser Expr :=
  ((symbol .parenOpen).andThen (expr.andThen (symbol .parenClose))).map fun (s, e, t) =>
    e.withSpan (s.span.merge t.span)

/-- A view of memory at an address. -/
def index {α : Type} (make : Span → String → Span → Expr → α) (expr : Parser Expr) : Parser α :=
  (identifier.andThen ((symbol .bracketOpen).andThen (expr.andThen (symbol .bracketClose)))).map
    fun ((s, view), _, a, t) => make (s.merge t.span) view s a

def atom (expr : Parser Expr) : Parser Expr :=
  (group expr).orElse
    ((index .index expr).orElse
      ((identifier.map fun (s, x) => .name s x).orElse
        integer))

/-- What an operator makes of the operand after it. -/
def prefixed : Span × UnaryOperator → Expr → Expr
  | (s, op), e => .unary (s.merge e.span) op s e

/-- An operand with operators before it. -/
def operation (operand : Parser Expr) : Parser Expr := unary.foldr operand prefixed

/-- An operator of a rank and the operand after it. -/
def link (operand : Parser Expr) (rank : Nat) : Parser ((Span × BinaryOperator) × Expr) :=
  (binary rank).andThen operand

/-- What an operator and the operand after it make of what is before them. -/
def linked (left : Expr) : (Span × BinaryOperator) × Expr → Expr
  | ((s, op), right) => .binary (left.span.merge right.span) op s left right

/-- Operands with operators of a rank between them. -/
def chain (operand : Parser Expr) (rank : Nat) : Parser Expr := operand.foldl (link operand rank) linked

/-- An expression with what `expr` reads in its parentheses and brackets. -/
def expressionOver (expr : Parser Expr) : Parser Expr :=
  chain (chain (chain (chain (operation (atom expr)) 3) 2) 1) 0

def expression : Parser Expr := recursive expressionOver

/-! ### Assignments -/

def target : Parser Target := (index .index expression).orElse (identifier.map fun (s, x) => .name s x)

def assignment : Parser (Target × Expr) :=
  (target.andThen ((symbol .eq).andThen expression)).map fun (t, _, e) => (t, e)

/-! ### Errors -/

/-- The error for a failure in tokens of which `last` is the last one. -/
def diagnose (ts : List Token) (last : Token) (f : Failure) : Diagnostic where
  span :=
    match ts[f.index]? with
    | some t => t.span
    | none => last.span.endpoint
  message :=
    match f.found with
    | some t => "unexpected " ++ t.lexeme.kind
    | none => "unexpected end of input"

/-- The error for a text without tokens. -/
def missing (what : String) : Diagnostic :=
  { span := { start := 0, stop := 0 }, message := "expected " ++ what }

/-- What a parser makes of tokens, or the errors in them. -/
def parseWith {α : Type} (what : String) (p : Parser α) (ts : List Token) : Except (List Diagnostic) α :=
  match ts.getLast? with
  | none => .error [missing what]
  | some last => (p.parse ts).mapError fun failures => failures.map (diagnose ts last)

/-- The expression that the tokens write. -/
def parseExpr (ts : List Token) : Except (List Diagnostic) Expr := parseWith "expression" expression ts

/-- The assignment that the tokens write. -/
def parseAssignment (ts : List Token) : Except (List Diagnostic) (Target × Expr) :=
  parseWith "assignment" assignment ts

end MicroDebug.Parser

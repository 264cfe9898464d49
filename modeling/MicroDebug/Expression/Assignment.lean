import MicroDebug.Expression.Compiler

/-! Assignments to registers, flags and memory. The value and the address are both computed before anything is
    stored, and an integer is cut to the size of what it is stored in. -/

namespace MicroDebug

/-- A place that can be assigned to. -/
inductive Store where
  | flag (f : Flag)
  | register (r : Register)
  | memory (view : MemoryView) (address : Postfix)
deriving DecidableEq, Repr

/-- The type of the values that a place takes. -/
def Store.type : Store → ValueType
  | flag _ => .bool
  | register _ | memory _ _ => .int

structure Assignment where
  target : Store
  value : Postfix
deriving DecidableEq, Repr

namespace Assignment

/-- The error for a name that cannot be assigned to. -/
def badTarget (span : Span) (text : String) : Diagnostic :=
  { span := span, message := "Cannot assign to `" ++ text ++ "`"
    labels := [(span, "this is not a register or flag name")] }

/-- The place that a target names. -/
def checkTarget : Target → Except (List Diagnostic) Store
  | .name span text =>
    match Register.ofName? text, Flag.ofName? text with
    | some r, _ => .ok (.register r)
    | none, some f => .ok (.flag f)
    | none, none => .error [badTarget span text]
  | .index _ view viewSpan address =>
    match MemoryView.ofName? view with
    | none => .error [Typing.unknownView viewSpan view]
    | some v =>
      match address.compile with
      | .error errors => .error errors
      | .ok a =>
        if a.type = .int then .ok (.memory v a) else .error [Typing.badAddress address.span a.type]

/-- The assignment of an expression to a target. The value is looked at before the target. -/
def compile (target : Target) (e : Expr) : Except (List Diagnostic) Assignment :=
  match e.compile with
  | .error errors => .error errors
  | .ok value =>
    match checkTarget target with
    | .error errors => .error errors
    | .ok store =>
      if value.type = store.type then .ok { target := store, value := value }
      else .error [Typing.mismatch "assigned value" e.span store.type value.type]

/-- The assignment that a text writes. -/
def ofSource (source : String) : Except (List Diagnostic) Assignment :=
  match (Token.ofSource source).bind Parser.parseAssignment with
  | .error errors => .error errors
  | .ok (target, e) => compile target e

/-- Stores a value in a place, if it is of the type that the place takes. -/
def put (p : Processor) (v : Value) : Store → Option Processor
  | .flag f =>
    match v with
    | .bool b => some { p with registers := p.registers.setFlag f b }
    | .int _ => none
  | .register r =>
    match v with
    | .int n => some (p.setRegister r (Value.wrapWord n))
    | .bool _ => none
  | .memory view address =>
    match v, address.evaluate? p with
    | .int n, some (.int a) =>
      some (p.setMemory (view.write p.memory (Value.wrapWord a) (Value.wrapWord n)))
    | _, _ => none

/-- The state after an assignment. -/
def perform? (x : Assignment) (p : Processor) : Option Processor :=
  (x.value.evaluate? p).bind fun v => put p v x.target

end Assignment
end MicroDebug

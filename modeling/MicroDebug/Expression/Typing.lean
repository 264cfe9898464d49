import MicroDebug.Expression.Parser
import MicroDebug.Expression.Postfix

/-! Types of expressions, along the tree. Operands are looked at before the operator between them, and an
    expression with an operand that has no type is not blamed for it. What is typed has operations, with
    constants already computed. -/

namespace MicroDebug

/-- The name of the number of executed instructions. -/
def executedName : String := "insncount"

namespace Typing

/-! ### Messages -/

def typeLabel (span : Span) (type : ValueType) : Span × String :=
  (span, "this expression has type " ++ type.name)

def unknownName (span : Span) (text : String) : Diagnostic :=
  { span := span, message := "No such identifier: `" ++ text ++ "`"
    labels := [(span, "this is not a register or flag name")] }

def unknownView (span : Span) (text : String) : Diagnostic :=
  { span := span, message := "No such memory space: `" ++ text ++ "`"
    labels := [(span, "expected `mem` or `byte`")] }

/-- The error for an expression that is not of the type it must be of. -/
def mismatch (what : String) (span : Span) (wanted found : ValueType) : Diagnostic :=
  { span := span, message := what ++ " must be of type " ++ wanted.name ++ ", not " ++ found.name
    labels := [typeLabel span found] }

def badAddress (span : Span) (found : ValueType) : Diagnostic := mismatch "memory address" span .int found

def badUnary (op : UnaryOperator) (opSpan span : Span) (type : ValueType) : Diagnostic :=
  { span := opSpan, message := "Cannot " ++ op.verb ++ " " ++ type.name, labels := [typeLabel span type] }

def badBinary (op : BinaryOperator) (opSpan leftSpan rightSpan : Span) (left right : ValueType) :
    Diagnostic :=
  { span := opSpan, message := "Cannot " ++ op.verb ++ " " ++ left.name ++ " and " ++ right.name
    labels := [typeLabel leftSpan left, typeLabel rightSpan right] }

/-! ### Operations -/

/-- The value that operations only push. -/
def constant? (e : Postfix) : Option Value :=
  match e.ops with
  | [.push v] => some v
  | _ => none

theorem constant?_eq_some_iff {e : Postfix} {v : Value} : constant? e = some v ↔ e.ops = [.push v] := by
  rw [constant?]
  split
  · next w h => simp [h]
  · next h => simpa using fun he => h v he

/-- Operations that end in another one push more than a constant. -/
theorem constant?_concat {ops : List Postfix.Op} {op : Postfix.Op} {type : ValueType} (h : ∀ v, op ≠ .push v) :
    constant? { ops := ops ++ [op], type := type } = none := by
  rw [Option.eq_none_iff_forall_not_mem]
  intro v hv
  have heq : ops ++ [op] = [] ++ [.push v] := constant?_eq_some_iff.mp hv
  exact h v (List.append_inj_right' heq rfl |> List.singleton_inj.mp)

/-- An operation after operands, or its result if the operands are constants. -/
def fold (ops : List Postfix.Op) (result : Option Value) (type : ValueType) : Postfix :=
  match result with
  | some v => { ops := [.push v], type := type }
  | none => { ops := ops, type := type }

def unary (op : UnaryOperator) (e : Postfix) : Postfix :=
  fold (e.ops ++ [.unary op]) ((constant? e).bind op.result?) e.type

def binary (op : BinaryOperator) (left right : Postfix) (type : ValueType) : Postfix :=
  fold (left.ops ++ right.ops ++ [.binary op])
    ((constant? left).bind fun a => (constant? right).bind fun b => op.result? a b) type

/-- Applied to a constant of its type an operator is its result, and otherwise it is an operation. -/
theorem unary_cases {op : UnaryOperator} {e : Postfix} (htype : e.type = op.operandType)
    (he : ∀ a, constant? e = some a → a.type = e.type) :
    (∃ a v, constant? e = some a ∧ op.result? a = some v ∧ v.type = e.type ∧
      unary op e = { ops := [.push v], type := e.type }) ∨
    (constant? e = none ∧ unary op e = { ops := e.ops ++ [.unary op], type := e.type }) := by
  cases ha : constant? e with
  | none => exact .inr ⟨rfl, by simp [unary, fold, ha]⟩
  | some a =>
    obtain ⟨v, hv, hvtype⟩ := op.exists_result? ((he a ha).trans htype)
    exact .inl ⟨a, v, rfl, hv, hvtype.trans htype.symm, by simp [unary, fold, ha, hv]⟩

/-- Applied to constants of its types an operator is its result, and otherwise it is an operation. -/
theorem binary_cases {op : BinaryOperator} {l r : Postfix} {type : ValueType}
    (htype : op.resultType? l.type r.type = some type) (hl : ∀ a, constant? l = some a → a.type = l.type)
    (hr : ∀ b, constant? r = some b → b.type = r.type) :
    (∃ a b v, constant? l = some a ∧ constant? r = some b ∧ op.result? a b = some v ∧ v.type = type ∧
      binary op l r type = { ops := [.push v], type := type }) ∨
    (((constant? l).isSome && (constant? r).isSome) = false ∧
      binary op l r type = { ops := l.ops ++ r.ops ++ [.binary op], type := type }) := by
  cases ha : constant? l with
  | none => exact .inr ⟨rfl, by simp [binary, fold, ha]⟩
  | some a =>
    cases hb : constant? r with
    | none => exact .inr ⟨rfl, by simp [binary, fold, ha, hb]⟩
    | some b =>
      rw [← hl a ha, ← hr b hb] at htype
      obtain ⟨v, hv, hvtype⟩ := op.exists_result? htype
      exact .inl ⟨a, b, v, rfl, rfl, hv, hvtype, by simp [binary, fold, ha, hb, hv]⟩

/-- The operation that a name stands for, and its type. -/
def name? (text : String) : Option (Postfix.Op × ValueType) :=
  match Register.ofName? text with
  | some r => some (.register r, .int)
  | none =>
    match Flag.ofName? text with
    | some f => some (.flag f, .bool)
    | none => if text = executedName then some (.executed, .int) else none

theorem name?_ne_push {text : String} {op : Postfix.Op} {type : ValueType} (h : name? text = some (op, type))
    (v : Value) : op ≠ .push v := by
  grind [name?]

/-! ### Expressions -/

/-- An expression with the errors in it; it has operations if it is typed. -/
def check : Expr → List Diagnostic × Option Postfix
  | .number _ n => ([], some { ops := [.push (.int n)], type := .int })
  | .name span text =>
    match name? text with
    | some (op, type) => ([], some { ops := [op], type := type })
    | none => ([unknownName span text], none)
  | .index _ view viewSpan address =>
    let (errors, a) := check address
    match MemoryView.ofName? view, a with
    | none, _ => (errors ++ [unknownView viewSpan view], none)
    | some _, none => (errors, none)
    | some v, some a =>
      if a.type = .int then (errors, some { ops := a.ops ++ [.read v], type := .int })
      else (errors ++ [badAddress address.span a.type], none)
  | .unary _ op opSpan operand =>
    let (errors, e) := check operand
    match e with
    | none => (errors, none)
    | some e =>
      if e.type = op.operandType then (errors, some (unary op e))
      else (errors ++ [badUnary op opSpan operand.span e.type], none)
  | .binary _ op opSpan left right =>
    let (leftErrors, l) := check left
    let (rightErrors, r) := check right
    let errors := leftErrors ++ rightErrors
    match l, r with
    | some l, some r =>
      match op.resultType? l.type r.type with
      | some type => (errors, some (binary op l r type))
      | none => (errors ++ [badBinary op opSpan left.span right.span l.type r.type], none)
    | _, _ => (errors, none)

/-! ### What is typed -/

theorem check_name_eq_some_iff {span : Span} {text : String} {code : Postfix} :
    (check (.name span text)).2 = some code ↔
      ∃ op type, name? text = some (op, type) ∧ code = { ops := [op], type := type } := by
  rw [check]
  split
  · next op type h =>
    rw [h]
    constructor
    · rintro ⟨⟩
      exact ⟨op, type, rfl, rfl⟩
    · rintro ⟨_, _, ⟨⟩, rfl⟩
      rfl
  · next h => simp [h]

theorem check_index_eq_some_iff {span viewSpan : Span} {view : String} {address : Expr} {code : Postfix} :
    (check (.index span view viewSpan address)).2 = some code ↔
      ∃ v a, MemoryView.ofName? view = some v ∧ (check address).2 = some a ∧ a.type = .int ∧
        code = { ops := a.ops ++ [.read v], type := .int } := by
  rw [check]
  rcases hv : MemoryView.ofName? view with _ | v <;> rcases ha : check address with ⟨errors, _ | a⟩ <;> simp
  split
  · next h => simp [h, eq_comm]
  · next h => simp [h]

theorem check_unary_eq_some_iff {span opSpan : Span} {op : UnaryOperator} {operand : Expr} {code : Postfix} :
    (check (.unary span op opSpan operand)).2 = some code ↔
      ∃ e, (check operand).2 = some e ∧ e.type = op.operandType ∧ code = unary op e := by
  rw [check]
  rcases he : check operand with ⟨errors, _ | e⟩ <;> simp
  split
  · next h => simp [h, eq_comm]
  · next h => simp [h]

theorem check_binary_eq_some_iff {span opSpan : Span} {op : BinaryOperator} {left right : Expr} {code : Postfix} :
    (check (.binary span op opSpan left right)).2 = some code ↔
      ∃ l r type, (check left).2 = some l ∧ (check right).2 = some r ∧ op.resultType? l.type r.type = some type ∧
        code = binary op l r type := by
  rw [check]
  rcases hl : check left with ⟨leftErrors, _ | l⟩ <;> rcases hr : check right with ⟨rightErrors, _ | r⟩ <;> simp
  split
  · next type h => simp [h, eq_comm]
  · next h => simp [h]

/-- A constant is of the type of the operations that push it. -/
theorem type_of_constant {e : Expr} {code : Postfix} {v : Value} (h : (check e).2 = some code)
    (hv : constant? code = some v) : v.type = code.type := by
  induction e generalizing code v with
  | number span n =>
    obtain rfl := Option.some.inj h
    obtain rfl := Option.some.inj hv
    rfl
  | name span text =>
    obtain ⟨op, type, hop, rfl⟩ := check_name_eq_some_iff.mp h
    rw [← List.nil_append [op], constant?_concat (name?_ne_push hop)] at hv
    cases hv
  | index span view viewSpan address ih =>
    obtain ⟨w, a, -, -, -, rfl⟩ := check_index_eq_some_iff.mp h
    rw [constant?_concat (by simp)] at hv
    cases hv
  | unary span op opSpan operand ih =>
    obtain ⟨e, he, htype, rfl⟩ := check_unary_eq_some_iff.mp h
    obtain ⟨a, w, -, -, hw, heq⟩ | ⟨-, heq⟩ := unary_cases htype fun a => ih he
    · rw [heq] at hv ⊢
      obtain rfl := Option.some.inj hv
      exact hw
    · rw [heq, constant?_concat (by simp)] at hv
      cases hv
  | binary span op opSpan left right ihl ihr =>
    obtain ⟨l, r, type, hl, hr, htype, rfl⟩ := check_binary_eq_some_iff.mp h
    obtain ⟨a, b, w, -, -, -, hw, heq⟩ | ⟨-, heq⟩ := binary_cases htype (fun a => ihl hl) fun b => ihr hr
    · rw [heq] at hv ⊢
      obtain rfl := Option.some.inj hv
      exact hw
    · rw [heq, constant?_concat (by simp)] at hv
      cases hv

/-- There are no errors in what is typed. -/
theorem errors_eq_nil {e : Expr} {code : Postfix} (h : (check e).2 = some code) : (check e).1 = [] := by
  induction e generalizing code with
  | number span n => rfl
  | name span text =>
    obtain ⟨op, type, hop, -⟩ := check_name_eq_some_iff.mp h
    simp only [check, hop]
  | index span view viewSpan address ih =>
    obtain ⟨w, a, hw, ha, htype, -⟩ := check_index_eq_some_iff.mp h
    simp only [check, hw, ha, htype, if_true, ih ha]
  | unary span op opSpan operand ih =>
    obtain ⟨e, he, htype, -⟩ := check_unary_eq_some_iff.mp h
    simp only [check, he, htype, if_true, ih he]
  | binary span op opSpan left right ihl ihr =>
    obtain ⟨l, r, type, hl, hr, htype, -⟩ := check_binary_eq_some_iff.mp h
    simp only [check, hl, hr, htype, ihl hl, ihr hr, List.append_nil]

end Typing
end MicroDebug

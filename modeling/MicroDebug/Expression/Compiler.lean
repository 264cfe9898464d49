import MicroDebug.Expression.Typing

/-! Operations from expressions, in one pass over the subexpressions and without recursion. A stack holds what is
    known of the subexpressions that no operator has taken yet, and an operator whose operands are all constants
    takes their operations back. The pass comes to what the tree is typed as. -/

namespace MicroDebug

namespace Expr

/-- The operands of an expression, the last one first. -/
def operands : Expr → List Expr
  | number _ _ | name _ _ => []
  | index _ _ _ a => [a]
  | unary _ _ _ e => [e]
  | binary _ _ _ l r => [r, l]

/-- The number of subexpressions. -/
def size : Expr → Nat
  | number _ _ | name _ _ => 1
  | index _ _ _ a => a.size + 1
  | unary _ _ _ e => e.size + 1
  | binary _ _ _ l r => l.size + r.size + 1

/-- The number of subexpressions of all the expressions in a list. -/
def sizes : List Expr → Nat
  | [] => 0
  | e :: rest => e.size + sizes rest

theorem sizes_append (es fs : List Expr) : sizes (es ++ fs) = sizes es + sizes fs := by
  induction es with
  | nil => exact (Nat.zero_add _).symm
  | cons e es ih => rw [List.cons_append, sizes, sizes, ih, Nat.add_assoc]

theorem sizes_operands_lt (e : Expr) : sizes e.operands < e.size := by
  cases e <;> simp only [operands, sizes, size] <;> omega

/-- Puts the subexpressions of those that are pending in front of those that were found. -/
def collect : (pending found : List Expr) → List Expr
  | [], found => found
  | e :: pending, found => collect (e.operands ++ pending) (e :: found)
termination_by pending => sizes pending
decreasing_by
  have := e.sizes_operands_lt
  rw [sizes_append, sizes]
  omega

/-- All subexpressions, operands before what they are operands of. -/
def subexpressions (e : Expr) : List Expr := collect [e] []

/-- The same subexpressions, along the tree. -/
def postorder : Expr → List Expr
  | number s n => [number s n]
  | name s x => [name s x]
  | index s v vs a => a.postorder ++ [index s v vs a]
  | unary s op os e => e.postorder ++ [unary s op os e]
  | binary s op os l r => l.postorder ++ r.postorder ++ [binary s op os l r]

theorem collect_cons (e : Expr) (pending found : List Expr) :
    collect (e :: pending) found = collect pending (e.postorder ++ found) := by
  induction e generalizing pending found with
  | number s n => rw [collect]; rfl
  | name s x => rw [collect]; rfl
  | index s v vs a ih =>
    rw [collect, operands, List.singleton_append, ih, postorder, List.append_assoc]
    rfl
  | unary s op os e ih =>
    rw [collect, operands, List.singleton_append, ih, postorder, List.append_assoc]
    rfl
  | binary s op os l r ihl ihr =>
    rw [collect, operands, List.cons_append, ihr, List.singleton_append, ihl, postorder]
    simp only [List.append_assoc]
    rfl

theorem subexpressions_eq (e : Expr) : e.subexpressions = e.postorder := by
  rw [subexpressions, collect_cons, collect, List.append_nil]

end Expr

/-! ### One pass -/

/-- What is known of a subexpression: its type, if it has one, and whether it is a constant. -/
structure Mark where
  type : Option ValueType
  constant : Bool
deriving DecidableEq, Repr

/-- A pass over subexpressions. -/
structure Compiler where
  /-- The subexpressions that no operator has taken, the latest first. -/
  marks : List Mark := []
  /-- The operations of what was typed, the latest first. -/
  ops : List Postfix.Op := []
  errors : List Diagnostic := []

namespace Compiler

/-- Notes a subexpression that has a type and ends in an operation. -/
def typed (c : Compiler) (op : Postfix.Op) (type : ValueType) (constant : Bool) : Compiler :=
  { c with marks := { type := some type, constant := constant } :: c.marks, ops := op :: c.ops }

/-- Notes a subexpression without a type, and errors of its own. -/
def untyped (c : Compiler) (errors : List Diagnostic) : Compiler :=
  { c with marks := { type := none, constant := false } :: c.marks, errors := c.errors ++ errors }

/-- Takes the latest mark. Below the first one there is nothing with a type. -/
def popMark (c : Compiler) : Mark × Compiler :=
  match c.marks with
  | [] => ({ type := none, constant := false }, c)
  | m :: rest => (m, { c with marks := rest })

/-- Takes the latest operation back if it pushes a constant. -/
def popConstant? (c : Compiler) : Option (Value × Compiler) :=
  match c.ops with
  | .push v :: rest => some (v, { c with ops := rest })
  | _ => none

/-- Looks at a name. -/
def lookName (c : Compiler) (span : Span) (text : String) : Compiler :=
  match Typing.name? text with
  | some (op, type) => c.typed op type false
  | none => c.untyped [Typing.unknownName span text]

/-- Looks at memory at an address that has been looked at. -/
def lookIndex (c : Compiler) (view : String) (viewSpan : Span) (address : Expr) : Compiler :=
  let (a, c) := c.popMark
  match MemoryView.ofName? view, a.type with
  | none, _ => c.untyped [Typing.unknownView viewSpan view]
  | some _, none => c.untyped []
  | some v, some type =>
    if type = .int then c.typed (.read v) .int false else c.untyped [Typing.badAddress address.span type]

/-- Looks at an operator after its operand. A constant operand must be there to be taken back. -/
def lookUnary (c : Compiler) (op : UnaryOperator) (opSpan : Span) (operand : Expr) : Option Compiler :=
  let (a, c) := c.popMark
  match a.type with
  | none => some (c.untyped [])
  | some type =>
    if type = op.operandType then
      if a.constant then
        match c.popConstant? with
        | none => none
        | some (v, c) => (op.result? v).map fun v => c.typed (.push v) type true
      else some (c.typed (.unary op) type false)
    else some (c.untyped [Typing.badUnary op opSpan operand.span type])

/-- Looks at an operator after its operands. Constant operands must be there to be taken back. -/
def lookBinary (c : Compiler) (op : BinaryOperator) (opSpan : Span) (left right : Expr) : Option Compiler :=
  let (b, c) := c.popMark
  let (a, c) := c.popMark
  match a.type, b.type with
  | some leftType, some rightType =>
    match op.resultType? leftType rightType with
    | some type =>
      if a.constant && b.constant then
        match c.popConstant? with
        | none => none
        | some (y, c) =>
          match c.popConstant? with
          | none => none
          | some (x, c) => (op.result? x y).map fun v => c.typed (.push v) type true
      else some (c.typed (.binary op) type false)
    | none => some (c.untyped [Typing.badBinary op opSpan left.span right.span leftType rightType])
  | _, _ => some (c.untyped [])

/-- Looks at a subexpression whose operands have been looked at. There is no outcome if a constant that was
    marked is not there or is none that the operator takes. -/
def look (c : Compiler) : Expr → Option Compiler
  | .number _ n => some (c.typed (.push (.int n)) .int true)
  | .name span text => some (c.lookName span text)
  | .index _ view viewSpan address => some (c.lookIndex view viewSpan address)
  | .unary _ op opSpan operand => c.lookUnary op opSpan operand
  | .binary _ op opSpan left right => c.lookBinary op opSpan left right

/-- The operations if there were no errors. -/
def finish (c : Compiler) : Except (List Diagnostic) Postfix :=
  match c.popMark.1.type, c.errors with
  | some type, [] => .ok { ops := c.ops.reverse, type := type }
  | _, errors => .error errors

/-! ### The pass comes to what the tree is typed as -/

/-- The mark of what the tree is typed as. -/
def markOf (code : Option Postfix) : Mark :=
  { type := code.map (·.type), constant := (code.bind Typing.constant?).isSome }

/-- What a pass over the subexpressions of one expression adds: a mark, its errors and, if it is typed, exactly
    its operations. -/
structure Adds (c : Compiler) (found : List Diagnostic × Option Postfix) (c' : Compiler) : Prop where
  marks : c'.marks = markOf found.2 :: c.marks
  ops : ∃ ops, c'.ops = ops ++ c.ops ∧ ∀ code, found.2 = some code → ops = code.ops.reverse
  errors : c'.errors = c.errors ++ found.1

namespace Adds

variable {c c' : Compiler} {found : List Diagnostic × Option Postfix}

theorem popMark (h : c.Adds found c') : c'.popMark = (markOf found.2, { c' with marks := c.marks }) := by
  rw [Compiler.popMark, h.marks]

theorem ops_eq {code : Postfix} (h : c.Adds found c') (hcode : found.2 = some code) :
    c'.ops = code.ops.reverse ++ c.ops := by
  obtain ⟨ops, hops, hcodes⟩ := h.ops
  rw [hops, hcodes code hcode]

/-- What is untyped keeps the operations that were there. -/
theorem untyped (h : c.Adds found c') (errors : List Diagnostic) :
    c.Adds (found.1 ++ errors, none) ({ c' with marks := c.marks }.untyped errors) where
  marks := rfl
  ops := by
    obtain ⟨ops, hops, -⟩ := h.ops
    exact ⟨ops, hops, by simp⟩
  errors := by simp [Compiler.untyped, h.errors]

/-- The same after two operands. -/
theorem untyped_untyped {c'' : Compiler} {found' : List Diagnostic × Option Postfix} (h : c.Adds found c')
    (h' : c'.Adds found' c'') (errors : List Diagnostic) :
    c.Adds (found.1 ++ found'.1 ++ errors, none) ({ c'' with marks := c.marks }.untyped errors) where
  marks := rfl
  ops := by
    obtain ⟨ops, hops, -⟩ := h.ops
    obtain ⟨ops', hops', -⟩ := h'.ops
    exact ⟨ops' ++ ops, by simp [Compiler.untyped, hops, hops'], by simp⟩
  errors := by simp [Compiler.untyped, h.errors, h'.errors]

end Adds

/-- The operations of a constant are the latest one. -/
theorem popConstant?_of_constant {code : Postfix} {v : Value} {marks : List Mark} {ops : List Postfix.Op}
    {errors : List Diagnostic} (hv : Typing.constant? code = some v) :
    popConstant? { marks := marks, ops := code.ops.reverse ++ ops, errors := errors } =
      some (v, { marks := marks, ops := ops, errors := errors }) := by
  rw [popConstant?, Typing.constant?_eq_some_iff.mp hv]
  rfl

theorem adds_constant (c : Compiler) (errors : List Diagnostic) (v : Value) (type : ValueType) :
    c.Adds (errors, some { ops := [.push v], type := type })
      ({ c with errors := c.errors ++ errors }.typed (.push v) type true) where
  marks := rfl
  ops := ⟨[.push v], rfl, by simp⟩
  errors := rfl

/-- An operation that is no constant, after the operations of its operands. -/
theorem adds_operation (c : Compiler) (errors : List Diagnostic) (ops : List Postfix.Op) (op : Postfix.Op)
    (type : ValueType) (hop : ∀ v, op ≠ .push v) :
    c.Adds (errors, some { ops := ops ++ [op], type := type })
      ({ c with ops := ops.reverse ++ c.ops, errors := c.errors ++ errors }.typed op type false) where
  marks := by simp [typed, markOf, Typing.constant?_concat hop]
  ops := ⟨op :: ops.reverse, rfl, by simp⟩
  errors := rfl

theorem adds_lookName (c : Compiler) (span : Span) (text : String) :
    c.Adds (Typing.check (.name span text)) (c.lookName span text) := by
  rcases hname : Typing.name? text with _ | ⟨op, type⟩
  · simp only [lookName, Typing.check, hname]
    exact { marks := rfl, ops := ⟨[], rfl, by simp⟩, errors := rfl }
  · simp only [lookName, Typing.check, hname]
    simpa using adds_operation c [] [] op type (Typing.name?_ne_push hname)

section

variable {c c' : Compiler} {operand : Expr} (h : c.Adds (Typing.check operand) c') (span opSpan : Span)
include h

theorem adds_lookIndex (view : String) :
    c.Adds (Typing.check (.index span view opSpan operand)) (c'.lookIndex view opSpan operand) := by
  rw [lookIndex, h.popMark, Typing.check]
  rcases hcheck : Typing.check operand with ⟨errors, _ | a⟩ <;> rw [hcheck] at h <;>
    rcases hv : MemoryView.ofName? view with _ | v
  · exact h.untyped _
  · have hadds := h.untyped []
    rw [List.append_nil] at hadds
    exact hadds
  · exact h.untyped _
  · by_cases htype : a.type = .int
    · simp only [markOf, Option.map_some, htype, if_true, h.ops_eq rfl, h.errors]
      exact adds_operation c errors a.ops (.read v) .int (by simp)
    · simp only [markOf, Option.map_some, htype, if_false]
      exact h.untyped _

theorem adds_lookUnary (op : UnaryOperator) :
    ∃ c'', c'.lookUnary op opSpan operand = some c'' ∧
      c.Adds (Typing.check (.unary span op opSpan operand)) c'' := by
  rw [lookUnary, h.popMark, Typing.check]
  rcases hcheck : Typing.check operand with ⟨errors, _ | e⟩ <;> rw [hcheck] at h
  · have hadds := h.untyped []
    rw [List.append_nil] at hadds
    exact ⟨_, rfl, hadds⟩
  · by_cases htype : e.type = op.operandType
    · simp only [markOf, Option.map_some, Option.bind_some, if_pos htype, h.ops_eq rfl, h.errors]
      obtain ⟨a, v, ha, hv, -, heq⟩ | ⟨ha, heq⟩ :=
        Typing.unary_cases htype fun a => Typing.type_of_constant (e := operand) (by rw [hcheck])
      · rw [ha, heq]
        simp only [Option.isSome_some, if_true]
        rw [popConstant?_of_constant ha]
        simp only [hv, Option.map_some]
        exact ⟨_, rfl, adds_constant c errors v e.type⟩
      · rw [ha, heq]
        exact ⟨_, rfl, adds_operation c errors e.ops (.unary op) e.type (by simp)⟩
    · simp only [markOf, Option.map_some, if_neg htype]
      exact ⟨_, rfl, h.untyped _⟩

end

section

variable {c c₁ c₂ : Compiler} {left right : Expr} (hl : c.Adds (Typing.check left) c₁)
  (hr : c₁.Adds (Typing.check right) c₂) (span opSpan : Span)
include hl hr

theorem adds_lookBinary (op : BinaryOperator) :
    ∃ c', c₂.lookBinary op opSpan left right = some c' ∧
      c.Adds (Typing.check (.binary span op opSpan left right)) c' := by
  have hpop : ({ c₂ with marks := c₁.marks } : Compiler).popMark =
      (markOf (Typing.check left).2, { c₂ with marks := c.marks }) := by
    rw [Compiler.popMark, hl.marks]
  have huntyped := hl.untyped_untyped hr
  rw [lookBinary, hr.popMark]
  simp only [hpop]
  rw [Typing.check]
  rcases hleft : Typing.check left with ⟨leftErrors, _ | l⟩ <;> rw [hleft] at hl huntyped <;>
    rcases hright : Typing.check right with ⟨rightErrors, _ | r⟩ <;> rw [hright] at hr huntyped
  · exact ⟨_, rfl, by simpa using huntyped []⟩
  · exact ⟨_, rfl, by simpa using huntyped []⟩
  · exact ⟨_, rfl, by simpa using huntyped []⟩
  · simp only [markOf, Option.map_some, Option.bind_some]
    rcases htype : op.resultType? l.type r.type with _ | type
    · exact ⟨_, rfl, huntyped _⟩
    · have hops : c₂.ops = r.ops.reverse ++ (l.ops.reverse ++ c.ops) := by rw [hr.ops_eq rfl, hl.ops_eq rfl]
      have herrors : c₂.errors = c.errors ++ (leftErrors ++ rightErrors) := by
        rw [hr.errors, hl.errors, List.append_assoc]
      simp only [hops, herrors]
      obtain ⟨a, b, v, ha, hb, hv, -, heq⟩ | ⟨hconst, heq⟩ := Typing.binary_cases htype
        (fun a => Typing.type_of_constant (e := left) (by rw [hleft]))
        fun b => Typing.type_of_constant (e := right) (by rw [hright])
      · rw [ha, hb, heq]
        simp only [Option.isSome_some, Bool.and_self, if_true]
        rw [popConstant?_of_constant hb]
        simp only
        rw [popConstant?_of_constant ha]
        simp only [hv, Option.map_some]
        exact ⟨_, rfl, adds_constant c _ v type⟩
      · rw [hconst, heq]
        refine ⟨_, rfl, ?_⟩
        simpa using adds_operation c (leftErrors ++ rightErrors) (l.ops ++ r.ops) (.binary op) type (by simp)

end

/-- From any state the pass over the subexpressions of an expression adds what the tree is typed as. -/
theorem foldlM_look (e : Expr) (c : Compiler) :
    ∃ c', e.postorder.foldlM look c = some c' ∧ c.Adds (Typing.check e) c' := by
  induction e generalizing c with
  | number span n => exact ⟨_, rfl, by simpa [Typing.check] using adds_constant c [] (.int n) .int⟩
  | name span text => exact ⟨_, rfl, adds_lookName c span text⟩
  | index span view viewSpan address ih =>
    obtain ⟨c', hfold, hadds⟩ := ih c
    refine ⟨_, ?_, adds_lookIndex hadds span viewSpan view⟩
    rw [Expr.postorder, List.foldlM_append, hfold]
    rfl
  | unary span op opSpan operand ih =>
    obtain ⟨c₁, hfold, hadds⟩ := ih c
    obtain ⟨c', hlook, hadds'⟩ := adds_lookUnary hadds span opSpan op
    refine ⟨c', ?_, hadds'⟩
    rw [Expr.postorder, List.foldlM_append, hfold]
    simp [look, hlook]
  | binary span op opSpan left right ihl ihr =>
    obtain ⟨c₁, hfoldl, haddsl⟩ := ihl c
    obtain ⟨c₂, hfoldr, haddsr⟩ := ihr c₁
    obtain ⟨c', hlook, hadds⟩ := adds_lookBinary haddsl haddsr span opSpan op
    refine ⟨c', ?_, hadds⟩
    rw [Expr.postorder, List.foldlM_append, List.foldlM_append, hfoldl]
    simp [hfoldr, look, hlook]

theorem isSome_foldlM_look (e : Expr) : (e.subexpressions.foldlM look {}).isSome := by
  obtain ⟨c', hfold, -⟩ := foldlM_look e {}
  rw [Expr.subexpressions_eq, hfold]
  rfl

end Compiler

/-- The operations of an expression, or the errors in it. -/
def Expr.compile (e : Expr) : Except (List Diagnostic) Postfix :=
  ((e.subexpressions.foldlM Compiler.look {}).get (Compiler.isSome_foldlM_look e)).finish

/-- The pass gives what the tree is typed as. -/
theorem Expr.compile_eq (e : Expr) :
    e.compile = match (Typing.check e).2 with
      | some code => .ok code
      | none => .error (Typing.check e).1 := by
  obtain ⟨c', hfold, hadds⟩ := Compiler.foldlM_look e {}
  have hget : (e.subexpressions.foldlM Compiler.look {}).get (Compiler.isSome_foldlM_look e) = c' := by
    simp only [e.subexpressions_eq, hfold, Option.get_some]
  rw [compile, hget, Compiler.finish, hadds.popMark, hadds.errors]
  rcases hcode : (Typing.check e).2 with _ | code
  · rfl
  · rw [hadds.ops_eq hcode, Typing.errors_eq_nil hcode]
    simp [Compiler.markOf]

theorem Expr.compile_eq_ok_iff {e : Expr} {code : Postfix} :
    e.compile = .ok code ↔ (Typing.check e).2 = some code := by
  rw [compile_eq]
  split <;> simp_all

/-- The operations of the expression that a text writes. -/
def Postfix.ofSource (source : String) : Except (List Diagnostic) Postfix :=
  match (Token.ofSource source).bind Parser.parseExpr with
  | .error errors => .error errors
  | .ok e => e.compile

end MicroDebug

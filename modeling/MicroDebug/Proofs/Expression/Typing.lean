import MicroDebug.Expression.Compiler

/-! Types of expressions by rules. The pass over the subexpressions gives operations of a type exactly to the
    expressions that have it. For the others it reports each subexpression that is itself wrong once, operands before
    what they are operands of, and nothing for what only contains a wrong one. -/

namespace MicroDebug.Typing

/-! ### Rules -/

/-- The operator takes two operands of a type and gives a result of another. -/
inductive Takes : BinaryOperator → ValueType → ValueType → Prop
  | arithmetic {op : BinaryOperator} (h : op ∈ [.plus, .minus, .bitAnd, .bitOr]) : Takes op .int .int
  | order {op : BinaryOperator} (h : op ∈ [.less, .lessEqual, .greater, .greaterEqual]) : Takes op .int .bool
  | equality {op : BinaryOperator} (h : op ∈ [.equal, .notEqual]) (type : ValueType) : Takes op type .bool
  | logic {op : BinaryOperator} (h : op ∈ [.and, .or]) : Takes op .bool .bool

/-- The expression is of the type. -/
inductive HasType : Expr → ValueType → Prop
  | number (s : Span) (n : Int) : HasType (.number s n) .int
  | register {x : String} {r : Register} (s : Span) (h : Register.ofName? x = some r) : HasType (.name s x) .int
  | flag {x : String} {f : Flag} (s : Span) (h : Flag.ofName? x = some f) : HasType (.name s x) .bool
  | executed (s : Span) : HasType (.name s "insncount") .int
  | index {a : Expr} (s : Span) (v : MemoryView) (vs : Span) (h : HasType a .int) : HasType (.index s v.name vs a) .int
  | negate {e : Expr} (s os : Span) (h : HasType e .int) : HasType (.unary s .negate os e) .int
  | not {e : Expr} (s os : Span) (h : HasType e .bool) : HasType (.unary s .not os e) .bool
  | binary {op : BinaryOperator} {operand result : ValueType} {l r : Expr} (s os : Span)
      (hop : Takes op operand result) (hl : HasType l operand) (hr : HasType r operand) :
      HasType (.binary s op os l r) result

/-- The expression has a type. -/
def Typed (e : Expr) : Prop := ∃ type, HasType e type

/-! ### What is wrong -/

/-- An index into a view of memory that there is none of. -/
def Viewless : Expr → Prop
  | .index _ view _ _ => ∀ v : MemoryView, view ≠ v.name
  | _ => False

/-- The expression is itself wrong: its operands have types and it has none, or it is an index without a view,
    whatever its address is. -/
def AtFault (e : Expr) : Prop := Viewless e ∨ ¬ Typed e ∧ ∀ operand ∈ e.operands, Typed operand

/-- The error tells what is wrong with the expression. -/
inductive Tells : Diagnostic → Expr → Prop
  | name (s : Span) (x : String) : Tells (unknownName s x) (.name s x)
  | view {view : String} (s vs : Span) (a : Expr) (h : ∀ v : MemoryView, view ≠ v.name) :
      Tells (unknownView vs view) (.index s view vs a)
  | address {a : Expr} {type : ValueType} (s : Span) (v : MemoryView) (vs : Span) (h : HasType a type) :
      Tells (badAddress a.span type) (.index s v.name vs a)
  | unary {e : Expr} {type : ValueType} (s : Span) (op : UnaryOperator) (os : Span) (h : HasType e type) :
      Tells (badUnary op os e.span type) (.unary s op os e)
  | binary {l r : Expr} {left right : ValueType} (s : Span) (op : BinaryOperator) (os : Span) (hl : HasType l left)
      (hr : HasType r right) : Tells (badBinary op os l.span r.span left right) (.binary s op os l r)

/-- The errors are those of the expressions at fault among the listed ones, one for each, in their order. -/
inductive Reports : List Diagnostic → List Expr → Prop
  | nil : Reports [] []
  | skip {errors : List Diagnostic} {e : Expr} {es : List Expr} (h : ¬ AtFault e) (hrest : Reports errors es) :
      Reports errors (e :: es)
  | tell {errors : List Diagnostic} {d : Diagnostic} {e : Expr} {es : List Expr} (h : AtFault e) (hd : Tells d e)
      (hrest : Reports errors es) : Reports (d :: errors) (e :: es)

/-! ### Types -/

/-- Every operator takes two operands of one type. -/
theorem resultType?_eq_some_iff {op : BinaryOperator} {left right result : ValueType} :
    op.resultType? left right = some result ↔ left = right ∧ Takes op left result := by
  constructor
  · intro h
    cases op with
    | plus | minus | bitAnd | bitOr =>
      cases left <;> cases right <;> cases h
      exact ⟨rfl, .arithmetic (by decide)⟩
    | less | lessEqual | greater | greaterEqual =>
      cases left <;> cases right <;> cases h
      exact ⟨rfl, .order (by decide)⟩
    | equal | notEqual => cases left <;> cases right <;> cases h <;> exact ⟨rfl, .equality (by decide) _⟩
    | and | or =>
      cases left <;> cases right <;> cases h
      exact ⟨rfl, .logic (by decide)⟩
  · rintro ⟨rfl, h⟩
    cases h with
    | arithmetic h | order h | logic h =>
      simp only [List.mem_cons, List.not_mem_nil, or_false] at h
      rcases h with rfl | rfl | rfl | rfl <;> rfl
    | equality h type =>
      simp only [List.mem_cons, List.not_mem_nil, or_false] at h
      rcases h with rfl | rfl <;> cases left <;> rfl

/-- A flag has the name of no register, and neither has the number of executed instructions. -/
theorem ofName?_of_flag (f : Flag) : Register.ofName? f.name = none := by
  cases f <;> decide

theorem exists_name?_iff {s : Span} {x : String} {type : ValueType} :
    (∃ op, name? x = some (op, type)) ↔ HasType (.name s x) type := by
  constructor
  · rintro ⟨op, h⟩
    rw [name?] at h
    split at h
    · next r hr =>
      cases h
      exact .register s hr
    · split at h
      · next f hf =>
        cases h
        exact .flag s hf
      · split at h
        · next hx =>
          cases h
          subst hx
          exact .executed s
        · cases h
  · intro h
    cases h with
    | register _ hr => exact ⟨_, by rw [name?, hr]⟩
    | @flag _ f _ hf =>
      obtain rfl := Flag.ofName?_eq_some_iff.mp hf
      exact ⟨.flag f, by rw [name?, ofName?_of_flag, hf]⟩
    | executed => exact ⟨.executed, by decide⟩

theorem type_fold (ops : List Postfix.Op) (v : Option Value) (type : ValueType) : (fold ops v type).type = type := by
  cases v <;> rfl

theorem hasType_unary_iff {s os : Span} {op : UnaryOperator} {e : Expr} {type : ValueType} :
    HasType (.unary s op os e) type ↔ type = op.operandType ∧ HasType e type := by
  constructor
  · intro h
    cases h with
    | negate _ _ h => exact ⟨rfl, h⟩
    | not _ _ h => exact ⟨rfl, h⟩
  · rintro ⟨rfl, h⟩
    cases op with
    | negate => exact .negate s os h
    | not => exact .not s os h

/-- The tree is typed as the rules say. -/
theorem hasType_iff {e : Expr} {type : ValueType} :
    HasType e type ↔ ∃ code, (check e).2 = some code ∧ code.type = type := by
  induction e generalizing type with
  | number s n =>
    constructor
    · rintro ⟨⟩
      exact ⟨_, rfl, rfl⟩
    · rintro ⟨code, hcode, rfl⟩
      cases hcode
      exact .number s n
  | name s x =>
    rw [← exists_name?_iff]
    constructor
    · rintro ⟨op, hop⟩
      exact ⟨_, check_name_eq_some_iff.mpr ⟨op, type, hop, rfl⟩, rfl⟩
    · rintro ⟨code, hcode, rfl⟩
      obtain ⟨op, type, hop, rfl⟩ := check_name_eq_some_iff.mp hcode
      exact ⟨op, hop⟩
  | index s view vs a ih =>
    constructor
    · intro h
      cases h with
      | index _ v _ ha =>
        obtain ⟨code, hcode, htype⟩ := ih.mp ha
        exact ⟨_, check_index_eq_some_iff.mpr
          ⟨v, code, MemoryView.ofName?_eq_some_iff.mpr rfl, hcode, htype, rfl⟩, rfl⟩
    · rintro ⟨code, hcode, rfl⟩
      obtain ⟨v, a, hv, ha, htype, rfl⟩ := check_index_eq_some_iff.mp hcode
      obtain rfl := MemoryView.ofName?_eq_some_iff.mp hv
      exact .index s v vs (ih.mpr ⟨a, ha, htype⟩)
  | unary s op os e ih =>
    rw [hasType_unary_iff, ih]
    constructor
    · rintro ⟨rfl, code, hcode, htype⟩
      exact ⟨_, check_unary_eq_some_iff.mpr ⟨code, hcode, htype, rfl⟩, (type_fold _ _ _).trans htype⟩
    · rintro ⟨code, hcode, rfl⟩
      obtain ⟨operand, hoperand, htype, rfl⟩ := check_unary_eq_some_iff.mp hcode
      rw [unary, type_fold]
      exact ⟨htype, operand, hoperand, rfl⟩
  | binary s op os l r ihl ihr =>
    constructor
    · intro h
      cases h with
      | binary _ _ hop hl hr =>
        obtain ⟨left, hleft, rfl⟩ := ihl.mp hl
        obtain ⟨right, hright, htype⟩ := ihr.mp hr
        exact ⟨_, check_binary_eq_some_iff.mpr
          ⟨left, right, type, hleft, hright, resultType?_eq_some_iff.mpr ⟨htype.symm, hop⟩, rfl⟩, type_fold _ _ _⟩
    · rintro ⟨code, hcode, rfl⟩
      obtain ⟨left, right, type, hleft, hright, htype, rfl⟩ := check_binary_eq_some_iff.mp hcode
      obtain ⟨hsame, hop⟩ := resultType?_eq_some_iff.mp htype
      rw [binary, type_fold]
      exact .binary s os hop (ihl.mpr ⟨left, hleft, rfl⟩) (ihr.mpr ⟨right, hright, hsame.symm⟩)

theorem typed_iff {e : Expr} : Typed e ↔ ∃ code, (check e).2 = some code := by
  constructor
  · rintro ⟨type, h⟩
    obtain ⟨code, hcode, -⟩ := hasType_iff.mp h
    exact ⟨code, hcode⟩
  · rintro ⟨code, hcode⟩
    exact ⟨code.type, hasType_iff.mpr ⟨code, hcode, rfl⟩⟩

theorem hasType_of_check {e : Expr} {code : Postfix} (h : (check e).2 = some code) : HasType e code.type :=
  hasType_iff.mpr ⟨code, h, rfl⟩

theorem not_typed_iff {e : Expr} : ¬ Typed e ↔ (check e).2 = none := by
  rw [typed_iff, Option.eq_none_iff_forall_ne_some]
  exact not_exists

/-! ### Errors -/

namespace Reports

variable {errors errors' : List Diagnostic} {es es' : List Expr} {e : Expr}

theorem append (h : Reports errors es) (h' : Reports errors' es') : Reports (errors ++ errors') (es ++ es') := by
  induction h with
  | nil => exact h'
  | skip hnot _ ih => exact .skip hnot ih
  | tell hfault hd _ ih => exact .tell hfault hd ih

/-- After the operands comes an expression that is not itself wrong. -/
theorem append_skip (h : Reports errors es) (he : ¬ AtFault e) : Reports errors (es ++ [e]) := by
  have happend := h.append (.skip he .nil)
  rwa [List.append_nil] at happend

/-- After the operands comes an expression that is itself wrong. -/
theorem append_tell {d : Diagnostic} (h : Reports errors es) (he : AtFault e) (hd : Tells d e) :
    Reports (errors ++ [d]) (es ++ [e]) :=
  h.append (.tell he hd .nil)

end Reports

theorem not_atFault_of_typed {e : Expr} (h : Typed e) : ¬ AtFault e := by
  rintro (hview | ⟨hnot, -⟩)
  · obtain ⟨type, h⟩ := h
    cases h with
    | index s v vs h => exact hview v rfl
    | _ => exact hview
  · exact hnot h

/-- Nothing is blamed for an operand without a type. -/
theorem not_atFault_of_operand {e operand : Expr} (hmem : operand ∈ e.operands) (h : (check operand).2 = none)
    (hview : ¬ Viewless e) : ¬ AtFault e := by
  rintro (hviewless | ⟨-, hoperands⟩)
  · exact hview hviewless
  · exact not_typed_iff.mpr h (hoperands operand hmem)

theorem atFault_of_operands {e : Expr} (h : (check e).2 = none)
    (hoperands : ∀ operand ∈ e.operands, ∃ code, (check operand).2 = some code) : AtFault e :=
  .inr ⟨not_typed_iff.mpr h, fun operand hmem => typed_iff.mpr (hoperands operand hmem)⟩

/-- The errors found along the tree are those of the subexpressions at fault. -/
theorem reports_check (e : Expr) : Reports (check e).1 e.postorder := by
  induction e with
  | number s n => exact .skip (not_atFault_of_typed ⟨_, .number s n⟩) .nil
  | name s x =>
    rcases hx : name? x with _ | ⟨op, type⟩
    · have hfault : AtFault (.name s x) :=
        atFault_of_operands (by simp only [check, hx]) (by simp [Expr.operands])
      simp only [check, hx]
      exact .tell hfault (.name s x) .nil
    · simp only [check, hx]
      exact .skip (not_atFault_of_typed ⟨type, exists_name?_iff.mp ⟨op, hx⟩⟩) .nil
  | index s view vs a ih =>
    rw [Expr.postorder]
    rcases hv : MemoryView.ofName? view with _ | v
    · have hview : ∀ v : MemoryView, view ≠ v.name := fun v heq => by
        rw [MemoryView.ofName?_eq_some_iff.mpr heq] at hv
        cases hv
      simp only [check, hv]
      exact ih.append_tell (.inl hview) (.view s vs a hview)
    · obtain rfl := MemoryView.ofName?_eq_some_iff.mp hv
      rcases ha : (check a).2 with _ | code
      · simp only [check, hv, ha]
        exact ih.append_skip (not_atFault_of_operand (List.mem_singleton_self a) ha fun h => h v rfl)
      · have htyped := hasType_of_check ha
        by_cases htype : code.type = .int
        · simp only [check, hv, ha, htype, if_true]
          exact ih.append_skip (not_atFault_of_typed ⟨.int, .index s v vs (htype ▸ htyped)⟩)
        · have hfault : AtFault (.index s v.name vs a) :=
            atFault_of_operands (by simp only [check, hv, ha, htype, if_false]) (by simp [Expr.operands, ha])
          simp only [check, hv, ha, htype, if_false]
          exact ih.append_tell hfault (.address s v vs htyped)
  | unary s op os e ih =>
    rw [Expr.postorder]
    rcases he : (check e).2 with _ | code
    · simp only [check, he]
      exact ih.append_skip (not_atFault_of_operand (List.mem_singleton_self e) he id)
    · have htyped := hasType_of_check he
      by_cases htype : code.type = op.operandType
      · simp only [check, he, htype, if_true]
        exact ih.append_skip (not_atFault_of_typed ⟨code.type, hasType_unary_iff.mpr ⟨htype, htyped⟩⟩)
      · have hfault : AtFault (.unary s op os e) :=
          atFault_of_operands (by simp only [check, he, htype, if_false]) (by simp [Expr.operands, he])
        simp only [check, he, htype, if_false]
        exact ih.append_tell hfault (.unary s op os htyped)
  | binary s op os l r ihl ihr =>
    rw [Expr.postorder]
    have ih := ihl.append ihr
    rcases hl : (check l).2 with _ | left
    · simp only [check, hl]
      exact ih.append_skip (not_atFault_of_operand (by simp [Expr.operands]) hl id)
    · rcases hr : (check r).2 with _ | right
      · simp only [check, hl, hr]
        exact ih.append_skip (not_atFault_of_operand (by simp [Expr.operands]) hr id)
      · have hleft := hasType_of_check hl
        have hright := hasType_of_check hr
        rcases htype : op.resultType? left.type right.type with _ | type
        · have hfault : AtFault (.binary s op os l r) :=
            atFault_of_operands (by simp only [check, hl, hr, htype]) (by simp [Expr.operands, hl, hr])
          simp only [check, hl, hr, htype]
          exact ih.append_tell hfault (.binary s op os hleft hright)
        · obtain ⟨hsame, hop⟩ := resultType?_eq_some_iff.mp htype
          simp only [check, hl, hr, htype]
          exact ih.append_skip (not_atFault_of_typed ⟨type, .binary s os hop hleft (hsame ▸ hright)⟩)

theorem Reports.not_atFault {es : List Expr} {e : Expr} (h : Reports [] es) (he : e ∈ es) : ¬ AtFault e := by
  generalize herrors : ([] : List Diagnostic) = errors at h
  induction h with
  | nil => cases he
  | skip hnot _ ih =>
    cases he with
    | head => exact hnot
    | tail _ he => exact ih he herrors
  | tell => cases herrors

theorem typed_of_operands {e : Expr} (h : ¬ AtFault e) (hoperands : ∀ operand ∈ e.operands, Typed operand) :
    Typed e :=
  Classical.byContradiction fun hnot => h (.inr ⟨hnot, hoperands⟩)

/-- Where nothing is at fault, types go up from the leaves. -/
theorem typed_of_not_atFault {e : Expr} (h : ∀ f ∈ e.postorder, ¬ AtFault f) : Typed e := by
  induction e with
  | number s n => exact ⟨_, .number s n⟩
  | name s x => exact typed_of_operands (h _ (List.mem_singleton_self _)) (by simp [Expr.operands])
  | index s view vs a ih =>
    refine typed_of_operands (h _ (by simp [Expr.postorder])) ?_
    simp only [Expr.operands, List.mem_singleton, forall_eq]
    exact ih fun f hf => h f (by simp [Expr.postorder, hf])
  | unary s op os e ih =>
    refine typed_of_operands (h _ (by simp [Expr.postorder])) ?_
    simp only [Expr.operands, List.mem_singleton, forall_eq]
    exact ih fun f hf => h f (by simp [Expr.postorder, hf])
  | binary s op os l r ihl ihr =>
    refine typed_of_operands (h _ (by simp [Expr.postorder])) ?_
    simp only [Expr.operands, List.mem_cons, List.not_mem_nil, or_false, forall_eq_or_imp, forall_eq]
    exact ⟨ihr fun f hf => h f (by simp [Expr.postorder, hf]), ihl fun f hf => h f (by simp [Expr.postorder, hf])⟩

/-- An expression is compiled to operations of a type exactly if it has that type; without a type it is refused, and
    each subexpression that is itself wrong is told once, in postorder. -/
theorem compile_types_or_reports (e : Expr) :
    (∀ type, (∃ code, e.compile = .ok code ∧ code.type = type) ↔ HasType e type) ∧
      (¬ Typed e → ∃ errors, e.compile = .error errors ∧ errors ≠ [] ∧ Reports errors e.postorder) := by
  constructor
  · intro type
    simp only [Expr.compile_eq_ok_iff]
    exact hasType_iff.symm
  · intro h
    have hreports := reports_check e
    refine ⟨(check e).1, ?_, fun hnil => ?_, hreports⟩
    · rw [Expr.compile_eq, not_typed_iff.mp h]
    · rw [hnil] at hreports
      exact h (typed_of_not_atFault fun f hf => hreports.not_atFault hf)

/-- In `ram[carry] + r16 == !1` three subexpressions are wrong by themselves and two more have no type for that. -/
theorem compile_types_or_reports_three :
    let index : Expr := .index (.ofLength 0 10) "ram" (.ofLength 0 3) (.name (.ofLength 4 5) "carry")
    let sum : Expr := .binary (.ofLength 0 16) .plus (.ofLength 11 1) index (.name (.ofLength 13 3) "r16")
    let e : Expr := .binary (.ofLength 0 22) .equal (.ofLength 17 2) sum
      (.unary (.ofLength 20 2) .not (.ofLength 20 1) (.number (.ofLength 21 1) 1))
    let errors := [unknownView (.ofLength 0 3) "ram", unknownName (.ofLength 13 3) "r16",
      badUnary .not (.ofLength 20 1) (.ofLength 21 1) .int]
    ¬ Typed e ∧ e.compile = .error errors ∧ Reports errors e.postorder := by
  intro index sum e errors
  have hcheck : check e = (errors, none) := by decide
  have hnot : ¬ Typed e := not_typed_iff.mpr (by rw [hcheck])
  have hcompile : e.compile = .error errors := by rw [Expr.compile_eq, hcheck]
  obtain ⟨_, herrors, -, hreports⟩ := (compile_types_or_reports e).2 hnot
  obtain rfl := Except.error.inj (hcompile.symm.trans herrors)
  exact ⟨hnot, hcompile, hreports⟩

end MicroDebug.Typing

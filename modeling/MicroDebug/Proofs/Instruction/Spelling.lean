import MicroDebug.Instruction.Text
import MicroDebug.Proofs.Instruction.OperandText

/-! No two instructions are written alike. The name, the width and the operands are told apart by a tab, a full stop and
    commas, none of which is written within them. A return and a branch have names of their own, and leave out the
    operands that they have in common with all of their name. -/

namespace MicroDebug

/-! ### Lists of operands -/

/-- Two texts that go on from their first character of another kind agree before it, at it and after it. -/
theorem append_cons_inj {p : Char → Bool} {xs ys s t : List Char} {c d : Char} (hxs : ∀ x ∈ xs, p x = true)
    (hys : ∀ y ∈ ys, p y = true) (hc : p c = false) (hd : p d = false) (h : xs ++ c :: s = ys ++ d :: t) :
    xs = ys ∧ c = d ∧ s = t := by
  induction xs generalizing ys with
  | nil =>
    cases ys with
    | nil => exact ⟨rfl, List.cons.inj h⟩
    | cons y ys =>
      obtain ⟨rfl, -⟩ := List.cons.inj h
      rw [hys c (List.mem_cons_self ..)] at hc
      cases hc
  | cons x xs ih =>
    rw [List.forall_mem_cons] at hxs
    cases ys with
    | nil =>
      obtain ⟨rfl, -⟩ := List.cons.inj h
      rw [hxs.1] at hd
      cases hd
    | cons y ys =>
      rw [List.forall_mem_cons] at hys
      obtain ⟨rfl, htail⟩ := List.cons.inj h
      obtain ⟨rfl, hrest⟩ := ih hxs.2 hys.2 htail
      exact ⟨rfl, hrest⟩

namespace Operand

/-- Operands as they are written one after another. -/
def listText (xs : List Operand) : List Char := (", ".intercalate (xs.map text)).toList

theorem listText_cons_cons (x y : Operand) (zs : List Operand) :
    listText (x :: y :: zs) = x.text.toList ++ ',' :: ' ' :: listText (y :: zs) := by
  rw [listText, List.map_cons, List.map_cons, String.intercalate_cons_cons, String.toList_append, String.toList_append,
    List.append_assoc]
  rfl

theorem listText_singleton (x : Operand) : listText [x] = x.text.toList := by
  rw [listText, List.map_cons, List.map_nil, String.intercalate_singleton]

theorem listText_ne_nil {x : Operand} (hx : x.WellFormed) (xs : List Operand) : listText (x :: xs) ≠ [] := by
  cases xs with
  | nil =>
    rw [listText_singleton]
    exact hx.text_ne_nil
  | cons y ys =>
    rw [listText_cons_cons]
    exact List.append_ne_nil_of_left_ne_nil hx.text_ne_nil _

theorem listText_singleton_ne {x : Operand} (hx : x.WellFormed) (y z : Operand) (zs : List Operand) :
    listText [x] ≠ listText (y :: z :: zs) := by
  intro h
  rw [listText_singleton, listText_cons_cons] at h
  exact hx.written.comma_not_mem (h ▸ List.mem_append_right _ (List.mem_cons_self ..))

theorem listText_inj {xs ys : List Operand} (hxs : ∀ x ∈ xs, x.WellFormed) (hys : ∀ y ∈ ys, y.WellFormed)
    (h : listText xs = listText ys) : xs = ys := by
  have hcomma {x : Operand} (hx : x.WellFormed) : ∀ c ∈ x.text.toList, (c != ',') = true := by
    intro c hc
    rw [bne_iff_ne]
    rintro rfl
    exact hx.written.comma_not_mem hc
  induction xs generalizing ys with
  | nil =>
    cases ys with
    | nil => rfl
    | cons y ys => exact absurd h.symm (listText_ne_nil (hys y (List.mem_cons_self ..)) ys)
  | cons x xs ih =>
    rw [List.forall_mem_cons] at hxs
    cases ys with
    | nil => exact absurd h (listText_ne_nil hxs.1 xs)
    | cons y ys =>
      rw [List.forall_mem_cons] at hys
      cases xs with
      | nil =>
        cases ys with
        | nil =>
          rw [listText_singleton, listText_singleton] at h
          rw [hxs.1.text_inj hys.1 h]
        | cons z ys => exact absurd h (listText_singleton_ne hxs.1 y z ys)
      | cons w xs =>
        cases ys with
        | nil => exact absurd h.symm (listText_singleton_ne hys.1 x w xs)
        | cons z ys =>
          rw [listText_cons_cons, listText_cons_cons] at h
          obtain ⟨htext, -, hrest⟩ := append_cons_inj (hcomma hxs.1) (hcomma hys.1) rfl rfl h
          rw [hxs.1.text_inj hys.1 htext, ih hxs.2 hys.2 (List.cons.inj hrest).2]

end Operand

/-! ### Names -/

/-- The operation of an instruction that is written with a name. -/
def Operation.ofName? (name : String) : Option Operation :=
  if name = "ret" ∨ name = "br" then some (.binary .mov) else ofMnemonic? name

/-- The operands of an instruction that is written with a name and a list of operands, unless it is a jump. -/
def Operands.ofSpelling? (name : String) (xs : List Operand) : Option Operands :=
  if name = "ret" then some (.two { mode := .autoincrement, reg := Register.sp } (Operand.ofRegister Register.pc))
  else
    match xs with
    | [x] => some (if name = "br" then .two x (Operand.ofRegister Register.pc) else .one x)
    | [x, y] => some (.two x y)
    | _ => none

theorem Operation.ofMnemonic?_mnemonic (op : Operation) : ofMnemonic? op.mnemonic = some op := by
  cases op with
  | unary op => cases op <;> decide
  | jump c => cases c <;> decide
  | binary op => cases op <;> decide

theorem Operation.all_isLower_mnemonic (op : Operation) : op.mnemonic.toList.all Char.isLower = true := by
  cases op with
  | unary op => cases op <;> decide
  | jump c => cases c <;> decide
  | binary op => cases op <;> decide

theorem Operation.mnemonic_ne (op : Operation) {name : String} (h : ofMnemonic? name = none) : op.mnemonic ≠ name := by
  rintro rfl
  rw [ofMnemonic?_mnemonic] at h
  cases h

/-- What follows a name: the width, a tab and the rest. -/
def Width.written (width : Width) (rest : List Char) : List Char :=
  match width with
  | word => '\t' :: rest
  | byte => '.' :: 'b' :: '\t' :: rest

theorem Width.written_inj {xs ys s t : List Char} {width width' : Width} (hxs : ∀ x ∈ xs, x.isLower = true)
    (hys : ∀ y ∈ ys, y.isLower = true) (h : xs ++ width.written s = ys ++ width'.written t) :
    xs = ys ∧ width = width' ∧ s = t := by
  cases width with
  | word =>
    cases width' with
    | word =>
      obtain ⟨hname, -, hrest⟩ := append_cons_inj hxs hys rfl rfl h
      exact ⟨hname, rfl, hrest⟩
    | byte =>
      obtain ⟨-, hmark, -⟩ := append_cons_inj hxs hys rfl rfl h
      cases hmark
  | byte =>
    cases width' with
    | word =>
      obtain ⟨-, hmark, -⟩ := append_cons_inj hxs hys rfl rfl h
      cases hmark
    | byte =>
      obtain ⟨hname, -, hrest⟩ := append_cons_inj hxs hys rfl rfl h
      simp only [List.cons.injEq, true_and] at hrest
      exact ⟨hname, rfl, hrest⟩

theorem offsetText_inj {d e : Int16} (h : offsetText d = offsetText e) : d = e := by
  have hlist (d : Int16) : (offsetText d).toList =
      '$' :: (if d.toInt < 0 then '-' else '+') :: Hex.digits d.toInt.natAbs := by
    rw [offsetText, String.toList_append, Hex.short, String.toList_ofList]
    split <;> rfl
  have hchars := congrArg String.toList h
  rw [hlist, hlist, List.cons.injEq, List.cons.injEq] at hchars
  obtain ⟨-, hsign, hdigits⟩ := hchars
  have habs := Hex.digits_injective hdigits
  apply Int16.toInt_inj.mp
  split_ifs at hsign with hd he he
  · omega
  · exact absurd hsign (by decide)
  · exact absurd hsign (by decide)
  · omega

namespace Instruction

theorem all_isLower_spelling (i : Instruction) : i.spelling.1.toList.all Char.isLower = true := by
  have hret : "ret".toList.all Char.isLower = true := by decide
  have hbr : "br".toList.all Char.isLower = true := by decide
  have hmov : "mov".toList.all Char.isLower = true := by decide
  rw [spelling]
  split
  · exact hret
  · split
    · split
      · exact hbr
      · exact hmov
    · exact i.operation.all_isLower_mnemonic

/-- An instruction is written by its own name and operands, unless it is a return or a branch. -/
theorem spelling_cases (i : Instruction) :
    (i.operation = .binary .mov ∧ i.spelling = ("ret", []) ∧
      i.operands = .two { mode := .autoincrement, reg := Register.sp } (Operand.ofRegister Register.pc)) ∨
    (∃ x, i.operation = .binary .mov ∧ i.spelling = ("br", [x]) ∧
      i.operands = .two x (Operand.ofRegister Register.pc)) ∨
    i.spelling = (i.operation.mnemonic, i.operands.toList) := by
  rw [spelling]
  split
  · next hreturn =>
    rw [isReturn, Bool.and_eq_true, beq_iff_eq, beq_iff_eq] at hreturn
    exact .inl ⟨hreturn.1, rfl, hreturn.2⟩
  · split
    · next x y hop hoperands =>
      split
      · next hy =>
        rw [hy] at hoperands
        exact .inr (.inl ⟨x, hop, rfl, hoperands⟩)
      · rw [hop, hoperands]
        exact .inr (.inr rfl)
    · exact .inr (.inr rfl)

theorem ofName?_spelling (i : Instruction) : Operation.ofName? i.spelling.1 = some i.operation := by
  rcases i.spelling_cases with ⟨hop, hname, -⟩ | ⟨x, hop, hname, -⟩ | hname
  · rw [hname, hop]
    rfl
  · rw [hname, hop]
    rfl
  · rw [hname, Operation.ofName?, if_neg, Operation.ofMnemonic?_mnemonic]
    rintro (h | h)
    · exact Operation.mnemonic_ne _ (by decide) h
    · exact Operation.mnemonic_ne _ (by decide) h

theorem ofSpelling?_spelling {i : Instruction} (hjump : ∀ d, i.operands ≠ .offset d) :
    Operands.ofSpelling? i.spelling.1 i.spelling.2 = some i.operands := by
  rcases i.spelling_cases with ⟨hop, hname, hoperands⟩ | ⟨x, hop, hname, hoperands⟩ | hname
  · rw [hname, hoperands]
    rfl
  · rw [hname, hoperands]
    rfl
  · have hret : i.operation.mnemonic ≠ "ret" := Operation.mnemonic_ne _ (by decide)
    have hbr : i.operation.mnemonic ≠ "br" := Operation.mnemonic_ne _ (by decide)
    cases hoperands : i.operands with
    | one x =>
      rw [hname, hoperands]
      exact (if_neg hret).trans (congrArg some (if_neg hbr))
    | offset d => exact absurd hoperands (hjump d)
    | two x y =>
      rw [hname, hoperands]
      exact if_neg hret

/-- What is written after the tab. -/
def detail (i : Instruction) : List Char :=
  match i.operands with
  | .offset d => (offsetText d).toList
  | .one _ | .two _ _ => Operand.listText i.spelling.2

theorem detail_of_ne_offset {i : Instruction} (hjump : ∀ d, i.operands ≠ .offset d) :
    i.detail = Operand.listText i.spelling.2 := by
  rw [detail]
  cases hoperands : i.operands with
  | one x => rfl
  | offset d => exact absurd hoperands (hjump d)
  | two x y => rfl

theorem detail_of_eq_offset {i : Instruction} {d : Int16} (h : i.operands = .offset d) :
    i.detail = (offsetText d).toList := by
  rw [detail, h]

theorem exists_offset_iff {i : Instruction} (h : i.operands.Suits i.operation) :
    (∃ d, i.operands = .offset d) ↔ ∃ c, i.operation = .jump c := by
  rcases shape_of_suits h with ⟨op, width, x, size, rfl⟩ | ⟨c, width, d, size, rfl⟩ | ⟨op, width, x, y, size, rfl⟩
  · exact ⟨fun ⟨d, hd⟩ => (by cases hd), fun ⟨c, hc⟩ => (by cases hc)⟩
  · exact ⟨fun _ => ⟨c, rfl⟩, fun _ => ⟨d, rfl⟩⟩
  · exact ⟨fun ⟨d, hd⟩ => (by cases hd), fun ⟨c, hc⟩ => (by cases hc)⟩

theorem spelling_of_offset {i : Instruction} {d : Int16} (h : i.operands = .offset d) :
    i.spelling.1 = i.operation.mnemonic := by
  rcases i.spelling_cases with ⟨-, -, htwo⟩ | ⟨x, -, -, htwo⟩ | hname
  · cases h.symm.trans htwo
  · cases h.symm.trans htwo
  · rw [hname]

theorem toList_text {i : Instruction} (hi : i.WellFormed) (a : UInt16) :
    (i.text a false).toList = i.spelling.1.toList ++ i.width.written i.detail := by
  have hother (xs : List Operand) :
      (i.spelling.1 ++ i.width.suffix ++ "\t" ++ ", ".intercalate (xs.map Operand.text)).toList =
        i.spelling.1.toList ++ i.width.written (Operand.listText xs) := by
    rw [String.toList_append, String.toList_append, String.toList_append, List.append_assoc, List.append_assoc]
    cases i.width <;> rfl
  rw [text, detail]
  cases hoperands : i.operands with
  | one x => exact hother _
  | offset d =>
    obtain ⟨c, hc⟩ := (exists_offset_iff hi.suits).mp ⟨d, hoperands⟩
    rw [spelling_of_offset hoperands, hi.width c hc]
    change (i.operation.mnemonic ++ "\t" ++ offsetText d ++ "").toList = _
    rw [String.append_empty, String.toList_append, String.toList_append, List.append_assoc]
    rfl
  | two x y => exact hother _

theorem mem_spelling {i : Instruction} (hi : i.WellFormed) : ∀ x ∈ i.spelling.2, x.WellFormed := by
  have hoperands := hi.operands
  rcases i.spelling_cases with ⟨-, hname, -⟩ | ⟨x, -, hname, htwo⟩ | hname
  · rw [hname]
    exact nofun
  · rw [htwo] at hoperands
    rw [hname, List.forall_mem_singleton]
    exact hoperands x (List.mem_cons_self ..)
  · rw [hname]
    exact hoperands

theorem operands_eq_of_detail_eq {i j : Instruction} (hi : i.WellFormed) (hj : j.WellFormed)
    (hop : i.operation = j.operation) (hname : i.spelling.1 = j.spelling.1) (h : i.detail = j.detail) :
    i.operands = j.operands := by
  by_cases hjump : ∃ d, i.operands = .offset d
  · obtain ⟨d, hd⟩ := hjump
    obtain ⟨e, he⟩ := (exists_offset_iff hj.suits).mpr (hop ▸ (exists_offset_iff hi.suits).mp ⟨d, hd⟩)
    rw [detail_of_eq_offset hd, detail_of_eq_offset he] at h
    rw [hd, he, offsetText_inj (String.toList_inj.mp h)]
  · have hjump' : ¬∃ d, j.operands = .offset d := by
      rwa [exists_offset_iff hj.suits, ← hop, ← exists_offset_iff hi.suits]
    rw [not_exists] at hjump hjump'
    rw [detail_of_ne_offset hjump, detail_of_ne_offset hjump'] at h
    have hlist := Operand.listText_inj (mem_spelling hi) (mem_spelling hj) h
    have hread := ofSpelling?_spelling hjump
    rw [hname, hlist, ofSpelling?_spelling hjump'] at hread
    exact (Option.some.inj hread).symm

theorem size_eq {i j : Instruction} (hi : i.WellFormed) (hj : j.WellFormed) (hop : i.operation = j.operation)
    (hwidth : i.width = j.width) (hoperands : i.operands = j.operands) {ws : List UInt16} (hws : i.encode? = some ws) :
    i.size = j.size := by
  have hws' : j.encode? = some ws := by
    rw [← hws, encode?, encode?, hop, hwidth, hoperands]
  apply UInt16.toNat_inj.mp
  rw [hi.size ws hws, hj.size ws hws']

/-- No two instructions are written alike. -/
theorem eq_of_text_eq {m n : Memory} {a b c d : UInt16} {i j : Instruction} (hi : decode m a = .ok i)
    (hj : decode n b = .ok j) (h : i.text c false = j.text d false) : i = j := by
  obtain ⟨hwfi, -, w, rest, hws, -⟩ := decode_eq_ok_iff.mp hi
  have hwfj := (decode_eq_ok_iff.mp hj).1
  have htext := congrArg String.toList h
  rw [toList_text hwfi, toList_text hwfj] at htext
  obtain ⟨hname, hwidth, hdetail⟩ := Width.written_inj (List.all_eq_true.mp i.all_isLower_spelling)
    (List.all_eq_true.mp j.all_isLower_spelling) htext
  replace hname := String.toList_inj.mp hname
  have hop : i.operation = j.operation := by
    have hread := i.ofName?_spelling
    rw [hname, j.ofName?_spelling] at hread
    exact (Option.some.inj hread).symm
  have hoperands := operands_eq_of_detail_eq hwfi hwfj hop hname hdetail
  have hsize := size_eq hwfi hwfj hop hwidth hoperands hws
  obtain ⟨op, width, operands, size⟩ := i
  obtain ⟨op', width', operands', size'⟩ := j
  simp only at hop hwidth hoperands hsize
  rw [hop, hwidth, hoperands, hsize]

/-- Two words that differ in bits that tell nothing are written alike, as `push -7ffc(sp)`, and are one instruction. -/
theorem eq_of_text_eq_push :
    let m := Memory.zero.writeWords 0x4400 [0x1211, 0x8004, 0x1e11, 0x8004]
    m.readWord 0x4400 ≠ m.readWord 0x4404 ∧
      ∃ i j, decode m 0x4400 = .ok i ∧ decode m 0x4404 = .ok j ∧ i.text 0x4400 false = "push\t-7ffc(sp)" ∧
        j.text 0x4404 false = "push\t-7ffc(sp)" ∧ i = j := by
  intro m
  let i : Instruction := ⟨.unary .push, .word, .one ⟨.indexed, Register.sp, some 0x8004⟩, 4⟩
  have hi : decode m 0x4400 = .ok i := by decide +kernel
  have hj : decode m 0x4404 = .ok i := by decide +kernel
  have htexti : i.text 0x4400 false = "push\t-7ffc(sp)" := by decide +kernel
  have htextj : i.text 0x4404 false = "push\t-7ffc(sp)" := by decide +kernel
  exact ⟨by decide +kernel, i, i, hi, hj, htexti, htextj, eq_of_text_eq hi hj (htexti.trans htextj.symm)⟩

end Instruction

end MicroDebug

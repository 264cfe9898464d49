import MicroDebug.Expression.Assignment
import MicroDebug.Proofs.Expression.Evaluation
import MicroDebug.Proofs.Register.Flags

/-! What an assignment stores. Its value and its address are those of the trees it was written as, in the state before,
    and the place assigned to holds what is left of the value modulo the size of the place. All else stays as it was. -/

namespace MicroDebug

/-- The second program is the first one after a value has been assigned to the target. An address may be of any size. -/
inductive Target.Assigned (p : Processor) : Target → Value → Processor → Prop
  | register {span : Span} {text : String} {r : Register} {n : Int} {q : Processor} {w : UInt16}
      (hname : Register.ofName? text = some r)
      (hvalue : (w.toNat : Int) = n % 65536)
      (hregisters : ∀ s, q.registers.get s =
        if Registers.slot s = Registers.slot r then w else p.registers.get s)
      (hrest : q = { p with registers := q.registers }) :
      Assigned p (.name span text) (.int n) q
  | flag {span : Span} {text : String} {f : Flag} {b : Bool} {q : Processor}
      (hregister : Register.ofName? text = none)
      (hname : Flag.ofName? text = some f)
      (hbits : ∀ i, q.registers.sr.toNat.testBit i =
        if f.mask.toNat.testBit i then b else p.registers.sr.toNat.testBit i)
      (hregisters : ∀ s, Registers.slot s ≠ Registers.slot Register.sr → q.registers.get s = p.registers.get s)
      (hrest : q = { p with registers := q.registers }) :
      Assigned p (.name span text) (.bool b) q
  | word {span viewSpan : Span} {address : Expr} {a n : Int} {q : Processor}
      (haddress : address.value? p = some (.int a))
      (hlow : Expr.byteAt q.memory a = n % 256)
      (hhigh : Expr.byteAt q.memory (a + 1) = n / 256 % 256)
      (hbytes : ∀ c, c % 65536 ≠ a % 65536 → c % 65536 ≠ (a + 1) % 65536 →
        Expr.byteAt q.memory c = Expr.byteAt p.memory c)
      (hrest : q = { p with memory := q.memory }) :
      Assigned p (.index span "mem" viewSpan address) (.int n) q
  | byte {span viewSpan : Span} {address : Expr} {a n : Int} {q : Processor}
      (haddress : address.value? p = some (.int a))
      (hbyte : Expr.byteAt q.memory a = n % 256)
      (hbytes : ∀ c, c % 65536 ≠ a % 65536 → Expr.byteAt q.memory c = Expr.byteAt p.memory c)
      (hrest : q = { p with memory := q.memory }) :
      Assigned p (.index span "byte" viewSpan address) (.int n) q

/-! ### Integers cut to a size -/

namespace Value

theorem toNat_wrapWord (n : Int) : ((wrapWord n).toNat : Int) = n % 65536 := by
  rw [wrapWord, UInt16.toNat_ofNat']
  omega

theorem toNat_wrapWord_low (n : Int) : ((wrapWord n).toUInt8.toNat : Int) = n % 256 := by
  have hword := toNat_wrapWord n
  rw [UInt16.toNat_toUInt8]
  omega

theorem toNat_wrapWord_high (n : Int) : ((wrapWord n >>> 8).toUInt8.toNat : Int) = n / 256 % 256 := by
  have hword := toNat_wrapWord n
  rw [UInt16.toNat_toUInt8, UInt16.toNat_shiftRight]
  change (((wrapWord n).toNat >>> 8 % 256 : Nat) : Int) = _
  rw [Nat.shiftRight_eq_div_pow]
  omega

theorem wrapWord_eq_iff {a c : Int} : wrapWord a = wrapWord c ↔ c % 65536 = a % 65536 := by
  rw [← UInt16.toNat_inj, ← Int.ofNat_inj, toNat_wrapWord, toNat_wrapWord]
  exact eq_comm

end Value

namespace Expr

theorem byteAt_writeByte (m : Memory) (a c : Int) (b : UInt8) :
    byteAt (m.writeByte (Value.wrapWord a) b) c =
      if c % 65536 = a % 65536 then (b.toNat : Int) else byteAt m c := by
  have hread := m.readByte_writeByte (Value.wrapWord a) (Value.wrapWord c) b
  rw [byteAt, byteAt]
  change (((m.writeByte (Value.wrapWord a) b).readByte (Value.wrapWord c)).toNat : Int) = _
  rw [hread]
  simp only [Value.wrapWord_eq_iff]
  split <;> rfl

theorem byteAt_writeWord (m : Memory) (a c : Int) (w : UInt16) :
    byteAt (m.writeWord (Value.wrapWord a) w) c =
      if c % 65536 = (a + 1) % 65536 then ((w >>> 8).toUInt8.toNat : Int)
      else if c % 65536 = a % 65536 then (w.toUInt8.toNat : Int) else byteAt m c := by
  rw [Memory.writeWord, ← wrapWord_add_one, byteAt_writeByte, byteAt_writeByte]

theorem Computes.evaluate? {p : Processor} {code : Postfix} {v : Value} (h : Computes p code.ops v) :
    code.evaluate? p = some v := by
  rw [Postfix.evaluate?, h []]

end Expr

theorem Registers.testBit_sr_setFlag (rs : Registers) (f : Flag) (on : Bool) (i : Nat) :
    (rs.setFlag f on).sr.toNat.testBit i = if f.mask.toNat.testBit i then on else rs.sr.toNat.testBit i := by
  have hbit (w : UInt16) : w.toNat.testBit i = w.toBitVec.getLsbD i := BitVec.testBit_toNat w.toBitVec
  have hbound (w : UInt16) : w.toBitVec.getLsbD i = true → i < 16 := BitVec.lt_of_getLsbD
  have hmask := hbound f.mask
  have hsr := hbound rs.sr
  simp only [sr_setFlag, hbit]
  cases on <;> simp only [Bool.false_eq_true, if_false, if_true, UInt16.toBitVec_and, UInt16.toBitVec_or,
    UInt16.toBitVec_not, BitVec.getLsbD_and, BitVec.getLsbD_or, BitVec.getLsbD_not]
  all_goals
    cases f.mask.toBitVec.getLsbD i <;> cases hon : rs.sr.toBitVec.getLsbD i <;> simp_all

/-! ### Targets -/

namespace Assignment

theorem checkTarget_cases {target : Target} {store : Store} (h : checkTarget target = .ok store) :
    (∃ span text r, target = .name span text ∧ Register.ofName? text = some r ∧ store = .register r) ∨
    (∃ span text f, target = .name span text ∧ Register.ofName? text = none ∧ Flag.ofName? text = some f ∧
      store = .flag f) ∨
    ∃ span view viewSpan address a, target = .index span (MemoryView.name view) viewSpan address ∧
      address.compile = .ok a ∧ a.type = .int ∧ store = .memory view a := by
  cases target with
  | name span text =>
    rw [checkTarget] at h
    split at h
    · next r hr =>
      cases h
      exact .inl ⟨span, text, r, rfl, hr, rfl⟩
    · next f hr hf =>
      cases h
      exact .inr (.inl ⟨span, text, f, rfl, hr, hf, rfl⟩)
    · cases h
  | index span view viewSpan address =>
    rw [checkTarget] at h
    split at h
    · cases h
    next v hview =>
    split at h
    · cases h
    next a ha =>
    split at h
    · next htype =>
      cases h
      obtain rfl := MemoryView.ofName?_eq_some_iff.mp hview
      exact .inr (.inr ⟨span, v, viewSpan, address, a, rfl, ha, htype, rfl⟩)
    · cases h

/-- A value of the type that the target takes is stored as it says. -/
theorem exists_put {target : Target} {store : Store} (h : checkTarget target = .ok store) {v : Value}
    (hv : v.type = store.type) (p : Processor) : ∃ q, put p v store = some q ∧ target.Assigned p v q := by
  obtain ⟨span, text, r, rfl, hr, rfl⟩ | ⟨span, text, f, rfl, hr, hf, rfl⟩ |
    ⟨span, view, viewSpan, address, a, rfl, ha, htype, rfl⟩ := checkTarget_cases h
  · cases v with
    | bool b => cases hv
    | int n =>
      refine ⟨_, rfl, .register hr (Value.toNat_wrapWord n) (fun s => ?_) rfl⟩
      rw [Processor.setRegister, Registers.get_set]
      simp only [eq_comm]
  · cases v with
    | int n => cases hv
    | bool b =>
      exact ⟨_, rfl, .flag hr hf (p.registers.testBit_sr_setFlag f b)
        (fun s hs => p.registers.get_setFlag (Ne.symm hs) f b) rfl⟩
  · cases v with
    | bool b => cases hv
    | int n =>
      obtain ⟨w, haddress, hwtype, hcomp⟩ := Expr.computes_of_check p (Expr.compile_eq_ok_iff.mp ha)
      cases w with
      | bool b => exact absurd (hwtype.trans htype) nofun
      | int i =>
        have hput : put p (.int n) (.memory view a) =
            some (p.setMemory (view.write p.memory (Value.wrapWord i) (Value.wrapWord n))) := by
          simp only [put, hcomp.evaluate?]
        refine ⟨_, hput, ?_⟩
        cases view with
        | byte =>
          refine .byte haddress ?_ (fun c hc => ?_) rfl
          · exact (Expr.byteAt_writeByte _ _ _ _).trans ((if_pos rfl).trans (Value.toNat_wrapWord_low n))
          · exact (Expr.byteAt_writeByte _ _ _ _).trans (if_neg hc)
        | word =>
          have hapart : i % 65536 ≠ (i + 1) % 65536 := by omega
          refine .word haddress ?_ ?_ (fun c hc hc' => ?_) rfl
          · refine (Expr.byteAt_writeWord _ _ _ _).trans ?_
            rw [if_neg hapart, if_pos rfl, Value.toNat_wrapWord_low]
          · exact (Expr.byteAt_writeWord _ _ _ _).trans ((if_pos rfl).trans (Value.toNat_wrapWord_high n))
          · exact (Expr.byteAt_writeWord _ _ _ _).trans ((if_neg hc').trans (if_neg hc))

/-- An assignment that a text writes has a value of the type that its target takes, and leaves a program with the value
    stored there and nothing else changed. -/
theorem perform?_ofSource {source : String} {x : Assignment} (h : ofSource source = .ok x) (p : Processor) :
    ∃ target e v q, (Token.ofSource source).bind Parser.parseAssignment = .ok (target, e) ∧
      e.value? p = some v ∧ v.type = x.target.type ∧ x.perform? p = some q ∧ target.Assigned p v q := by
  rw [ofSource] at h
  split at h
  · cases h
  next target e hparse =>
  rw [compile] at h
  split at h
  · cases h
  next code hcode =>
  split at h
  · cases h
  next store hstore =>
  split at h
  · next htype =>
    cases h
    obtain ⟨v, hvalue, hvtype, hcomp⟩ := Expr.computes_of_check p (Expr.compile_eq_ok_iff.mp hcode)
    obtain ⟨q, hput, hassigned⟩ := exists_put hstore (hvtype.trans htype) p
    exact ⟨target, e, v, q, hparse, hvalue, hvtype.trans htype, by rw [perform?, hcomp.evaluate?]; exact hput,
      hassigned⟩
  · cases h

/-- The word across the end of memory says where to store, which is where it lies itself. -/
theorem perform?_ofSource_across_end :
    let source := "mem[mem[0 - 1]] = 0 - 70000"
    let address : Postfix := { ops := [.push (.int (-1)), .read .word], type := .int }
    let x : Assignment := { target := .memory .word address, value := { ops := [.push (.int (-70000))], type := .int } }
    let p := Processor.start (Memory.zero.writeWord 0xffff 0xffff)
    ofSource source = .ok x ∧
      ∃ target e v q, (Token.ofSource source).bind Parser.parseAssignment = .ok (target, e) ∧
        e.value? p = some v ∧ v.type = .int ∧ x.perform? p = some q ∧ target.Assigned p v q ∧
        q.memory.readByte 0xffff = 0x90 ∧ q.memory.readByte 0 = 0xee := by
  intro source address x p
  have hx : ofSource source = .ok x := by decide +kernel
  have hbytes : (x.perform? p).map (fun q => (q.memory.readByte 0xffff, q.memory.readByte 0)) = some (0x90, 0xee) := by
    decide +kernel
  obtain ⟨target, e, v, q, hparse, hvalue, htype, hq, hassigned⟩ := perform?_ofSource hx p
  rw [hq] at hbytes
  obtain ⟨hlow, hhigh⟩ := Prod.mk.inj (Option.some.inj hbytes)
  exact ⟨hx, target, e, v, q, hparse, hvalue, htype, hq, hassigned, hlow, hhigh⟩

end Assignment
end MicroDebug

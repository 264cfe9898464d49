import MicroDebug.Proofs.Memory.Bytes
import MicroDebug.Proofs.Memory.Words

/-! Memory as the bytes that were written last. A word is written as its two bytes and read as them, also across the end
    of memory, so after any history of writes every byte is the one that was last written at its address. The bytes of
    all addresses in a row are an image, and loading it gives the same memory again. -/

namespace MicroDebug.Memory

/-! ### Histories -/

/-- A write of a byte or of a word at an address. -/
inductive Write where
  | byte (a : UInt16) (b : UInt8)
  | word (a w : UInt16)

namespace Write

/-- The bytes that are written, with their addresses. -/
def bytes : Write → List (UInt16 × UInt8)
  | byte a b => [(a, b)]
  | word a w => [(a, UInt8.ofNat (w.toNat % 256)), (a + 1, UInt8.ofNat (w.toNat / 256))]

def apply (m : Memory) : Write → Memory
  | byte a b => m.writeByte a b
  | word a w => m.writeWord a w

end Write

/-- The memory after writes one after another. -/
def written (m : Memory) (writes : List Write) : Memory := writes.foldl Write.apply m

/-- The byte that was last written at an address, if any was. -/
def lastByte? (a : UInt16) (writes : List Write) : Option UInt8 := (writes.flatMap Write.bytes).reverse.lookup a

theorem toUInt8_eq (w : UInt16) : w.toUInt8 = UInt8.ofNat (w.toNat % 256) := by
  rw [← UInt8.toNat_inj, UInt16.toNat_toUInt8, UInt8.toNat_ofNat']
  omega

theorem shiftRight_toUInt8_eq (w : UInt16) : (w >>> 8).toUInt8 = UInt8.ofNat (w.toNat / 256) := by
  rw [← UInt8.toNat_inj, UInt16.toNat_toUInt8, UInt8.toNat_ofNat', UInt16.toNat_shiftRight]
  change (w.toNat >>> 8) % 256 = w.toNat / 256 % 256
  rw [Nat.shiftRight_eq_div_pow]

theorem lookup_cons_getD (a c : UInt16) (b d : UInt8) (rest : List (UInt16 × UInt8)) :
    (((c, b) :: rest).lookup a).getD d = if c = a then b else (rest.lookup a).getD d := by
  rw [List.lookup_cons]
  by_cases h : a = c
  · rw [if_pos h.symm, beq_iff_eq.mpr h]
    rfl
  · rw [if_neg (Ne.symm h), beq_eq_false_iff_ne.mpr h]

theorem readByte_apply (m : Memory) (x : Write) (a : UInt16) :
    (x.apply m).readByte a = (x.bytes.reverse.lookup a).getD (m.readByte a) := by
  cases x with
  | byte c b =>
    change (m.writeByte c b).readByte a = ([(c, b)].lookup a).getD (m.readByte a)
    rw [readByte_writeByte, lookup_cons_getD]
    rfl
  | word c w =>
    change (m.writeWord c w).readByte a = ([(c + 1, UInt8.ofNat (w.toNat / 256)),
      (c, UInt8.ofNat (w.toNat % 256))].lookup a).getD (m.readByte a)
    rw [writeWord, readByte_writeByte, readByte_writeByte, shiftRight_toUInt8_eq, toUInt8_eq, lookup_cons_getD,
      lookup_cons_getD]
    rfl

theorem readByte_written (m : Memory) (writes : List Write) (a : UInt16) :
    (m.written writes).readByte a = (lastByte? a writes).getD (m.readByte a) := by
  induction writes generalizing m with
  | nil => rfl
  | cons x writes ih =>
    change ((x.apply m).written writes).readByte a = _
    rw [ih, readByte_apply, lastByte?, lastByte?, List.flatMap_cons, List.reverse_append, List.lookup_append]
    cases (writes.flatMap Write.bytes).reverse.lookup a with
    | none => rfl
    | some b => rfl

/-! ### Images -/

theorem length_dump (m : Memory) : m.dump.length = size := by
  rw [dump, List.length_map, List.length_range]

theorem getElem_dump (m : Memory) {i : Nat} (h : i < m.dump.length) : m.dump[i] = m.readByte (UInt16.ofNat i) := by
  simp only [dump, List.getElem_map, List.getElem_range]

theorem ofImage_dump (m : Memory) : ofImage m.dump = .ok m := by
  have hlength := m.length_dump
  have hlands := zero.lands_writeBytes 0 (Nat.le_of_eq hlength)
  rw [ofImage, if_pos (Nat.le_of_eq hlength)]
  refine congrArg Except.ok (ext fun a => ?_)
  have ha : a.toNat < m.dump.length := by
    rw [hlength]
    exact a.toNat_lt
  have hstored := hlands.stored a.toNat ha
  rwa [getElem_dump, UInt16.ofNat_toNat, UInt16.zero_add] at hstored

theorem dump_of_lands {image : List UInt8} {m : Memory} (h : zero.Lands 0 image m) (hlength : image.length ≤ size) :
    m.dump = image ++ List.replicate (size - image.length) 0 := by
  have hsize : (image ++ List.replicate (size - image.length) 0).length = size := by
    rw [List.length_append, List.length_replicate]
    omega
  refine List.ext_getElem (m.length_dump.trans hsize.symm) fun i hi hi' => ?_
  rw [length_dump] at hi
  rw [getElem_dump]
  by_cases hin : i < image.length
  · have hstored := h.stored i hin
    rw [UInt16.zero_add] at hstored
    rw [hstored, List.getElem_append_left hin]
  · rw [List.getElem_append_right (Nat.le_of_not_lt hin), List.getElem_replicate]
    refine (h.elsewhere _ fun j hj heq => ?_).trans (readByte_zero _)
    have hnat := congrArg UInt16.toNat heq
    rw [UInt16.zero_add, UInt16.toNat_ofNat', UInt16.toNat_ofNat'] at hnat
    rw [size] at hi hlength
    change i % 65536 = j % 65536 at hnat
    omega

/-- An image is loaded unless it is longer than memory, and dumped again with zeros after it. Any memory is loaded from
    its own dump, and whatever has been written to it, each byte is the last one written there and each word is made of
    two bytes. -/
theorem dump_loads_back :
    (∀ image : List UInt8,
      65536 < image.length ∧ ofImage image = .error (.oversized image.length) ∨
        image.length ≤ 65536 ∧ ∃ m, ofImage image = .ok m ∧
          m.dump = image ++ List.replicate (65536 - image.length) 0) ∧
      ∀ (start : Memory) (writes : List Write),
        (start.written writes).dump.length = 65536 ∧
          ofImage (start.written writes).dump = .ok (start.written writes) ∧
          (∀ a, (start.written writes).readByte a = (lastByte? a writes).getD (start.readByte a)) ∧
          ∀ a, ((start.written writes).readWord a).toNat =
            ((start.written writes).readByte a).toNat + 256 * ((start.written writes).readByte (a + 1)).toNat := by
  constructor
  · intro image
    rcases Nat.lt_or_ge size image.length with hlong | hlength
    · exact .inl ⟨hlong, if_neg (Nat.not_le_of_lt hlong)⟩
    · exact .inr ⟨hlength, _, if_pos hlength, dump_of_lands (zero.lands_writeBytes 0 hlength) hlength⟩
  · intro start writes
    exact ⟨length_dump _, ofImage_dump _, readByte_written start writes, toNat_readWord _⟩

end MicroDebug.Memory

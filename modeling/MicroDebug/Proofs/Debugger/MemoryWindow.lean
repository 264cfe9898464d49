import Mathlib.Data.List.Sort
import MicroDebug.Debugger.View
import MicroDebug.Proofs.Text.Hex

/-! The memory that is shown around an address. The window of an address begins sixteen bytes before it and ends with
    the fifteenth byte after it, as far as memory goes, and a line shows its bytes two by two with the one at the
    address marked. What is shown is the window without the last byte of memory. So it is all of the window for the
    addresses whose windows end before that byte, and the byte at the address is shown for all addresses but the
    last. -/

namespace MicroDebug
namespace View

/-- The addresses in the window around `a`, in order. -/
def window (a : UInt16) : List Nat :=
  (List.range Memory.size).filter fun b => a.toNat ≤ b + 16 ∧ b < a.toNat + 16

/-- Texts two by two, with a space before each pair. -/
def inPairs : List String → String
  | [] => ""
  | [x] => " " ++ x
  | x :: y :: rest => " " ++ x ++ y ++ inPairs rest

/-- The byte at `b` as it is shown around `a`: in two digits, marked if it is the one at `a`. -/
def shownByte (m : Memory) (a : UInt16) (colours : Bool) (b : Nat) : String :=
  let digits := Hex.byte (m.readByte (UInt16.ofNat b))
  if b = a.toNat then paint colours .red digits else digits

/-- A line with the bytes at some addresses, after the first of the addresses. -/
def bytesText (m : Memory) (a : UInt16) (colours : Bool) (bs : List Nat) : String :=
  Hex.short (bs.headD 0) ++ ":" ++ inPairs (bs.map (shownByte m a colours)) ++ "\n"

/-! ### Addresses -/

/-- What a list of numbers in order holds between two bounds. -/
theorem filter_range_eq_range' {p : Nat → Prop} [DecidablePred p] {n lo hi : Nat}
    (h : ∀ b, b < n ∧ p b ↔ lo ≤ b ∧ b < hi) :
    (List.range n).filter p = List.range' lo (hi - lo) := by
  refine List.Pairwise.eq_of_mem_iff (r := (· < ·)) (List.pairwise_lt_range.filter _) List.pairwise_lt_range'
    fun b => ?_
  rw [List.mem_filter, List.mem_range, List.mem_range'_1, decide_eq_true_iff, h b]
  omega

theorem window_eq (a : UInt16) :
    window a = List.range' (windowStart a) (min (a.toNat + 16) Memory.size - windowStart a) := by
  refine filter_range_eq_range' fun b => ?_
  rw [windowStart, radius]
  omega

/-- The window without the last byte of memory ends before it. -/
theorem window_filter_eq (a : UInt16) :
    (window a).filter (· ≠ 0xffff) = List.range' (windowStart a) (windowStop a - windowStart a) := by
  rw [window, List.filter_filter]
  simp only [← Bool.decide_and]
  refine filter_range_eq_range' fun b => ?_
  rw [windowStart, windowStop, radius, Memory.size]
  omega

theorem toNat_mem_window (a : UInt16) : a.toNat ∈ window a := by
  rw [window, List.mem_filter, List.mem_range, decide_eq_true_iff]
  exact ⟨a.toNat_lt, by omega⟩

theorem last_mem_window_iff (a : UInt16) : 0xffff ∈ window a ↔ 0xffff < a.toNat + 16 := by
  have ha := a.toNat_lt
  rw [window, List.mem_filter, List.mem_range, decide_eq_true_iff, Memory.size]
  omega

/-- If the window holds the last byte of memory, it is the last one there. -/
theorem window_eq_concat {a : UInt16} (h : 0xffff < a.toNat + 16) :
    window a = (window a).filter (· ≠ 0xffff) ++ [0xffff] := by
  have ha := a.toNat_lt
  rw [window_filter_eq, window_eq, windowStart, windowStop, radius, Memory.size, Nat.min_eq_right (by omega),
    Nat.min_eq_right (by omega), show 65536 - (a.toNat - 16) = 0xffff - (a.toNat - 16) + 1 by omega,
    List.range'_1_concat, show a.toNat - 16 + (0xffff - (a.toNat - 16)) = 0xffff by omega]

/-! ### Texts -/

theorem inPairs_concat (xs : List String) (x : String) :
    inPairs (xs ++ [x]) = inPairs xs ++ ((if xs.length % 2 = 0 then " " else "") ++ x) := by
  induction xs using inPairs.induct with
  | case1 => rfl
  | case2 y => simp [inPairs, String.append_assoc]
  | case3 y z rest ih =>
    have hparity : (y :: z :: rest).length % 2 = rest.length % 2 := by
      rw [List.length_cons, List.length_cons]
      omega
    rw [hparity, List.cons_append, List.cons_append, inPairs, inPairs, ih]
    simp only [String.append_assoc]

/-- Texts for the numbers below `n`, each even one after a space, are in pairs. -/
theorem join_range_eq_inPairs (f : Nat → String) (n : Nat) :
    String.join ((List.range n).map fun i => (if i % 2 = 0 then " " else "") ++ f i) =
      inPairs ((List.range n).map f) := by
  induction n with
  | zero => rfl
  | succ n ih =>
    have hlength : ((List.range n).map f).length = n := by rw [List.length_map, List.length_range]
    rw [List.range_succ, List.map_append, List.map_append, List.map_singleton, List.map_singleton, inPairs_concat,
      hlength, ← ih]
    apply String.toList_injective
    simp

theorem memory_eq (m : Memory) (a : UInt16) (colours : Bool) :
    memory m a colours = bytesText m a colours ((window a).filter (· ≠ 0xffff)) := by
  have hpos : 0 < windowStop a - windowStart a := by
    have ha := a.toNat_lt
    rw [windowStart, windowStop, radius]
    omega
  have hhead : (List.range' (windowStart a) (windowStop a - windowStart a)).headD 0 = windowStart a := by
    rw [← Nat.succ_pred_eq_of_pos hpos, List.range'_succ, List.headD_cons]
  have hbytes : (List.range' (windowStart a) (windowStop a - windowStart a)).map (shownByte m a colours) =
      (List.range (windowStop a - windowStart a)).map fun i => shownByte m a colours (windowStart a + i) := by
    rw [List.range'_eq_map_range, List.map_map]
    rfl
  rw [bytesText, window_filter_eq, hhead, hbytes, ← join_range_eq_inPairs]
  rfl

theorem length_shownByte_pos (m : Memory) (a : UInt16) (colours : Bool) (b : Nat) :
    0 < (shownByte m a colours b).length := by
  have hdigits : 0 < (Hex.byte (m.readByte (UInt16.ofNat b))).length := by
    rw [Hex.byte, Hex.padded, String.length_ofList, Hex.paddedDigits, List.leftpad, List.length_append]
    exact Nat.add_pos_right _ (List.length_pos_iff.mpr (Hex.digits_ne_nil _))
  have hpaint (text : String) : text.length ≤ (paint colours .red text).length := by
    rw [paint]
    split
    · simp only [String.length_append]
      omega
    · exact Nat.le_refl _
  rw [shownByte]
  split
  · exact Nat.lt_of_lt_of_le hdigits (hpaint _)
  · exact hdigits

/-- One more byte makes the line longer. -/
theorem length_bytesText_lt (m : Memory) (a : UInt16) (colours : Bool) {bs : List Nat} (hbs : bs ≠ []) (b : Nat) :
    (bytesText m a colours bs).length < (bytesText m a colours (bs ++ [b])).length := by
  have hhead : (bs ++ [b]).headD 0 = bs.headD 0 := by
    obtain ⟨c, cs, rfl⟩ := List.exists_cons_of_ne_nil hbs
    rfl
  have hbyte := length_shownByte_pos m a colours b
  rw [bytesText, bytesText, hhead, List.map_append, List.map_singleton, inPairs_concat]
  simp only [String.length_append]
  omega

/-- What is shown around an address is its window without the last byte of memory, after the address of its first byte.
    That is all of the window exactly for the addresses whose windows end before that byte, and the byte at the address
    is shown exactly for the addresses other than the last one. -/
theorem memory_shows_window (m : Memory) (a : UInt16) (colours : Bool) :
    memory m a colours = bytesText m a colours ((window a).filter (· ≠ 0xffff)) ∧
      (memory m a colours = bytesText m a colours (window a) ↔ a.toNat + 16 ≤ 0xffff) ∧
      (a.toNat ∈ (window a).filter (· ≠ 0xffff) ↔ a ≠ 0xffff) := by
  refine ⟨memory_eq m a colours, ?_, ?_⟩
  · rw [memory_eq]
    by_cases hend : a.toNat + 16 ≤ 0xffff
    · have hall : (window a).filter (· ≠ 0xffff) = window a := by
        refine List.filter_eq_self.mpr fun b hb => decide_eq_true ?_
        rintro rfl
        exact absurd ((last_mem_window_iff a).mp hb) (Nat.not_lt.mpr hend)
      exact iff_of_true (congrArg _ hall) hend
    · refine iff_of_false (fun heq => ?_) hend
      have hne : (window a).filter (· ≠ 0xffff) ≠ [] := by
        rw [window_filter_eq, Ne, List.range'_eq_nil_iff, windowStart, windowStop, radius]
        have ha := a.toNat_lt
        omega
      have hlength := length_bytesText_lt m a colours hne 0xffff
      rw [← window_eq_concat (Nat.lt_of_not_le hend), ← heq] at hlength
      exact Nat.lt_irrefl _ hlength
  · rw [List.mem_filter, and_iff_right (toNat_mem_window a), decide_eq_true_iff]
    exact not_congr (UInt16.toNat_inj (b := 0xffff))

/-- Around the last address, sixteen of the seventeen bytes of its window are shown, and the byte there is not. -/
theorem memory_lacks_last_byte :
    let m := Memory.zero.writeByte 0xffff 0x44
    window 0xffff = List.range' 0xffef 17 ∧ (0xffff : UInt16).toNat ∈ window 0xffff ∧
      bytesText m 0xffff false (window 0xffff) = "ffef: 0000 0000 0000 0000 0000 0000 0000 0000 44\n" ∧
      memory m 0xffff false = "ffef: 0000 0000 0000 0000 0000 0000 0000 0000\n" := by
  intro m
  refine ⟨window_eq 0xffff, toNat_mem_window 0xffff, ?_, by decide +kernel⟩
  rw [window_eq]
  decide +kernel

end View
end MicroDebug

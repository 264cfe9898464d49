import MicroDebug.Memory.Basic
import Mathlib.Data.UInt

/-! Words in memory. A word that is written is read back from the same place, a run of words that is written
    is found again word by word, and whether memory holds a run of words depends on the bytes of that run
    alone. -/

namespace MicroDebug.Memory

/-! ### One word -/

theorem toNat_add_one_of_ne_last {a : UInt16} (h : a ≠ 0xffff) : (a + 1).toNat = a.toNat + 1 := by
  have hne : a.toNat ≠ 65535 := fun heq => h (UInt16.toNat_inj.mp heq)
  have hlt := a.toNat_lt
  rw [UInt16.toNat_add]
  change (a.toNat + 1) % 65536 = a.toNat + 1
  omega

/-- The word at the last address goes on at the first, and any other goes on at the next one. -/
theorem readWord_eq_ite (m : Memory) (a : UInt16) :
    m.readWord a =
      if a = 0xffff then (m.bank.get 0xffff).toUInt16 ||| ((m.bank.get 0).toUInt16 <<< 8)
      else (m.bank.get a.toNat).toUInt16 ||| ((m.bank.get (a.toNat + 1)).toUInt16 <<< 8) := by
  split
  · next h =>
    subst h
    rfl
  · next h => rw [readWord, readByte, readByte, toNat_add_one_of_ne_last h]

theorem writeWord_eq_ite (m : Memory) (a w : UInt16) :
    m.writeWord a w =
      if a = 0xffff then ⟨(m.bank.set 0xffff w.toUInt8).set 0 (w >>> 8).toUInt8⟩
      else ⟨(m.bank.set a.toNat w.toUInt8).set (a.toNat + 1) (w >>> 8).toUInt8⟩ := by
  split
  · next h =>
    subst h
    rfl
  · next h => rw [writeWord, writeByte, writeByte, toNat_add_one_of_ne_last h]

/-- The two bytes of a word make it up. -/
theorem toNat_readWord (m : Memory) (a : UInt16) :
    (m.readWord a).toNat = (m.readByte a).toNat + 256 * (m.readByte (a + 1)).toNat := by
  have hlow := (m.readByte a).toNat_lt
  have hhigh := (m.readByte (a + 1)).toNat_lt
  have hshift : ((m.readByte (a + 1)).toNat <<< 8) % 65536 = 2 ^ 8 * (m.readByte (a + 1)).toNat := by
    rw [Nat.shiftLeft_eq]
    omega
  rw [readWord, UInt16.toNat_or, UInt16.toNat_shiftLeft, UInt8.toNat_toUInt16, UInt8.toNat_toUInt16]
  change (m.readByte a).toNat ||| ((m.readByte (a + 1)).toNat <<< 8) % 65536 = _
  rw [hshift, Nat.or_comm, ← Nat.two_pow_add_eq_or_of_lt (by omega : (m.readByte a).toNat < 2 ^ 8)]
  omega

theorem readWord_congr {m n : Memory} {a : UInt16} (h₀ : m.readByte a = n.readByte a)
    (h₁ : m.readByte (a + 1) = n.readByte (a + 1)) : m.readWord a = n.readWord a := by
  rw [readWord, readWord, h₀, h₁]

theorem readByte_writeWord_of_ne (m : Memory) {a c : UInt16} (w : UInt16) (h₀ : a ≠ c) (h₁ : a + 1 ≠ c) :
    (m.writeWord a w).readByte c = m.readByte c := by
  rw [writeWord, readByte_writeByte, if_neg h₁, readByte_writeByte, if_neg h₀]

theorem readWord_writeWord (m : Memory) (a w : UInt16) : (m.writeWord a w).readWord a = w := by
  have hne : a + 1 ≠ a := by grind
  have hlow : (m.writeWord a w).readByte a = w.toUInt8 := by
    rw [writeWord, readByte_writeByte, if_neg hne, readByte_writeByte, if_pos rfl]
  have hhigh : (m.writeWord a w).readByte (a + 1) = (w >>> 8).toUInt8 := by
    rw [writeWord, readByte_writeByte, if_pos rfl]
  apply UInt16.toNat_inj.mp
  rw [toNat_readWord, hlow, hhigh, UInt16.toNat_toUInt8, UInt16.toNat_toUInt8, UInt16.toNat_shiftRight]
  change w.toNat % 256 + 256 * ((w.toNat >>> 8) % 256) = w.toNat
  have := w.toNat_lt
  rw [Nat.shiftRight_eq_div_pow]
  omega

/-! ### Runs of words -/

theorem add_ofNat_add_two (a : UInt16) (k : Nat) : a + UInt16.ofNat (k + 2) = a + 2 + UInt16.ofNat k := by
  rw [UInt16.ofNat_add]
  change a + (UInt16.ofNat k + 2) = _
  grind

theorem add_two_mul_ofNat_succ (a : UInt16) (k : Nat) :
    a + 2 * UInt16.ofNat (k + 1) = a + 2 + 2 * UInt16.ofNat k := by
  rw [UInt16.ofNat_add]
  grind

/-- Memory holds the words one after another from `a` on. -/
def Holds (m : Memory) (a : UInt16) : List UInt16 → Prop
  | [] => True
  | w :: rest => m.readWord a = w ∧ m.Holds (a + 2) rest

theorem holds_append (m : Memory) (a : UInt16) (xs ys : List UInt16) :
    m.Holds a (xs ++ ys) ↔ m.Holds a xs ∧ m.Holds (a + 2 * UInt16.ofNat xs.length) ys := by
  induction xs generalizing a with
  | nil => simp [Holds]
  | cons x xs ih =>
    rw [List.cons_append, Holds, ih, Holds, and_assoc, List.length_cons, add_two_mul_ofNat_succ]

theorem Holds.getElem {m : Memory} {a : UInt16} {ws : List UInt16} (h : m.Holds a ws) {j : Nat}
    (hj : j < ws.length) : ws[j] = m.readWord (a + 2 * UInt16.ofNat j) := by
  induction ws generalizing a j with
  | nil => simp at hj
  | cons w ws ih =>
    obtain ⟨hw, hws⟩ := h
    cases j with
    | zero => simpa using hw.symm
    | succ j => rw [List.getElem_cons_succ, ih hws, add_two_mul_ofNat_succ]

/-- Only the bytes of the run matter. -/
theorem Holds.congr {m n : Memory} {a : UInt16} {ws : List UInt16} (h : m.Holds a ws)
    (hb : ∀ k < 2 * ws.length, n.readByte (a + UInt16.ofNat k) = m.readByte (a + UInt16.ofNat k)) :
    n.Holds a ws := by
  induction ws generalizing a with
  | nil => trivial
  | cons w ws ih =>
    obtain ⟨hw, hws⟩ := h
    rw [List.length_cons] at hb
    refine ⟨?_, ih hws fun k hk => ?_⟩
    · rw [← hw]
      exact readWord_congr (by simpa using hb 0 (by omega)) (hb 1 (by omega))
    · have := hb (k + 2) (by omega)
      rwa [add_ofNat_add_two] at this

theorem readByte_writeWords_of_ne (m : Memory) {a c : UInt16} {ws : List UInt16}
    (h : ∀ k < 2 * ws.length, a + UInt16.ofNat k ≠ c) : (m.writeWords a ws).readByte c = m.readByte c := by
  induction ws generalizing m a with
  | nil => rfl
  | cons w ws ih =>
    rw [List.length_cons] at h
    have h₀ : a ≠ c := by simpa using h 0 (by omega)
    have h₁ : a + 1 ≠ c := h 1 (by omega)
    rw [writeWords, ih, readByte_writeWord_of_ne m w h₀ h₁]
    intro k hk
    have := h (k + 2) (by omega)
    rwa [add_ofNat_add_two] at this

/-- Words that are written are held, unless they are so many that they run into their own beginning. -/
theorem holds_writeWords (m : Memory) (a : UInt16) {ws : List UInt16} (h : ws.length ≤ 32768) :
    (m.writeWords a ws).Holds a ws := by
  induction ws generalizing m a with
  | nil => trivial
  | cons w ws ih =>
    rw [List.length_cons] at h
    -- The words after the first one end before the addresses have wrapped around to it.
    have hfar : ∀ d : Nat, d < 2 → ∀ k < 2 * ws.length, a + 2 + UInt16.ofNat k ≠ a + UInt16.ofNat d := by
      intro d hd k hk he
      have hsum : (2 : UInt16) + UInt16.ofNat k = UInt16.ofNat d := by grind
      have := congrArg UInt16.toNat hsum
      rw [UInt16.toNat_add, UInt16.toNat_ofNat', UInt16.toNat_ofNat'] at this
      change (2 + k % 65536) % 65536 = d % 65536 at this
      omega
    refine ⟨?_, ih (m.writeWord a w) (a + 2) (by omega)⟩
    rw [writeWords]
    refine (readWord_congr ?_ ?_).trans (readWord_writeWord m a w)
    · exact readByte_writeWords_of_ne _ fun k hk => by simpa using hfar 0 (by omega) k hk
    · exact readByte_writeWords_of_ne _ (hfar 1 (by omega))

end MicroDebug.Memory

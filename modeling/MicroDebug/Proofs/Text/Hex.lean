import MicroDebug.Text.Hex
import MicroDebug.Text.Numeral

/-! Numbers in base 16 are read back as what was written, with zeros in front or without. So no two numbers are
    written alike, and nothing but digits is written. -/

namespace MicroDebug

namespace Numeral

theorem valueFrom?_append (base high : Nat) (xs ys : List Char) :
    valueFrom? base high (xs ++ ys) = (valueFrom? base high xs).bind fun n => valueFrom? base n ys := by
  induction xs generalizing high with
  | nil => rfl
  | cons x xs ih =>
    rw [List.cons_append, valueFrom?, valueFrom?, Option.bind_assoc]
    exact congrArg _ (funext fun d => ih _)

theorem digit_of_valueFrom? {base high n : Nat} {cs : List Char} (h : valueFrom? base high cs = some n) :
    ∀ c ∈ cs, (digitIn? base c).isSome = true := by
  induction cs generalizing high with
  | nil => exact nofun
  | cons c cs ih =>
    obtain ⟨d, hd, hrest⟩ := Option.bind_eq_some_iff.mp h
    rw [List.forall_mem_cons, hd]
    exact ⟨rfl, ih hrest⟩

theorem digitIn?_digitChar {n : Nat} (h : n < 16) : digitIn? 16 n.digitChar = some n := by
  revert n
  decide

end Numeral

namespace Hex

open Numeral

theorem valueFrom?_digits (n : Nat) : valueFrom? 16 0 (digits n) = some n := by
  induction n using Nat.strongRecOn with
  | ind n ih =>
    have hhigh : valueFrom? 16 0 (if n < 16 then [] else digits (n / 16)) = some (n / 16) := by
      split
      · next h =>
        rw [Nat.div_eq_of_lt h]
        rfl
      · exact ih (n / 16) (by omega)
    rw [digits_eq, valueFrom?_append, hhigh, Option.bind_some, valueFrom?,
      digitIn?_digitChar (Nat.mod_lt n (by omega))]
    exact congrArg some (Nat.div_add_mod' n 16)

theorem valueFrom?_paddedDigits (width n : Nat) : valueFrom? 16 0 (paddedDigits width n) = some n := by
  have hzeros (k : Nat) : valueFrom? 16 0 (List.replicate k '0') = some 0 := by
    induction k with
    | zero => rfl
    | succ k ih => exact ih
  rw [paddedDigits, List.leftpad, valueFrom?_append, hzeros, Option.bind_some, valueFrom?_digits]

theorem digit_of_mem_digits {n : Nat} {c : Char} (h : c ∈ digits n) : (digitIn? 16 c).isSome = true :=
  digit_of_valueFrom? (valueFrom?_digits n) c h

theorem digit_of_mem_paddedDigits {width n : Nat} {c : Char} (h : c ∈ paddedDigits width n) :
    (digitIn? 16 c).isSome = true :=
  digit_of_valueFrom? (valueFrom?_paddedDigits width n) c h

theorem digits_ne_nil (n : Nat) : digits n ≠ [] := Nat.toDigits_ne_nil

theorem digits_injective : Function.Injective digits := by
  intro m n h
  have hvalue := valueFrom?_digits m
  rw [h, valueFrom?_digits] at hvalue
  exact (Option.some.inj hvalue).symm

theorem length_paddedDigits_word (w : UInt16) : (paddedDigits 4 w.toNat).length = 4 := by
  have hle : (digits w.toNat).length ≤ 4 := (Nat.length_toDigits_le_iff (by decide) (by decide)).mpr w.toNat_lt
  rw [paddedDigits, List.leftpad, List.length_append, List.length_replicate]
  omega

end Hex

end MicroDebug

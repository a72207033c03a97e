/-
  ExpertRouting.Proofs.Decimal.Digits — what the digits of a natural say.

  `digits n` spells `n` (`value_digits`), so different naturals have different spellings;
  it has no zero in front unless `n` is zero, and it is as long as the size of `n` asks
  (`pow_le_of_digits`, `lt_pow_digits`). A digit's character is read back as that digit.
-/

import Mathlib
import ExpertRouting.Decimal.Digit

namespace ExpertRouting

namespace Digit

theorem prepend_fuel (n f g : Nat) (hf : n < f) (hg : n < g) (tail : List Digit) :
    prepend f n tail = prepend g n tail := by
  induction f generalizing n g tail with
  | zero => omega
  | succ f ih =>
    obtain ⟨g, rfl⟩ := Nat.exists_eq_succ_of_ne_zero (show g ≠ 0 by omega)
    simp only [prepend]
    split
    · rfl
    · exact ih (n / 10) g (by omega) (by omega) _

theorem prepend_append (f n : Nat) (a b : List Digit) : prepend f n (a ++ b) = prepend f n a ++ b := by
  induction f generalizing n a with
  | zero => rfl
  | succ f ih =>
    simp only [prepend]
    split
    · rfl
    · exact ih (n / 10) (Fin.ofNat 10 n :: a)

theorem value_append (a b : List Digit) : value (a ++ b) = value a * 10 ^ b.length + value b := by
  induction b using List.reverseRecOn with
  | nil => simp [value]
  | append_singleton b d ih =>
    simp only [value, ← List.append_assoc, List.foldl_append, List.foldl_cons, List.foldl_nil, List.length_append,
      List.length_cons, List.length_nil] at ih ⊢
    rw [ih, pow_succ]
    ring

theorem value_singleton (d : Digit) : value [d] = d.val := by simp [value]

theorem value_lt (ds : List Digit) : value ds < 10 ^ ds.length := by
  induction ds using List.reverseRecOn with
  | nil => simp [value]
  | append_singleton ds d ih =>
    rw [value_append, value_singleton, List.length_append, List.length_singleton, pow_one, pow_succ]
    have := d.isLt
    omega

@[simp] theorem ofChar?_char (d : Digit) : ofChar? d.char = some d := by revert d; decide

theorem char_injective : Function.Injective char := by
  intro a b h
  have := congrArg ofChar? h
  simpa using this

end Digit

open Digit

/-- The last digit is the remainder, and the others spell the quotient. -/
theorem digits_eq (n : Nat) : digits n = (if n < 10 then [] else digits (n / 10)) ++ [Fin.ofNat 10 n] := by
  show prepend (n + 1) n [] = _
  simp only [prepend]
  split
  · rfl
  · rename_i h
    rw [prepend_fuel (n / 10) n (n / 10 + 1) (by omega) (by omega), digits, ← prepend_append]
    rfl

theorem digits_of_lt {n : Nat} (h : n < 10) : digits n = [Fin.ofNat 10 n] := by rw [digits_eq, if_pos h]; rfl

theorem digits_ne_nil (n : Nat) : digits n ≠ [] := by
  rw [digits_eq]
  exact List.append_ne_nil_of_right_ne_nil _ (List.cons_ne_nil _ _)

theorem digits_length_pos (n : Nat) : 0 < (digits n).length := List.length_pos_of_ne_nil (digits_ne_nil n)

theorem value_digits (n : Nat) : value (digits n) = n := by
  induction n using Nat.strong_induction_on with
  | _ n ih =>
    rw [digits_eq, value_append, value_singleton, List.length_singleton, pow_one]
    show _ * 10 + n % 10 = n
    split
    · simp only [value, List.foldl_nil]; omega
    · rw [ih (n / 10) (by omega)]; omega

theorem digits_injective : Function.Injective digits := by
  intro a b h
  rw [← value_digits a, h, value_digits]

theorem lt_pow_digits (n : Nat) : n < 10 ^ (digits n).length := by
  have := value_lt (digits n)
  rwa [value_digits] at this

theorem head_digits {n : Nat} (h : 10 ≤ n) : (digits n).head? = (digits (n / 10)).head? := by
  rw [digits_eq n, if_neg (by omega), List.head?_append_of_ne_nil _ (digits_ne_nil _)]

theorem head_digits_ne_zero {n : Nat} (h : 0 < n) : (digits n).head? ≠ some zero := by
  induction n using Nat.strong_induction_on with
  | _ n ih =>
    by_cases h10 : n < 10
    · rw [digits_of_lt h10, List.head?_cons, ne_eq, Option.some.injEq]
      intro heq
      have := congrArg Fin.val heq
      simp only [Fin.ofNat, zero] at this
      omega
    · rw [head_digits (by omega)]
      exact ih (n / 10) (by omega) (by omega)

theorem pow_le_of_digits {n : Nat} (h : 0 < n) : 10 ^ ((digits n).length - 1) ≤ n := by
  induction n using Nat.strong_induction_on with
  | _ n ih =>
    rw [digits_eq, List.length_append, List.length_singleton, Nat.add_sub_cancel]
    split
    · simp only [List.length_nil, pow_zero]; exact h
    · have := ih (n / 10) (by omega) (by omega)
      have hl := digits_length_pos (n / 10)
      obtain ⟨k, hk⟩ := Nat.exists_eq_add_of_lt hl
      rw [hk] at this ⊢
      simp only [Nat.zero_add, Nat.add_sub_cancel] at this ⊢
      rw [pow_succ]
      omega

theorem decimal_injective : Function.Injective decimal := by
  intro a b h
  have hc : decimalChars a = decimalChars b := String.ofList_injective h
  exact digits_injective (List.map_injective_iff.mpr char_injective hc)

end ExpertRouting

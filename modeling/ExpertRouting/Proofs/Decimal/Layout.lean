/-
  ExpertRouting.Proofs.Decimal.Layout — what is laid out is a numeral of the grammar.

  A numeral is sound if it has a digit in front, no zero before another digit, and digits
  after the mark of a power. Naturals are spelled so (`ofNat_sound`), and so is every finite
  number, whichever layout writes it (`ofBinary_sound`); only a number that is not finite
  has no numeral (`ofBinary_isSome`).
-/

import Mathlib
import ExpertRouting.Decimal.Layout
import ExpertRouting.Proofs.Decimal.Shortest

namespace ExpertRouting

namespace Numeral

/-- The spellings that a reader of numbers takes. -/
structure Sound (n : Numeral) : Prop where
  whole : n.whole ≠ []
  front : n.whole.head? = some .zero → n.whole = [.zero]
  power : ∀ p, n.power = some p → p.digits ≠ []

theorem digits_front {n : Nat} (h : (digits n).head? = some .zero) : n = 0 ∧ digits n = [.zero] := by
  rcases Nat.eq_zero_or_pos n with rfl | hn
  · exact ⟨rfl, digits_of_lt (by norm_num)⟩
  · exact absurd h (head_digits_ne_zero hn)

theorem ofNat_sound (n : Nat) : (ofNat n).Sound where
  whole := digits_ne_nil n
  front h := (digits_front h).2
  power p hp := by cases hp

end Numeral

namespace Layout

theorem placed_sound (l : Layout) (s : Bool) {ds : List Digit} {exponent : Int} (hds : ds ≠ [])
    (hzero : ds.head? = some .zero → ds = [.zero] ∧ exponent ≤ 0) : (l.placed s ds exponent).Sound := by
  have hlen := List.length_pos_of_ne_nil hds
  unfold placed
  by_cases hexp : 0 ≤ exponent
  · rw [if_pos hexp]
    refine ⟨List.append_ne_nil_of_left_ne_nil hds _, fun h => ?_, fun p hp => by cases hp⟩
    simp only [List.head?_append_of_ne_nil _ hds] at h
    obtain ⟨hd, he⟩ := hzero h
    have he0 : exponent.toNat = 0 := by omega
    simp [hd, he0]
  rw [if_neg hexp]
  simp only
  by_cases hplaces : (-exponent).toNat < ds.length
  · rw [if_pos hplaces]
    refine ⟨?_, fun h => ?_, fun p hp => by cases hp⟩
    · simp only [ne_eq, List.take_eq_nil_iff]
      rintro (h | h)
      · omega
      · exact hds h
    · simp only [List.head?_take, show ds.length - (-exponent).toNat ≠ 0 by omega, if_false] at h
      -- a lone zero has no place for the point inside it
      have hone : ds.length = 1 := by rw [(hzero h).1]; rfl
      omega
  · rw [if_neg hplaces]
    exact ⟨List.cons_ne_nil _ _, fun _ => rfl, fun p hp => by cases hp⟩

theorem powered_sound (s : Bool) {ds : List Digit} (hds : ds ≠ []) (first : Int) : (powered s ds first).Sound where
  whole := by simpa [powered] using hds
  front h := by
    obtain ⟨d, rest, rfl⟩ := List.exists_cons_of_ne_nil hds
    simpa [powered] using h
  power p hp := by
    cases hp
    exact digits_ne_nil _

theorem numeral_sound (l : Layout) (s : Bool) {d : Decimal} (h : 0 < d.significand ∨ d.exponent = 0) :
    (l.numeral s d).Sound := by
  unfold numeral
  simp only
  split
  · refine placed_sound l s (digits_ne_nil _) fun hzero => ?_
    obtain ⟨hsig, hds⟩ := Numeral.digits_front hzero
    exact ⟨hds, by omega⟩
  · exact powered_sound s (digits_ne_nil _) _

theorem ofBinary_sound {f : Format} (hf : 0 < f.precision) {l : Layout} {x : Binary f} {n : Numeral}
    (h : l.ofBinary? x = some n) : n.Sound := by
  unfold ofBinary? at h
  split at h
  · rename_i s m p hc
    split at h
    · cases h
      exact numeral_sound l s (.inr rfl)
    · cases h
      exact numeral_sound l s (.inl (Decimal.shortest_significand_pos l.tie hf (by omega) hc.fits))
  · cases h

/-- Exactly the finite numbers have numerals. -/
theorem ofBinary_isSome {f : Format} (l : Layout) (x : Binary f) : (l.ofBinary? x).isSome = x.isFinite := by
  unfold ofBinary? Binary.isFinite
  cases x with
  | finite s m p hc => simp only; split <;> rfl
  | _ => rfl

end Layout

end ExpertRouting

/-
  ExpertRouting.Proofs.Trace.Distinct — routes with different weights are written differently.

  A layout changes no value, so a numeral tells the number it was written for
  (`ofBinary_injective`), and a file keeps every numeral as it is spelled. The text of a
  route therefore tells its weights as long as they are finite (`weights_of_text`), whether or
  not a reader of reals gets them back, and the bytes of a list of routes tell the weights of
  all of them (`weights_of_lines`).
-/

import ExpertRouting.Proofs.Decimal.Distinct
import ExpertRouting.Proofs.Trace.Codec

namespace ExpertRouting

theorem Layout.numeral_negative (l : Layout) (s : Bool) (d : Decimal) : (l.numeral s d).negative = s := by
  unfold Layout.numeral
  simp only
  split
  · unfold Layout.placed
    simp only
    split_ifs <;> rfl
  · rfl

/-- What the numeral of a number is worth lies in the interval of the number. -/
theorem Layout.ofBinary_holds {f : Format} (hf : 0 < f.precision) {l : Layout} {s : Bool} {m p : Nat}
    {hc : f.Canonical m p} {n : Numeral} (h : l.ofBinary? (.finite s m p hc) = some n) :
    n.negative = s ∧ (Decimal.interval f m p).Holds (n.size * (4 * Nat.pow 2 f.unit : Nat)) := by
  unfold Layout.ofBinary? at h
  simp only at h
  split at h
  · rename_i hzero
    obtain rfl := Option.some.inj h
    refine ⟨numeral_negative .., ?_⟩
    obtain rfl := hzero
    have hvalue : (l.numeral s ⟨0, 0⟩).size = 0 := by
      rw [numeral_size, Decimal.size, Nat.cast_zero, zero_mul]
    rw [hvalue, zero_mul]
    refine ⟨?_, Nat.cast_nonneg _, fun _ => rfl⟩
    simp [Decimal.interval]
  · rename_i hne
    obtain rfl := Option.some.inj h
    refine ⟨numeral_negative .., ?_⟩
    rw [numeral_size]
    exact Decimal.shortest_holds l.tie hf (Nat.pos_of_ne_zero hne) hc.fits

/-- A numeral is that of one number. -/
theorem Layout.ofBinary_injective {f : Format} (hf : 0 < f.precision) {l : Layout} {x y : Binary f} {n : Numeral}
    (hx : l.ofBinary? x = some n) (hy : l.ofBinary? y = some n) : x = y := by
  cases x with
  | finite s m p hc =>
    cases y with
    | finite t k q hd =>
      obtain ⟨hs, hholds⟩ := ofBinary_holds hf hx
      obtain ⟨ht, hholds'⟩ := ofBinary_holds hf hy
      obtain ⟨rfl, rfl⟩ := Decimal.eq_of_holds hf hc hd hholds hholds'
      obtain rfl : s = t := hs.symm.trans ht
      rfl
    | _ => cases hy
  | _ => cases hx

namespace Json

theorem reading_ofReal_injective {x y : Real64} (hx : x.isFinite = true)
    (h : (ofReal x).reading = (ofReal y).reading) : x = y := by
  rw [← Layout.ofBinary_isSome layout x] at hx
  obtain ⟨n, hn⟩ := Option.isSome_iff_exists.mp hx
  unfold ofReal at h
  rw [hn] at h
  cases hm : layout.ofBinary? y with
  | none =>
    rw [hm] at h
    cases h
  | some n' =>
    rw [hm] at h
    obtain rfl : n = n' := Reading.number.inj h
    exact Layout.ofBinary_injective (by decide) hn hm

theorem readings_injective : ∀ {xs ys : List Real64}, (∀ x ∈ xs, x.isFinite = true) →
    itemReadings (xs.map ofReal) = itemReadings (ys.map ofReal) → xs = ys := by
  intro xs ys hfinite h
  rw [itemReadings_eq_map, itemReadings_eq_map, List.map_map, List.map_map] at h
  refine List.ext_getElem (by simpa using congrArg List.length h) fun i hi hi' => ?_
  have hread := List.getElem_of_eq h (i := i) (by simpa using hi)
  simp only [List.getElem_map, Function.comp_apply] at hread
  exact reading_ofReal_injective (hfinite _ (List.getElem_mem hi)) hread

end Json

open Json

/-- The text of a route tells its weights if they are finite. -/
theorem Record.weights_of_text {r r' : Route} (hfinite : ∀ w ∈ r.weights, w.isFinite = true)
    (h : (Record.route r).text = (Record.route r').text) : r.weights = r'.weights := by
  have hread : (toJson (.route r)).reading = (toJson (.route r')).reading := by
    have hspelled := congrArg (fun cs : List Char => read (cs.map .char)) h
    simp only [Record.text, read_spelled (tokens_compact (route_sound _)), Document.mk.injEq, and_true] at hspelled
    exact hspelled
  simp only [toJson, routeFields, Json.reading, memberReadings, Reading.object.injEq, List.cons.injEq, Prod.mk.injEq,
    Reading.array.injEq, true_and, and_true] at hread
  exact readings_injective hfinite hread.2.2.2.2

/-- The bytes of some routes tell the weights of each. -/
theorem Writer.weights_of_lines {routes routes' : List Route}
    (hfinite : ∀ r ∈ routes, ∀ w ∈ r.weights, w.isFinite = true)
    (h : Writer.lines (routes.map .route) = Writer.lines (routes'.map .route)) :
    routes.map (·.weights) = routes'.map (·.weights) := by
  have htexts := congrArg (fun bytes => Text.lines (Utf8.decode bytes)) h
  simp only [Writer.lines_text, List.map_map] at htexts
  refine List.ext_getElem (by simpa using congrArg List.length htexts) fun i hi hi' => ?_
  have htext := List.getElem_of_eq htexts (i := i) (by simpa using hi)
  simp only [List.getElem_map, Function.comp_apply] at htext ⊢
  refine Record.weights_of_text (hfinite _ (List.getElem_mem (by simpa using hi))) ?_
  exact List.map_injective_iff.mpr (fun a b hab => Symbol.char.inj hab) htext

end ExpertRouting

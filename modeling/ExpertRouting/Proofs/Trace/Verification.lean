/-
  ExpertRouting.Proofs.Trace.Verification — what a verified trace is, and what a refused one breaks.

  A route is asked four questions in order: as many weights as experts, the width of the header,
  every expert below the header's number, a logged layer. Without a misfit it has all four
  (`misfit?_eq_none_iff`), and a misfit names the first that it fails, for the experts the
  first one out of range (`misfit?_eq_some_iff`). The routes are asked in order as well, so a trace
  is verified when every route fits (`verify_ok_iff_fits`), and refused at the first that does not
  (`verify_error_iff`).
-/

import Mathlib.Data.List.Basic
import ExpertRouting.Trace.Basic

namespace ExpertRouting

structure Route.Fits (h : Header) (r : Route) : Prop where
  paired : r.experts.length = r.weights.length
  width : r.experts.length = h.topK.toNat
  experts : ∀ e ∈ r.experts, e.toNat < h.numExperts.toNat
  layer : r.layer ∈ h.layersLogged

namespace Trace

/-- The first of the four questions that a route fails. -/
inductive FirstMisfit (h : Header) (r : Route) : Misfit → Prop
  | weightCount : r.experts.length ≠ r.weights.length →
      FirstMisfit h r (.weightCount r.experts.length r.weights.length)
  | width : r.experts.length = r.weights.length → r.experts.length ≠ h.topK.toNat →
      FirstMisfit h r (.width r.experts.length h.topK)
  | expert {front back : List UInt32} {e : UInt32} : r.experts.length = r.weights.length →
      r.experts.length = h.topK.toNat → r.experts = front ++ e :: back →
      (∀ e' ∈ front, e'.toNat < h.numExperts.toNat) → h.numExperts.toNat ≤ e.toNat →
      FirstMisfit h r (.expert e h.numExperts)
  | layer : r.experts.length = r.weights.length → r.experts.length = h.topK.toNat →
      (∀ e ∈ r.experts, e.toNat < h.numExperts.toNat) → r.layer ∉ h.layersLogged →
      FirstMisfit h r (.layer r.layer h.layersLogged)

/-! ## One route -/

section Route

variable {h : Header} {r : Route}

theorem find?_outside_eq_none_iff {experts : List UInt32} {n : Nat} :
    (experts.find? fun e => n ≤ e.toNat) = none ↔ ∀ e ∈ experts, e.toNat < n := by
  simp [List.find?_eq_none]

theorem find?_outside_eq_some_iff {experts : List UInt32} {n : Nat} {e : UInt32} :
    (experts.find? fun e => n ≤ e.toNat) = some e ↔
      n ≤ e.toNat ∧ ∃ front back, experts = front ++ e :: back ∧ ∀ e' ∈ front, e'.toNat < n := by
  simp [List.find?_eq_some_iff_append]

/-- The four questions, one after another. -/
theorem misfit?_cases (h : Header) (r : Route) :
    (misfit? h r = none ∧ r.Fits h) ∨ ∃ m, misfit? h r = some m ∧ FirstMisfit h r m := by
  unfold misfit? Route.width
  by_cases hpaired : r.experts.length = r.weights.length
  case neg =>
    rw [if_pos hpaired]
    exact .inr ⟨_, rfl, .weightCount hpaired⟩
  rw [if_neg (not_not_intro hpaired)]
  by_cases hwidth : r.experts.length = h.topK.toNat
  case neg =>
    rw [if_pos hwidth]
    exact .inr ⟨_, rfl, .width hpaired hwidth⟩
  rw [if_neg (not_not_intro hwidth)]
  cases hfind : r.experts.find? fun e => h.numExperts.toNat ≤ e.toNat with
  | some e =>
    obtain ⟨houtside, front, back, hexperts, hfront⟩ := find?_outside_eq_some_iff.mp hfind
    exact .inr ⟨_, rfl, .expert hpaired hwidth hexperts hfront houtside⟩
  | none =>
    have hexperts := find?_outside_eq_none_iff.mp hfind
    by_cases hlayer : r.layer ∈ h.layersLogged
    · refine .inl ⟨?_, hpaired, hwidth, hexperts, hlayer⟩
      simp [hlayer]
    · refine .inr ⟨_, ?_, .layer hpaired hwidth hexperts hlayer⟩
      simp [hlayer]

theorem misfit?_of_fits (hfits : r.Fits h) : misfit? h r = none := by
  unfold misfit? Route.width
  rw [if_neg (not_not_intro hfits.paired), if_neg (not_not_intro hfits.width),
    find?_outside_eq_none_iff.mpr hfits.experts]
  simp [hfits.layer]

/-- A later question is only asked where the earlier ones are answered. -/
theorem misfit?_of_firstMisfit {m : Misfit} (hm : FirstMisfit h r m) : misfit? h r = some m := by
  unfold misfit? Route.width
  cases hm with
  | weightCount hpaired => rw [if_pos hpaired]
  | width hpaired hwidth => rw [if_neg (not_not_intro hpaired), if_pos hwidth]
  | expert hpaired hwidth hexperts hfront houtside =>
    rw [if_neg (not_not_intro hpaired), if_neg (not_not_intro hwidth),
      find?_outside_eq_some_iff.mpr ⟨houtside, _, _, hexperts, hfront⟩]
  | layer hpaired hwidth hexperts hlayer =>
    rw [if_neg (not_not_intro hpaired), if_neg (not_not_intro hwidth), find?_outside_eq_none_iff.mpr hexperts]
    simp [hlayer]

theorem misfit?_eq_none_iff : misfit? h r = none ↔ r.Fits h := by
  refine ⟨fun hnone => ?_, misfit?_of_fits⟩
  rcases misfit?_cases h r with ⟨-, hfits⟩ | ⟨m, hsome, -⟩
  · exact hfits
  · rw [hsome] at hnone
    cases hnone

theorem misfit?_eq_some_iff {m : Misfit} : misfit? h r = some m ↔ FirstMisfit h r m := by
  refine ⟨fun hsome => ?_, misfit?_of_firstMisfit⟩
  rcases misfit?_cases h r with ⟨hnone, -⟩ | ⟨m', hsome', hm'⟩
  · rw [hnone] at hsome
    cases hsome
  · rw [hsome', Option.some_inj] at hsome
    exact hsome ▸ hm'

end Route

/-! ## All routes -/

theorem firstMisfit?_eq_none_iff {h : Header} {routes : List Route} (index : Nat) :
    firstMisfit? h index routes = none ↔ ∀ r ∈ routes, misfit? h r = none := by
  induction routes generalizing index with
  | nil => simp [firstMisfit?]
  | cons r routes ih =>
    rw [firstMisfit?]
    cases hr : misfit? h r with
    | none => simp [hr, ih]
    | some m => simp [hr]

theorem firstMisfit?_append {h : Header} {front : List Route} (hfront : ∀ r ∈ front, misfit? h r = none)
    (index : Nat) (rest : List Route) :
    firstMisfit? h index (front ++ rest) = firstMisfit? h (index + front.length) rest := by
  induction front generalizing index with
  | nil => rfl
  | cons r front ih =>
    obtain ⟨hr, hfront⟩ := List.forall_mem_cons.mp hfront
    rw [List.cons_append, firstMisfit?, hr, List.length_cons]
    simp only
    rw [ih hfront, Nat.add_assoc, Nat.add_comm 1]

theorem firstMisfit?_found {h : Header} {index i : Nat} {m : Misfit} {routes : List Route}
    (hfound : firstMisfit? h index routes = some (i, m)) :
    ∃ front r back, routes = front ++ r :: back ∧ (∀ r' ∈ front, misfit? h r' = none) ∧ misfit? h r = some m ∧
      i = index + front.length := by
  induction routes generalizing index with
  | nil => cases hfound
  | cons r routes ih =>
    rw [firstMisfit?] at hfound
    cases hr : misfit? h r with
    | some m' =>
      rw [hr] at hfound
      obtain ⟨rfl, rfl⟩ := Prod.mk.inj (Option.some.inj hfound)
      exact ⟨[], r, routes, rfl, by simp, hr, rfl⟩
    | none =>
      rw [hr] at hfound
      obtain ⟨front, r', back, rfl, hfront, hm, rfl⟩ := ih hfound
      refine ⟨r :: front, r', back, rfl, List.forall_mem_cons.mpr ⟨hr, hfront⟩, hm, ?_⟩
      rw [List.length_cons]
      omega

theorem verify_ok_iff {t : Trace} : t.verify = .ok () ↔ ∀ r ∈ t.routes, misfit? t.header r = none := by
  rw [← firstMisfit?_eq_none_iff 0, verify]
  cases firstMisfit? t.header 0 t.routes <;> simp

theorem verify_ok {t : Trace} (h : ∀ r ∈ t.routes, misfit? t.header r = none) : t.verify = .ok () :=
  verify_ok_iff.mpr h

theorem verify_ok_iff_fits {t : Trace} : t.verify = .ok () ↔ ∀ r ∈ t.routes, r.Fits t.header := by
  simp only [verify_ok_iff, misfit?_eq_none_iff]

theorem verify_error_iff {t : Trace} {e : Error} :
    t.verify = .error e ↔
      ∃ front r back m, t.routes = front ++ r :: back ∧ (∀ r' ∈ front, r'.Fits t.header) ∧
        FirstMisfit t.header r m ∧ e = .inconsistent front.length m := by
  simp only [← misfit?_eq_none_iff, ← misfit?_eq_some_iff]
  constructor
  · intro h
    unfold verify at h
    split at h
    · rename_i i m hfound
      obtain ⟨front, r, back, hsplit, hfront, hm, rfl⟩ := firstMisfit?_found hfound
      rw [Nat.zero_add] at h
      exact ⟨front, r, back, m, hsplit, hfront, hm, (Except.error.inj h).symm⟩
    · cases h
  · rintro ⟨front, r, back, m, hsplit, hfront, hm, rfl⟩
    rw [verify, hsplit, firstMisfit?_append hfront, firstMisfit?, hm, Nat.zero_add]

end Trace

end ExpertRouting

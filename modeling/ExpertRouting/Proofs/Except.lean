/-
  ExpertRouting.Proofs.Except — steps that may fail, one after the other.

  Steps that succeed together succeed one by one (`bind_ok`). Steps that fail together fail
  in the first, or in the next after the first has succeeded (`bind_error`).
-/

namespace ExpertRouting

variable {ε α β : Type} {first : Except ε α} {next : α → Except ε β}

theorem bind_ok {b : β} (h : first >>= next = .ok b) : ∃ a, first = .ok a ∧ next a = .ok b := by
  cases first with
  | error e => cases h
  | ok a => exact ⟨a, rfl, h⟩

theorem bind_error {e : ε} (h : first >>= next = .error e) :
    first = .error e ∨ ∃ a, first = .ok a ∧ next a = .error e := by
  cases first with
  | error e' =>
    cases h
    exact .inl rfl
  | ok a => exact .inr ⟨a, rfl, h⟩

end ExpertRouting

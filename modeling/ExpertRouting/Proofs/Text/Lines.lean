/-
  ExpertRouting.Proofs.Text.Lines — lines that were ended are read back.

  A line without a line feed is read as that line once it is ended (`linesFrom_ended`), so
  a list of such lines comes back as itself (`lines_ended`). Trimming leaves a text alone
  that has no white space at either end (`trim_eq_self`).
-/

import ExpertRouting.Text.Blank
import ExpertRouting.Text.Lines

namespace ExpertRouting.Text

theorem linesFrom_ended {line : List Symbol} (h : .char '\n' ∉ line) (before rest : List Symbol) :
    linesFrom before (line ++ .char '\n' :: rest) = (before.reverse ++ line) :: linesFrom [] rest := by
  induction line generalizing before with
  | nil => simp [linesFrom]
  | cons s line ih =>
    have hs : s ≠ .char '\n' := fun he => h (he ▸ List.mem_cons_self)
    rw [List.cons_append, linesFrom, if_neg hs, ih fun hm => h (List.mem_cons_of_mem _ hm)]
    simp

theorem lines_ended {ls : List (List Symbol)} (h : ∀ l ∈ ls, .char '\n' ∉ l) :
    lines (ls.flatMap (· ++ [.char '\n'])) = ls := by
  induction ls with
  | nil => rfl
  | cons l ls ih =>
    have hl := h l List.mem_cons_self
    rw [List.flatMap_cons, List.append_assoc, List.singleton_append, lines, linesFrom_ended hl]
    exact congrArg (l :: ·) (ih fun l' hl' => h l' (List.mem_cons_of_mem _ hl'))

theorem dropWhile_blank {cs : List Char} (h : ∀ c ∈ cs.head?, isBlank c = false) : cs.dropWhile isBlank = cs := by
  cases cs with
  | nil => rfl
  | cons c cs => exact List.dropWhile_cons_of_neg (by simp [h c rfl])

theorem trim_eq_self {cs : List Char} (hhead : ∀ c ∈ cs.head?, isBlank c = false)
    (hlast : ∀ c ∈ cs.getLast?, isBlank c = false) : trim cs = cs := by
  unfold trim
  rw [dropWhile_blank hhead, dropWhile_blank (by rwa [List.head?_reverse]), List.reverse_reverse]

end ExpertRouting.Text

import Mathlib.Algebra.BigOperators.Group.List.Basic
import Mathlib.Tactic.Ring

/-!
# Loops over a list

A `for` loop over a list is a left fold. Its invariant usually speaks of how many elements have
been consumed, so the rule below hands the index to the invariant.
-/

namespace List

variable {α β : Type*}

/-- **Loop rule for a left fold.** What holds at the start and is preserved by consuming element
`k` holds at the end. -/
theorem foldl_induction_index {P : ℕ → β → Prop} {f : β → α → β} (l : List α)
    (hstep : ∀ (k : ℕ) (hk : k < l.length) (b : β), P k b → P (k + 1) (f b l[k]))
    {b : β} (h : P 0 b) : P l.length (l.foldl f b) := by
  induction l generalizing P b with
  | nil => exact h
  | cons a l ih =>
    exact ih (P := fun k => P (k + 1)) (fun k hk b hb => hstep (k + 1) (Nat.succ_lt_succ hk) b hb)
      (hstep 0 (Nat.succ_pos _) b h)

/-- A sum over the first `k + 1` elements. -/
theorem sum_map_take_succ {l : List α} {g : α → ℕ} {k : ℕ} (hk : k < l.length) :
    ((l.take (k + 1)).map g).sum = ((l.take k).map g).sum + g l[k] := by
  rw [List.take_add_one, List.getElem?_eq_getElem hk, List.map_append, List.sum_append]
  simp

/-- A sum over an initial segment is at most the sum over a longer one. -/
theorem sum_map_take_le {l : List α} {g : α → ℕ} {k m : ℕ} (h : k ≤ m) :
    ((l.take k).map g).sum ≤ ((l.take m).map g).sum := by
  induction h with
  | refl => exact Nat.le_refl _
  | @step m _ ih =>
    rcases Nat.lt_or_ge m l.length with hm | hm
    · rw [sum_map_take_succ hm]
      exact Nat.le_trans ih (Nat.le_add_right _ _)
    · have htake : l.take (m + 1) = l.take m := by
        rw [List.take_of_length_le hm, List.take_of_length_le (Nat.le_succ_of_le hm)]
      rw [htake]
      exact ih

end List

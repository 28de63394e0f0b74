import Mathlib.Data.Finset.Prod
import Mathlib.Data.Finset.Card
import Mathlib.Data.Finset.Range
import Mathlib.Logic.Function.Basic

/-!
# Counting references

How many entries of a table hold a given value. Changing one entry changes two of these numbers by
one, that of the old value and that of the new one (`refs_update`).
-/

variable {κ β : Type*} [DecidableEq β]

/-- The number of keys in `s` at which the table holds `b`. -/
def refs (s : Finset κ) (t : κ → β) (b : β) : ℕ := (s.filter fun k => t k = b).card

variable {s : Finset κ} {t t' : κ → β} {a b : β} {k : κ}

theorem refs_congr (h : ∀ k ∈ s, t k = t' k) : refs s t b = refs s t' b := by
  rw [refs, refs, Finset.filter_congr fun k hk => by rw [h k hk]]

theorem refs_eq_zero : refs s t b = 0 ↔ ∀ k ∈ s, t k ≠ b := by
  rw [refs, Finset.card_eq_zero, Finset.filter_eq_empty_iff]

theorem refs_le_card : refs s t b ≤ s.card := Finset.card_filter_le _ _

/-- **Counting after an assignment.** -/
theorem refs_update [DecidableEq κ] (hk : k ∈ s) :
    refs s (Function.update t k a) b + (if t k = b then 1 else 0) =
      refs s t b + (if a = b then 1 else 0) := by
  have hsplit : ∀ t : κ → β,
      refs s t b = refs (s.erase k) t b + (if t k = b then 1 else 0) := fun t => by
    rw [refs, refs, ← Finset.insert_erase hk, Finset.filter_insert]
    split
    · rw [Finset.card_insert_of_notMem (by simp), Finset.erase_insert (by simp)]
    · rw [Finset.erase_insert (by simp)]
      rfl
  have hrest : refs (s.erase k) (Function.update t k a) b = refs (s.erase k) t b :=
    refs_congr fun j hj => Function.update_of_ne (Finset.ne_of_mem_erase hj) a t
  rw [hsplit, hsplit t, hrest, Function.update_self]
  omega

import Mathlib.Data.Nat.Find
import Mathlib.Data.Nat.Notation

/-!
# The last writer decides

A series of steps each of which overwrites part of a store. What a place holds in the end is what
the last step that wrote there has put there, and what it held before if there was none. With this
the steps need not be followed one after the other: it is enough to know which places each of them
writes.
-/

variable {α β : Type*}

/-- Step `i` of the first `n` puts `v i` on the places `W i` and leaves the others alone. -/
structure Overwrites (W : ℕ → α → Prop) (v : ℕ → α → β) (m : ℕ → α → β) (n : ℕ) : Prop where
  written : ∀ i < n, ∀ a, W i a → m (i + 1) a = v i a
  kept : ∀ i < n, ∀ a, ¬W i a → m (i + 1) a = m i a

namespace Overwrites

variable {W : ℕ → α → Prop} {v m : ℕ → α → β} {n i k : ℕ} {a : α}

/-- A place that no step has written. -/
theorem eq_of_kept (h : Overwrites W v m n) (hk : k ≤ n)
    (hfree : ∀ j, k ≤ j → j < n → ¬W j a) : m n a = m k a := by
  induction n, hk using Nat.le_induction with
  | base => rfl
  | succ n hkn ih =>
    have hbefore : Overwrites W v m n :=
      ⟨fun j hj => h.written j (Nat.lt_succ_of_lt hj), fun j hj => h.kept j (Nat.lt_succ_of_lt hj)⟩
    rw [h.kept n (Nat.lt_succ_self n) a (hfree n hkn (Nat.lt_succ_self n)),
      ih hbefore fun j hkj hj => hfree j hkj (Nat.lt_succ_of_lt hj)]

/-- **The last writer.** -/
theorem eq_of_last (h : Overwrites W v m n) (hi : i < n) (hw : W i a)
    (hlast : ∀ j, i < j → j < n → ¬W j a) : m n a = v i a := by
  rw [h.eq_of_kept (Nat.succ_le_of_lt hi) fun j hij => hlast j hij, h.written i hi a hw]

end Overwrites

/-- Of the steps from `k` on that write a place there is a last one. -/
theorem exists_last_writer {W : ℕ → α → Prop} {n k : ℕ} {a : α} (h : ∃ i, k ≤ i ∧ i < n ∧ W i a) :
    ∃ i, k ≤ i ∧ i < n ∧ W i a ∧ ∀ j, i < j → j < n → ¬W j a := by
  induction n with
  | zero =>
    obtain ⟨i, -, hi, -⟩ := h
    exact absurd hi (Nat.not_lt_zero i)
  | succ n ih =>
    by_cases hn : k ≤ n ∧ W n a
    · exact ⟨n, hn.1, Nat.lt_succ_self n, hn.2, fun j hnj hj => absurd hj (by omega)⟩
    · obtain ⟨i, hki, hi, hw⟩ := h
      have hne : i ≠ n := fun heq => hn (heq ▸ ⟨hki, hw⟩)
      obtain ⟨i, hki, hi, hw, hlast⟩ := ih ⟨i, hki, by omega, hw⟩
      refine ⟨i, hki, by omega, hw, fun j hij hj hwj => ?_⟩
      rcases Nat.eq_or_lt_of_le (Nat.le_of_lt_succ hj) with rfl | hlt
      · exact hn ⟨by omega, hwj⟩
      · exact hlast j hij hlt hwj

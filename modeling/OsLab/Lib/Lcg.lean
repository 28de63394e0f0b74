import Mathlib.Algebra.Ring.Parity
import Mathlib.Data.Int.ModEq
import Mathlib.Logic.Function.Iterate
import Mathlib.Tactic.Ring

/-!
# Linear congruential generators

A generator `x ↦ a * x + c` modulo a power of two comes past every number from every seed when `a`
is one more than a multiple of four and `c` is odd. `2 ^ k` steps then leave the lowest `k` bits
alone and turn bit `k` over (`iterate_two_pow`), so a number can be reached bit by bit, from the
lowest on (`exists_iterate`).
-/

/-- One step, before it is reduced. -/
def lcg (a c x : ℤ) : ℤ := a * x + c

namespace Lcg

variable {a c : ℤ}

theorem modEq_step {n x y : ℤ} (h : x ≡ y [ZMOD n]) : lcg a c x ≡ lcg a c y [ZMOD n] :=
  (h.mul_left a).add_right c

/-- **`2 ^ k` steps.** -/
theorem iterate_two_pow (ha : a % 4 = 1) (hc : Odd c) (k : ℕ) :
    ∃ u v : ℤ, ∀ x, (lcg a c)^[2 ^ k] x = (1 + 2 ^ (k + 2) * u) * x + 2 ^ k * (2 * v + 1) := by
  induction k with
  | zero =>
    obtain ⟨v, hv⟩ := hc
    refine ⟨a / 4, v, fun x => ?_⟩
    have ha' : 1 + 2 ^ (0 + 2) * (a / 4) = a := by omega
    rw [ha', hv, Nat.pow_zero, Function.iterate_one, lcg]
    ring
  | succ k ih =>
    obtain ⟨u, v, h⟩ := ih
    refine ⟨u + 2 ^ (k + 1) * u * u, v + 2 ^ k * u * (2 * v + 1), fun x => ?_⟩
    have hdouble : 2 ^ (k + 1) = 2 ^ k + 2 ^ k := by rw [Nat.pow_succ, Nat.mul_two]
    rw [hdouble, Function.iterate_add_apply, h, h]
    ring

/-- **Every number is reached** from every seed, modulo `2 ^ k`. -/
theorem exists_iterate (ha : a % 4 = 1) (hc : Odd c) (k : ℕ) (x y : ℤ) :
    ∃ n, (lcg a c)^[n] x ≡ y [ZMOD 2 ^ k] := by
  induction k with
  | zero => exact ⟨0, by rw [pow_zero]; exact Int.modEq_one⟩
  | succ k ih =>
    obtain ⟨n, hn⟩ := ih
    obtain ⟨e, he⟩ := hn.dvd
    rcases Int.even_or_odd' e with ⟨w, rfl | rfl⟩
    · refine ⟨n, Int.modEq_iff_dvd.mpr ⟨w, ?_⟩⟩
      rw [he]
      ring
    · -- bit `k` is still wrong
      obtain ⟨u, v, hturn⟩ := iterate_two_pow ha hc k
      refine ⟨2 ^ k + n, Int.modEq_iff_dvd.mpr ⟨w - v - 2 * u * (lcg a c)^[n] x, ?_⟩⟩
      rw [Function.iterate_add_apply, hturn]
      have hy : y = (lcg a c)^[n] x + 2 ^ k * (2 * w + 1) := by rw [← he]; ring
      rw [hy]
      ring

end Lcg

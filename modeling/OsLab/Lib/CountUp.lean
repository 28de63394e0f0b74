import Mathlib.Data.Nat.Notation
import Mathlib.Data.Option.Basic

/-!
# Loops that count up

`for(i = 0; i < n; i ++)` over a state: `countUp` when no round can fail, `countUpM` when one can.
The loop rules carry a property of the counter and the state through the rounds.
-/

variable {σ : Type*} {n : ℕ} {x y : σ}

/-- `for(i = 0; i < n; i ++) x = f(i, x);` -/
def countUp (f : ℕ → σ → σ) (x : σ) : ℕ → σ
  | 0 => x
  | n + 1 => f n (countUp f x n)

/-- `for(i = 0; i < n; i ++) x = f(i, x);`, where a round can fail. -/
def countUpM (f : ℕ → σ → Option σ) (x : σ) : ℕ → Option σ
  | 0 => some x
  | n + 1 => (countUpM f x n).bind (f n)

/-- **Loop rule.** -/
theorem countUp_induction {f : ℕ → σ → σ} {P : ℕ → σ → Prop} (h : P 0 x)
    (hstep : ∀ i < n, ∀ y, P i y → P (i + 1) (f i y)) : P n (countUp f x n) := by
  induction n with
  | zero => exact h
  | succ n ih =>
    exact hstep n (Nat.lt_succ_self n) _ (ih fun i hi => hstep i (Nat.lt_succ_of_lt hi))

/-- **Loop rule.** A loop ends as its rounds do, or fails if a round fails. -/
theorem countUpM_or {f : ℕ → σ → Option σ} {P : ℕ → σ → Prop} {Q : Prop} (h : P 0 x)
    (hstep : ∀ i < n, ∀ y, P i y → (∃ z, f i y = some z ∧ P (i + 1) z) ∨ f i y = none ∧ Q) :
    (∃ z, countUpM f x n = some z ∧ P n z) ∨ countUpM f x n = none ∧ Q := by
  induction n with
  | zero => exact .inl ⟨x, rfl, h⟩
  | succ n ih =>
    rcases ih fun i hi => hstep i (Nat.lt_succ_of_lt hi) with ⟨y, hy, hP⟩ | ⟨hnone, hQ⟩
    · rw [countUpM, hy, Option.bind_some]
      exact hstep n (Nat.lt_succ_self n) y hP
    · rw [countUpM, hnone, Option.bind_none]
      exact .inr ⟨rfl, hQ⟩

/-- **Loop rule.** If no round fails, the loop does not. -/
theorem countUpM_induction {f : ℕ → σ → Option σ} {P : ℕ → σ → Prop} (h : P 0 x)
    (hstep : ∀ i < n, ∀ y, P i y → ∃ z, f i y = some z ∧ P (i + 1) z) :
    ∃ z, countUpM f x n = some z ∧ P n z :=
  (countUpM_or h fun i hi y hy => .inl (hstep i hi y hy)).resolve_right And.right

/-- **Loop rule.** What holds after a loop in which no round has failed. -/
theorem countUpM_of_eq_some {f : ℕ → σ → Option σ} {P : ℕ → σ → Prop} (h : P 0 x)
    (hstep : ∀ i < n, ∀ y z, P i y → f i y = some z → P (i + 1) z) (hy : countUpM f x n = some y) :
    P n y := by
  induction n generalizing y with
  | zero =>
    obtain rfl := Option.some.inj hy
    exact h
  | succ n ih =>
    obtain ⟨z, hz, hy⟩ := Option.bind_eq_some_iff.mp hy
    exact hstep n (Nat.lt_succ_self n) z y (ih (fun i hi => hstep i (Nat.lt_succ_of_lt hi)) hz) hy

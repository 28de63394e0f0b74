import Mathlib.Data.Int.Basic
import Mathlib.Logic.Function.Basic
import Mathlib.Tactic.Ring

/-!
# C integers and counting loops

An `int` is an integer that wraps around at 32 bits, so its operations are those of `ℤ` followed
by `int32`. A loop `for(i = lo; i < hi; i ++)` is `forRange`, and `forRange_induction` is its loop
rule. `forRange_update` is the case met most often: a loop over a table that changes entry `i` in
round `i`. A loop that stops at the first entry of some kind is `findSlot`.
-/

/-- The `int` with the same low 32 bits. -/
def int32 (x : ℤ) : ℤ := x.bmod (2 ^ 32)

/-- The `unsigned` with the same low 32 bits. -/
def uint32 (x : ℤ) : ℕ := (x % 2 ^ 32).toNat

theorem int32_eq {x : ℤ} (hl : -2 ^ 31 ≤ x) (hu : x < 2 ^ 31) : int32 x = x :=
  Int.bmod_eq_of_le hl hu

theorem int32_eq_of_overflow {x : ℤ} (hl : 2 ^ 31 ≤ x) (hu : x < 2 ^ 32) :
    int32 x = x - 2 ^ 32 := by
  rw [int32, Int.bmod_def]
  split <;> omega

theorem le_int32 (x : ℤ) : -2 ^ 31 ≤ int32 x := by
  have := @Int.le_bmod x (2 ^ 32) (by decide)
  rw [int32]
  omega

theorem int32_lt (x : ℤ) : int32 x < 2 ^ 31 := by
  have := @Int.bmod_lt x (2 ^ 32) (by decide)
  rw [int32]
  omega

theorem int32_sub_one_ne (x : ℤ) : int32 (x - 1) ≠ x := by
  intro h
  have hmod : int32 (x - 1) % 2 ^ 32 = (x - 1) % 2 ^ 32 := Int.bmod_emod ..
  omega

theorem uint32_eq {x : ℤ} (hl : 0 ≤ x) (hu : x < 2 ^ 32) : uint32 x = x.toNat := by
  rw [uint32, Int.emod_eq_of_lt hl hu]

/-- **C division.** The quotient is rounded towards zero and the remainder has the sign of the
dividend. -/
theorem tdiv_tmod_spec (x : ℤ) {n : ℤ} (hn : 0 < n) :
    n * x.tdiv n + x.tmod n = x ∧
      (0 ≤ x → 0 ≤ x.tdiv n ∧ 0 ≤ x.tmod n ∧ x.tmod n < n) ∧
      (x < 0 → x.tdiv n ≤ 0 ∧ -n < x.tmod n ∧ x.tmod n ≤ 0) := by
  refine ⟨Int.mul_tdiv_add_tmod x n, fun hx => ?_, fun hx => ?_⟩
  · exact ⟨Int.tdiv_nonneg hx (Int.le_of_lt hn), Int.tmod_nonneg n hx,
      Int.tmod_lt_of_pos x hn⟩
  · have hneg : 0 ≤ -x := by omega
    have hdiv := Int.tdiv_nonneg hneg (Int.le_of_lt hn)
    have hmod := Int.tmod_nonneg n hneg
    have hlt := Int.tmod_lt_of_pos (-x) hn
    rw [Int.neg_tdiv] at hdiv
    rw [Int.neg_tmod] at hmod hlt
    omega

/-- The remainder, of whatever sign, is smaller than the divisor. -/
theorem tmod_bounds (x : ℤ) {n : ℤ} (hn : 0 < n) : -n < x.tmod n ∧ x.tmod n < n := by
  obtain ⟨-, hpos, hneg⟩ := tdiv_tmod_spec x hn
  rcases Int.lt_or_le x 0 with h | h
  · have := hneg h
    omega
  · have := hpos h
    omega

/-! ## Counting loops -/

section ForRange

variable {σ : Type*}

/-- `for(i = lo; i < hi; i ++) x = f(i, x);` -/
def forRange (lo hi : ℤ) (f : ℤ → σ → σ) (x : σ) : σ :=
  if lo < hi then forRange (lo + 1) hi f (f lo x) else x
termination_by (hi - lo).toNat
decreasing_by omega

variable {lo hi : ℤ} {f : ℤ → σ → σ} {x : σ}

theorem forRange_of_ge (h : hi ≤ lo) : forRange lo hi f x = x := by
  rw [forRange, if_neg (by omega)]

theorem forRange_of_lt (h : lo < hi) : forRange lo hi f x = forRange (lo + 1) hi f (f lo x) := by
  rw [forRange, if_pos h]

/-- **Loop rule.** What holds at the start and is preserved by round `i` holds at the end. -/
theorem forRange_induction {P : ℤ → σ → Prop} (hle : lo ≤ hi)
    (hstep : ∀ (i : ℤ) (x : σ), lo ≤ i → i < hi → P i x → P (i + 1) (f i x)) (h : P lo x) :
    P hi (forRange lo hi f x) := by
  induction hm : (hi - lo).toNat generalizing lo x with
  | zero =>
    obtain rfl : lo = hi := by omega
    rwa [forRange_of_ge (Int.le_refl _)]
  | succ m ih =>
    rw [forRange_of_lt (by omega)]
    refine ih (by omega) (fun i x hi => hstep i x (by omega)) ?_ (by omega)
    exact hstep lo x (Int.le_refl _) (by omega) h

/-- **A loop over a table.** When round `i` sets entry `i` from its old value, the loop sets
every entry in range and leaves the others. -/
theorem forRange_update {α : Type*} (g : α → α) (t : ℤ → α) (hle : lo ≤ hi) (j : ℤ) :
    forRange lo hi (fun i t => Function.update t i (g (t i))) t j =
      if lo ≤ j ∧ j < hi then g (t j) else t j := by
  refine forRange_induction
    (P := fun i (t' : ℤ → α) => t' j = if lo ≤ j ∧ j < i then g (t j) else t j) hle ?_ ?_
  · intro i t' hli hih hP
    rcases eq_or_ne j i with rfl | hne
    · rw [Function.update_self, hP, if_neg (by omega), if_pos ⟨hli, by omega⟩]
    · rw [Function.update_of_ne hne, hP]
      exact if_congr (by omega) rfl rfl
  · rw [if_neg (by omega)]

end ForRange

/-! ## Search loops -/

/-- `for(i = 0; i < n; i ++) if(p(i)) break;`: the `i` it stops at. -/
def findSlot (n : ℕ) (p : ℤ → Bool) : Option ℤ :=
  ((List.range n).find? fun i : ℕ => p i).map Int.ofNat

variable {n : ℕ} {p : ℤ → Bool}

theorem findSlot_eq_some {i : ℤ} (h : findSlot n p = some i) :
    0 ≤ i ∧ i < n ∧ p i = true ∧ ∀ j, 0 ≤ j → j < i → p j = false := by
  obtain ⟨k, hk, rfl⟩ := Option.map_eq_some_iff.mp h
  rw [List.find?_range_eq_some] at hk
  obtain ⟨hp, hmem, hbefore⟩ := hk
  rw [List.mem_range] at hmem
  refine ⟨Int.natCast_nonneg k, by simpa using hmem, hp, fun j hj hlt => ?_⟩
  lift j to ℕ using hj
  have := hbefore j (by simpa using hlt)
  simpa using this

theorem findSlot_eq_none : findSlot n p = none ↔ ∀ j : ℤ, 0 ≤ j → j < n → p j = false := by
  rw [findSlot, Option.map_eq_none_iff, List.find?_range_eq_none]
  constructor
  · intro h j hj hlt
    lift j to ℕ using hj
    simpa using h j (by simpa using hlt)
  · intro h i hi
    simpa using h i (Int.natCast_nonneg i) (by simpa using hi)

/-- The search succeeds as soon as one entry fits. -/
theorem exists_findSlot_eq_some {j : ℤ} (hj : 0 ≤ j) (hlt : j < n) (hp : p j = true) :
    ∃ i, findSlot n p = some i := by
  refine Option.ne_none_iff_exists'.mp fun hnone => ?_
  rw [findSlot_eq_none.mp hnone j hj hlt] at hp
  exact absurd hp (by decide)

/-- The search stops at the first entry that fits. -/
theorem findSlot_eq {i : ℤ} (hi : 0 ≤ i) (hlt : i < n) (hp : p i = true)
    (hbefore : ∀ j, 0 ≤ j → j < i → p j = false) : findSlot n p = some i := by
  obtain ⟨j, hj⟩ := exists_findSlot_eq_some hi hlt hp
  obtain ⟨hj0, -, hpj, hjbefore⟩ := findSlot_eq_some hj
  rw [hj]
  rcases lt_trichotomy j i with h | h | h
  · rw [hbefore j hj0 h] at hpj
    exact absurd hpj (by decide)
  · rw [h]
  · rw [hjbefore i hi h] at hp
    exact absurd hp (by decide)

import Mathlib.Data.Finset.Prod
import Mathlib.Data.Set.Insert

/-!
# Tenants of a pool

Tenants take units from a free list, keep them at places, and give them back when they leave. A unit
may be held by several tenants at once, but what a tenant holds at a place that is its own
(`Tenants.Own`) is held nowhere else: at the places that are private to every tenant, and at all
places of a tenant that shares nothing.

Such a tenant can give back all it holds (`Tenants.Ok.leave`). One that shares could not: the others
would go on holding what is free.

## Main definitions

* `Tenants` — the tenants that are there, those that share nothing, and what they hold at which
  place
* `Terms` — what is agreed: the places that are private to every tenant, the places for data, the
  units that are never free, and those of them that are never held for data
* `Own` — the place is the tenant's own
* `Ok` — nothing is held that is free, and nothing at an own place that is held elsewhere

## Main results

* `Tenants.Ok.enter` — a tenant enters, with units of the free list and units of another tenant
* `Tenants.Ok.leave` — a tenant leaves that shares nothing
* `Tenants.Ok.card_le` — how many tenants there can be
-/

variable {ι κ α : Type*}

/-- The tenants that are there, those that share nothing, and what they hold at which place. -/
structure Tenants (ι κ α : Type*) where
  live : Set ι
  sole : Set ι
  holds : ι → κ → Option α

/-- What is agreed: the places that are private to every tenant, the places for data, the units that
are never free, and those of them that are never held for data. -/
structure Terms (κ α : Type*) where
  priv : Set κ
  data : Set κ
  kept : Set α
  still : Set α
  still_kept : still ⊆ kept

namespace Tenants

variable {T : Tenants ι κ α} {R : Terms κ α} {free free' : List α} {i c : ι}

/-- The place is the tenant's own. -/
def Own (T : Tenants ι κ α) (R : Terms κ α) (i : ι) (x : κ) : Prop := i ∈ T.sole ∨ x ∈ R.priv

/-- **Nothing is held that is free**, and nothing at an own place that is held elsewhere. What is
held for data is held for nothing else. -/
structure Ok (T : Tenants ι κ α) (R : Terms κ α) (free : List α) : Prop where
  notKept : ∀ p ∈ free, p ∉ R.kept
  notFree : ∀ i ∈ T.live, ∀ x p, T.holds i x = some p → p ∉ free
  alone : ∀ i ∈ T.live, ∀ x, T.Own R i x → ∀ j ∈ T.live, ∀ y p,
    T.holds i x = some p → T.holds j y = some p → i = j ∧ x = y
  soleKept : ∀ i ∈ T.live, i ∈ T.sole → ∀ x p, T.holds i x = some p → p ∉ R.kept
  sorted : ∀ i ∈ T.live, ∀ x ∈ R.data, ∀ j ∈ T.live, ∀ y p,
    T.holds i x = some p → T.holds j y = some p → y ∈ R.data
  notStill : ∀ i ∈ T.live, ∀ x ∈ R.data, ∀ p, T.holds i x = some p → p ∉ R.still

/-- Only the tenants that are there matter, and one may begin to share. -/
theorem Ok.mono {T' : Tenants ι κ α} (h : T.Ok R free) (hlive : T'.live ⊆ T.live)
    (hsole : ∀ i ∈ T'.live, i ∈ T'.sole → i ∈ T.sole)
    (hholds : ∀ i ∈ T'.live, T'.holds i = T.holds i) : T'.Ok R free := by
  refine ⟨h.notKept, fun i hi x p hx => ?_, fun i hi x hown j hj y p hx hy => ?_,
    fun i hi hs x p hx => ?_, fun i hi x hd j hj y p hx hy => ?_, fun i hi x hd p hx => ?_⟩ <;>
    rw [hholds i hi] at hx
  · exact h.notFree i (hlive hi) x p hx
  · rw [hholds j hj] at hy
    exact h.alone i (hlive hi) x (hown.imp_left (hsole i hi)) j (hlive hj) y p hx hy
  · exact h.soleKept i (hlive hi) (hsole i hi hs) x p hx
  · rw [hholds j hj] at hy
    exact h.sorted i (hlive hi) x hd j (hlive hj) y p hx hy
  · exact h.notStill i (hlive hi) x hd p hx

/-- **A tenant enters.** At its own places it has units that were free, one for each place. At
others it may have what another tenant has at a place of the same kind that is no longer that
tenant's own. -/
theorem Ok.enter [DecidableEq ι] {sole : Set ι} {f : κ → Option α} (h : T.Ok R free)
    (hc : c ∉ T.live) (hfree : free' ⊆ free) (hsole : ∀ i ∈ sole, i ≠ c → i ∈ T.sole)
    (htaken : ∀ x p, f x = some p → p ∉ free')
    (hnew : ∀ x p, f x = some p → p ∈ free ∨ ¬(c ∈ sole ∨ x ∈ R.priv) ∧
      ∃ i ∈ T.live, i ∉ sole ∧ ∃ y ∉ R.priv, (x ∈ R.data ↔ y ∈ R.data) ∧ T.holds i y = some p)
    (hinj : ∀ x y p, p ∈ free → f x = some p → f y = some p → x = y) :
    Ok ⟨insert c T.live, sole, Function.update T.holds c f⟩ R free' := by
  have hne : ∀ i ∈ T.live, i ≠ c := fun i hi heq => hc (heq ▸ hi)
  have hold : ∀ i ∈ T.live, Function.update T.holds c f i = T.holds i := fun i hi =>
    Function.update_of_ne (hne i hi) ..
  have hself : Function.update T.holds c f c = f := Function.update_self ..
  refine ⟨fun p hp => h.notKept p (hfree hp), fun i hi x p hx => ?_,
    fun i hi x hown j hj y p hx hy => ?_, fun i hi hs x p hx => ?_,
    fun i hi x hd j hj y p hx hy => ?_, fun i hi x hd p hx => ?_⟩
  · dsimp only at hx
    rcases hi with rfl | hi
    · rw [hself] at hx
      exact htaken x p hx
    · rw [hold i hi] at hx
      exact fun hp => h.notFree i hi x p hx (hfree hp)
  · dsimp only [Own] at hown hx hy
    rcases hi with rfl | hi <;> rcases hj with rfl | hj
    · rw [hself] at hx hy
      have hp := (hnew x p hx).resolve_right fun hshared => hshared.1 hown
      exact ⟨rfl, hinj x y p hp hx hy⟩
    · rw [hself] at hx
      rw [hold j hj] at hy
      have hp := (hnew x p hx).resolve_right fun hshared => hshared.1 hown
      exact absurd hp (h.notFree j hj y p hy)
    · -- the new tenant shares it, so the place is not the old one's own
      rw [hold i hi] at hx
      rw [hself] at hy
      rcases hnew y p hy with hp | ⟨-, k, hk, hks, z, hz, -, hkz⟩
      · exact absurd hp (h.notFree i hi x p hx)
      · have hown' : T.Own R i x := hown.imp_left fun hs => hsole i hs (hne i hi)
        obtain ⟨rfl, rfl⟩ := h.alone i hi x hown' k hk z p hx hkz
        exact absurd hown (not_or.mpr ⟨hks, hz⟩)
    · rw [hold i hi] at hx
      rw [hold j hj] at hy
      exact h.alone i hi x (hown.imp_left fun hs => hsole i hs (hne i hi)) j hj y p hx hy
  · dsimp only at hs hx
    rcases hi with rfl | hi
    · rw [hself] at hx
      exact h.notKept p ((hnew x p hx).resolve_right fun hshared => hshared.1 (.inl hs))
    · rw [hold i hi] at hx
      exact h.soleKept i hi (hsole i hs (hne i hi)) x p hx
  · dsimp only at hx hy
    rcases hi with rfl | hi <;> rcases hj with rfl | hj
    · rw [hself] at hx hy
      rcases hnew x p hx with hp | ⟨-, k, hk, -, z, -, hxz, hkz⟩
      · exact hinj x y p hp hx hy ▸ hd
      · rcases hnew y p hy with hp | ⟨-, k', hk', -, z', -, hyz, hkz'⟩
        · exact absurd hp (h.notFree k hk z p hkz)
        · exact hyz.mpr (h.sorted k hk z (hxz.mp hd) k' hk' z' p hkz hkz')
    · rw [hself] at hx
      rw [hold j hj] at hy
      rcases hnew x p hx with hp | ⟨-, k, hk, -, z, -, hxz, hkz⟩
      · exact absurd hp (h.notFree j hj y p hy)
      · exact h.sorted k hk z (hxz.mp hd) j hj y p hkz hy
    · rw [hold i hi] at hx
      rw [hself] at hy
      rcases hnew y p hy with hp | ⟨-, k, hk, -, z, -, hyz, hkz⟩
      · exact absurd hp (h.notFree i hi x p hx)
      · exact hyz.mpr (h.sorted i hi x hd k hk z p hx hkz)
    · rw [hold i hi] at hx
      rw [hold j hj] at hy
      exact h.sorted i hi x hd j hj y p hx hy
  · dsimp only at hx
    rcases hi with rfl | hi
    · rw [hself] at hx
      rcases hnew x p hx with hp | ⟨-, k, hk, -, z, -, hxz, hkz⟩
      · exact fun hstill => h.notKept p hp (R.still_kept hstill)
      · exact h.notStill k hk z (hxz.mp hd) p hkz
    · rw [hold i hi] at hx
      exact h.notStill i hi x hd p hx

/-- **A tenant leaves** that shares nothing, and what it held is free. -/
theorem Ok.leave (h : T.Ok R free) (hi : i ∈ T.live) (hs : i ∈ T.sole)
    (hfree : ∀ p, p ∈ free' ↔ p ∈ free ∨ ∃ x, T.holds i x = some p) :
    Ok ⟨T.live \ {i}, T.sole, T.holds⟩ R free' := by
  refine ⟨fun p hp => ?_, fun j hj y p hy hp => ?_, fun j hj x hown k hk y p hx hy => ?_,
    fun j hj hjs x p hx => h.soleKept j hj.1 hjs x p hx,
    fun j hj x hd k hk y p hx hy => h.sorted j hj.1 x hd k hk.1 y p hx hy,
    fun j hj x hd p hx => h.notStill j hj.1 x hd p hx⟩
  · rcases (hfree p).mp hp with hp | ⟨x, hx⟩
    · exact h.notKept p hp
    · exact h.soleKept i hi hs x p hx
  · rcases (hfree p).mp hp with hp | ⟨x, hx⟩
    · exact h.notFree j hj.1 y p hy hp
    · exact hj.2 (h.alone i hi x (.inl hs) j hj.1 y p hx hy).1.symm
  · exact h.alone j hj.1 x hown k hk.1 y p hx hy

/-- **How many there can be**, when each has a unit at each of the given private places. -/
theorem Ok.card_le {T : Tenants ι κ ℕ} {R : Terms κ ℕ} {free : List ℕ} {n : ℕ} {s : Finset ι}
    {t : Finset κ} (h : T.Ok R free) (hs : ∀ i ∈ s, i ∈ T.live) (ht : ∀ x ∈ t, x ∈ R.priv)
    (hfull : ∀ i ∈ s, ∀ x ∈ t, ∃ p < n, T.holds i x = some p) : s.card * t.card ≤ n := by
  rw [← Finset.card_product, ← Finset.card_range n]
  refine Finset.card_le_card_of_injOn (fun r => (T.holds r.1 r.2).getD 0) ?_ ?_
  · rintro ⟨i, x⟩ hr
    obtain ⟨hi, hx⟩ := Finset.mem_product.mp (Finset.mem_coe.mp hr)
    obtain ⟨p, hp, hhold⟩ := hfull i hi x hx
    dsimp only
    rw [hhold]
    exact Finset.mem_coe.mpr (Finset.mem_range.mpr hp)
  · rintro ⟨i, x⟩ hr ⟨j, y⟩ hr' heq
    obtain ⟨hi, hx⟩ := Finset.mem_product.mp (Finset.mem_coe.mp hr)
    obtain ⟨hj, hy⟩ := Finset.mem_product.mp (Finset.mem_coe.mp hr')
    obtain ⟨p, -, hp⟩ := hfull i hi x hx
    obtain ⟨q, -, hq⟩ := hfull j hj y hy
    dsimp only at hi hx hj hy hp hq heq
    rw [hp, hq, Option.getD_some, Option.getD_some] at heq
    obtain ⟨rfl, rfl⟩ := h.alone i (hs i hi) x (.inr (ht x hx)) j (hs j hj) y q
      (heq ▸ hp) hq
    rfl

end Tenants

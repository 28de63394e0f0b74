import Mathlib.Data.Set.Function
import Mathlib.Logic.Function.Basic
import OsLab.Lib.CountUp

/-!
# Painting

A store is painted when some of its places get one and the same value and the others keep theirs.
Which places a program paints is put together from its parts: one write paints one place, and what
is painted twice in the same colour is painted.
-/

variable {α β : Type*}

/-- `m'` is `m` with `v` in the places `S`. -/
structure Painted (m : α → β) (S : α → Prop) (v : β) (m' : α → β) : Prop where
  inked : ∀ a, S a → m' a = v
  kept : ∀ a, ¬S a → m' a = m a

namespace Painted

variable {m m' m'' : α → β} {S T : α → Prop} {v : β}

/-- Nothing is painted. -/
theorem refl (m : α → β) (v : β) : Painted m (fun _ => False) v m :=
  ⟨fun _ => False.elim, fun _ _ => rfl⟩

theorem update [DecidableEq α] (m : α → β) (a : α) (v : β) :
    Painted m (· = a) v (Function.update m a v) where
  inked b hb := by rw [hb, Function.update_self]
  kept b hb := Function.update_of_ne hb v m

theorem union (h : Painted m S v m') (h' : Painted m' T v m'') :
    Painted m (fun a => S a ∨ T a) v m'' where
  inked a ha := by
    by_cases hT : T a
    · exact h'.inked a hT
    · rw [h'.kept a hT, h.inked a (ha.resolve_right hT)]
  kept a ha := by
    rw [h'.kept a fun hT => ha (.inr hT), h.kept a fun hS => ha (.inl hS)]

theorem congr (h : Painted m S v m') (hST : ∀ a, S a ↔ T a) : Painted m T v m' :=
  ⟨fun a ha => h.inked a ((hST a).mpr ha), fun a ha => h.kept a fun hS => ha ((hST a).mp hS)⟩

/-- **Frame rule.** The same paint on two stores that agree somewhere. -/
theorem eqOn {n n' : α → β} {R : Set α} (h : Painted m S v m') (h' : Painted n S v n')
    (heq : Set.EqOn m n R) : Set.EqOn m' n' R := by
  intro a ha
  by_cases hS : S a
  · rw [h.inked a hS, h'.inked a hS]
  · rw [h.kept a hS, h'.kept a hS, heq ha]

/-- **Loop rule.** A loop paints what its rounds paint. -/
theorem countUp {f : ℕ → (α → β) → α → β} {S : ℕ → α → Prop} (n : ℕ)
    (h : ∀ i < n, ∀ m, Painted m (S i) v (f i m)) :
    Painted m (fun a => ∃ i < n, S i a) v (countUp f m n) := by
  refine countUp_induction (P := fun i (m' : α → β) => Painted m (fun a => ∃ k < i, S k a) v m')
    ((refl m v).congr fun a => ?_) fun i hi m' hm' => (hm'.union (h i hi m')).congr fun a => ?_
  · simp
  · simp only [Nat.lt_succ_iff_lt_or_eq]
    constructor
    · rintro (⟨k, hk, ha⟩ | ha)
      · exact ⟨k, .inl hk, ha⟩
      · exact ⟨i, .inr rfl, ha⟩
    · rintro ⟨k, hk | rfl, ha⟩
      · exact .inl ⟨k, hk, ha⟩
      · exact .inr ha

/-- **Loop rule.** Over a list. -/
theorem foldl {ι : Type*} {f : (α → β) → ι → α → β} {S : ι → α → Prop}
    (h : ∀ i m, Painted m (S i) v (f m i)) (l : List ι) :
    Painted m (fun a => ∃ i ∈ l, S i a) v (l.foldl f m) := by
  induction l generalizing m with
  | nil => exact (refl m v).congr fun a => by simp
  | cons i l ih => exact ((h i m).union ih).congr fun a => by simp

end Painted

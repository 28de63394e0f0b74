import Mathlib.Data.Nat.Notation
import Mathlib.Logic.Function.Basic

/-!
# One token

The accounting behind mutual exclusion. Each of a family of parties has a number of tokens, and
`Token t o` says that there is at most one token in all: none if `o` is `none`, and otherwise one,
which party `o` has. A lock that is taken makes the token, and a lock that is given back destroys
it.
-/

variable {κ : Type*} [DecidableEq κ]

/-- The only token, if there is one, is with `o`. -/
def Token (t : κ → ℕ) (o : Option κ) : Prop := ∀ i, t i = if o = some i then 1 else 0

namespace Token

variable {t t' : κ → ℕ} {o : Option κ} {i j : κ}

/-- Who has a token is the owner. -/
theorem eq_some (h : Token t o) (hi : 0 < t i) : o = some i ∧ t i = 1 := by
  have hti := h i
  split at hti
  · exact ⟨‹_›, hti⟩
  · omega

theorem eq_zero (h : Token t none) : t i = 0 := h i

/-- **Mutual exclusion.** -/
theorem unique (h : Token t o) (hi : 0 < t i) (hj : 0 < t j) : i = j :=
  Option.some.inj ((h.eq_some hi).1.symm.trans (h.eq_some hj).1)

/-- The token is made. -/
theorem acquire (h : Token t none) (ht : t' = Function.update t i (t i + 1)) :
    Token t' (some i) := by
  intro j
  rw [ht]
  rcases eq_or_ne j i with rfl | hne
  · rw [Function.update_self, h.eq_zero, if_pos rfl]
  · rw [Function.update_of_ne hne, h.eq_zero, if_neg fun hij => hne (Option.some.inj hij).symm]

/-- The token is destroyed. -/
theorem release (h : Token t o) (hi : 0 < t i) (ht : t' = Function.update t i (t i - 1)) :
    Token t' none := by
  obtain ⟨rfl, hone⟩ := h.eq_some hi
  intro j
  rw [ht, if_neg nofun]
  rcases eq_or_ne j i with rfl | hne
  · rw [Function.update_self, hone]
  · rw [Function.update_of_ne hne, h j, if_neg fun hij => hne (Option.some.inj hij).symm]

end Token

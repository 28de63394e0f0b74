import Mathlib.Data.List.Basic

/-!
# First-fit allocation

An allocator hands out natural numbers. What it has handed out so far is a predicate
`used : ℕ → Bool`, and an allocation at or above `lo` takes the smallest index that is still
clear. `FirstFit used lo b` says that `b` is that index; it determines `b`, so an implementation
that meets it is functionally specified. `FirstFits` is a sequence of such allocations, each with a
start of its own.

Marking the index just taken is `Function.update used b true`. A list of indices taken over a
run stays free of repetitions because every new index was clear and every old one is used:
`Taken` packages that argument once.
-/

/-- `b` is the smallest index at or above `lo` that is not in use. -/
structure FirstFit (used : ℕ → Bool) (lo b : ℕ) : Prop where
  /-- The index is in the searched range. -/
  le : lo ≤ b
  /-- It is clear. -/
  clear : used b = false
  /-- Everything searched before it is in use. -/
  below : ∀ c, lo ≤ c → c < b → used c = true

namespace FirstFit

variable {used : ℕ → Bool} {lo b c : ℕ}

theorem le_of_clear (h : FirstFit used lo b) (hc : lo ≤ c) (hclear : used c = false) : b ≤ c := by
  by_contra hlt
  have := h.below c hc (Nat.not_le.mp hlt)
  simp [hclear] at this

theorem unique (hb : FirstFit used lo b) (hc : FirstFit used lo c) : b = c :=
  Nat.le_antisymm (hb.le_of_clear hc.le hc.clear) (hc.le_of_clear hb.le hb.clear)

end FirstFit

/-- The indices in `taken` are in use and pairwise distinct. -/
structure Taken (used : ℕ → Bool) (taken : List ℕ) : Prop where
  /-- Every index taken is in use. -/
  used : ∀ b ∈ taken, used b = true
  /-- No index was taken twice. -/
  nodup : taken.Nodup

namespace Taken

variable {used : ℕ → Bool} {taken : List ℕ} {b : ℕ}

theorem nil (used : ℕ → Bool) : Taken used [] := ⟨by simp, List.nodup_nil⟩

theorem perm {taken' : List ℕ} (h : Taken used taken) (hp : taken.Perm taken') :
    Taken used taken' :=
  ⟨fun c hc => h.used c (hp.mem_iff.mpr hc), hp.nodup_iff.mp h.nodup⟩

/-- **Taking a clear index.** -/
theorem take (h : Taken used taken) (hb : used b = false) :
    Taken (Function.update used b true) (b :: taken) := by
  have hnot : b ∉ taken := fun hmem => by simp [h.used b hmem] at hb
  refine ⟨fun c hc => ?_, List.nodup_cons.mpr ⟨hnot, h.nodup⟩⟩
  rcases List.mem_cons.mp hc with rfl | hc
  · simp
  · have hne : c ≠ b := fun heq => hnot (heq ▸ hc)
    simp [hne, h.used c hc]

end Taken

/-- The requests of a list are served one after the other, each with the smallest index at or above
`lo` of the request that is clear; `used'` is what is in use afterwards. -/
inductive FirstFits {α : Type*} (lo : α → ℕ) : (ℕ → Bool) → List α → List ℕ → (ℕ → Bool) → Prop
  | nil (used : ℕ → Bool) : FirstFits lo used [] [] used
  | cons {used used' : ℕ → Bool} {r : α} {b : ℕ} {rs : List α} {bs : List ℕ} :
    FirstFit used (lo r) b → FirstFits lo (Function.update used b true) rs bs used' →
      FirstFits lo used (r :: rs) (b :: bs) used'

namespace FirstFits

variable {α : Type*} {lo : α → ℕ} {used used' : ℕ → Bool} {rs : List α} {bs : List ℕ}

/-- Everything that is taken was clear. -/
theorem clear (h : FirstFits lo used rs bs used') {c : ℕ} (hc : c ∈ bs) : used c = false := by
  induction h with
  | nil used => exact absurd hc (List.not_mem_nil)
  | @cons used used' r b rs bs hfit hrest ih =>
    rcases List.mem_cons.mp hc with rfl | hc
    · exact hfit.clear
    · have hupdate := ih hc
      rw [Function.update_apply] at hupdate
      split at hupdate
      · exact absurd hupdate (by decide)
      · exact hupdate

/-- **No index is taken twice.** -/
theorem nodup (h : FirstFits lo used rs bs used') : bs.Nodup := by
  induction h with
  | nil used => exact List.nodup_nil
  | @cons used used' r b rs bs hfit hrest ih =>
    refine List.nodup_cons.mpr ⟨fun hb => ?_, ih⟩
    have hclear := hrest.clear hb
    rw [Function.update_self] at hclear
    exact absurd hclear (by decide)

/-- A request gets an index from its own start on. -/
theorem le (h : FirstFits lo used rs bs used') {e : α × ℕ} (he : e ∈ rs.zip bs) : lo e.1 ≤ e.2 := by
  induction h with
  | nil used => exact absurd he (List.not_mem_nil)
  | @cons used used' r b rs bs hfit hrest ih =>
    rcases List.mem_cons.mp he with rfl | he
    · exact hfit.le
    · exact ih he

end FirstFits

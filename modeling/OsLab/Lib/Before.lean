import Mathlib.Data.List.Infix

/-!
# What came first

A history is a list, the latest first. `Before P Q l` says that `P` came true at some point of the
history `l`, and `Q` at no point up to then. It stays so when the history goes on (`Before.cons`),
and of two properties only one can be before the other (`Before.asymm`).
-/

variable {α : Type*}

/-- `P` came true before `Q` did. -/
def Before (P Q : α → Prop) (l : List α) : Prop :=
  ∃ b older, (b :: older) <:+ l ∧ P b ∧ ∀ x ∈ b :: older, ¬Q x

instance (P Q : α → Prop) [DecidablePred P] [DecidablePred Q] (l : List α) :
    Decidable (Before P Q l) :=
  decidable_of_iff (∃ t ∈ l.tails, ∃ b ∈ t.head?, P b ∧ ∀ x ∈ t, ¬Q x) (by
    constructor
    · rintro ⟨t, ht, b, hb, hP, hQ⟩
      obtain ⟨older, rfl⟩ := List.head?_eq_some_iff.mp hb
      exact ⟨b, older, (List.mem_tails _ _).mp ht, hP, hQ⟩
    · rintro ⟨b, older, hsuffix, hP, hQ⟩
      exact ⟨b :: older, (List.mem_tails _ _).mpr hsuffix, b, rfl, hP, hQ⟩)

namespace Before

variable {P Q : α → Prop} {a : α} {l : List α}

/-- `P` comes true now. -/
theorem head (hP : P a) (hQ : ∀ x ∈ a :: l, ¬Q x) : Before P Q (a :: l) :=
  ⟨a, l, List.suffix_refl _, hP, hQ⟩

/-- The history goes on. -/
theorem cons (h : Before P Q l) (a : α) : Before P Q (a :: l) := by
  obtain ⟨b, older, hsuffix, hP, hQ⟩ := h
  exact ⟨b, older, hsuffix.trans (List.suffix_cons a l), hP, hQ⟩

/-- **Only one of two can be first.** -/
theorem asymm (h : Before P Q l) (h' : Before Q P l) : False := by
  obtain ⟨b, older, hsuffix, hP, hQ⟩ := h
  obtain ⟨b', older', hsuffix', hQ', hP'⟩ := h'
  rcases List.suffix_or_suffix_of_suffix hsuffix hsuffix' with hle | hle
  · exact hP' b (hle.mem List.mem_cons_self) hP
  · exact hQ b' (hle.mem List.mem_cons_self) hQ'

end Before

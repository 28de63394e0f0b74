import Mathlib.Data.List.Basic

/-!
# Runs with results

A system whose steps are computed and yield a result each. `run` does a list of actions and collects
what they yield, `kept` is the list without the actions whose result is to be dropped, and `Along`
says of a run that a condition holds at each of its steps. Where a result that is dropped comes with
no change of the state, the kept actions do what all of them do (`run_kept`). A simulation of the
steps is one of the runs (`run_simulates`).
-/

namespace Results

variable {σ α β : Type*} {step : σ → α → Option (β × σ)} {drop : β → Bool} {P Q : σ → α → Prop}

/-- The results of the actions and the state after them. -/
def run (step : σ → α → Option (β × σ)) : List α → σ → Option (List β × σ)
  | [], s => some ([], s)
  | a :: l, s => (step s a).bind fun x => (run step l x.2).map fun y => (x.1 :: y.1, y.2)

/-- The actions without those whose result is dropped. -/
def kept (step : σ → α → Option (β × σ)) (drop : β → Bool) : List α → σ → List α
  | [], _ => []
  | a :: l, s =>
    match step s a with
    | some x => if drop x.1 then kept step drop l x.2 else a :: kept step drop l x.2
    | none => a :: l

/-- The condition holds at every step. -/
def Along (step : σ → α → Option (β × σ)) (P : σ → α → Prop) : List α → σ → Prop
  | [], _ => True
  | a :: l, s => P s a ∧ ∀ x, step s a = some x → Along step P l x.2

/-- A result that is dropped comes with no change. -/
def Leaves (step : σ → α → Option (β × σ)) (drop : β → Bool) (s : σ) (a : α) : Prop :=
  ∀ x, step s a = some x → drop x.1 = true → x.2 = s

theorem Along.mono (h : ∀ s a, P s a → Q s a) {l : List α} {s : σ} (hl : Along step P l s) :
    Along step Q l s := by
  induction l generalizing s with
  | nil => trivial
  | cons a l ih => exact ⟨h s a hl.1, fun x hx => ih (hl.2 x hx)⟩

/-- **Steps that leave the state alone** can be left out. -/
theorem run_kept {l : List α} {s : σ} (h : Along step (Leaves step drop) l s) :
    run step (kept step drop l s) s =
      (run step l s).map fun y => (y.1.filter fun b => !drop b, y.2) := by
  induction l generalizing s with
  | nil => rfl
  | cons a l ih =>
    obtain ⟨hleaves, hrest⟩ := h
    cases hstep : step s a with
    | none => simp only [kept, hstep, run, Option.bind_none, Option.map_none]
    | some x =>
      have ih' := ih (hrest x hstep)
      have hall : run step (a :: l) s =
          (run step l x.2).map fun y => (x.1 :: y.1, y.2) := by
        rw [run, hstep, Option.bind_some]
      rw [hall, Option.map_map]
      cases hdrop : drop x.1 with
      | true =>
        have hsame : x.2 = s := hleaves x hstep hdrop
        have hkept : kept step drop (a :: l) s = kept step drop l x.2 := by
          simp [kept, hstep, hdrop]
        rw [hkept]
        rw [hsame] at ih' ⊢
        rw [ih']
        refine congrArg (Option.map · _) (funext fun y => ?_)
        exact congrArg (·, y.2) (List.filter_cons_of_neg (by simp [hdrop])).symm
      | false =>
        have hkept : kept step drop (a :: l) s = a :: kept step drop l x.2 := by
          simp [kept, hstep, hdrop]
        rw [hkept, run, hstep, Option.bind_some, ih', Option.map_map]
        refine congrArg (Option.map · _) (funext fun y => ?_)
        exact congrArg (·, y.2) (List.filter_cons_of_pos (by simp [hdrop])).symm

/-- **Simulation.** What a specification answers a system answers, if each step that the
specification allows does, and keeps the relation between the two. -/
theorem run_simulates {τ : Type*} {spec : τ → α → Option (β × τ)} {R : σ → τ → Prop}
    (hstep : ∀ s t a b t', R s t → spec t a = some (b, t') →
      ∃ s', step s a = some (b, s') ∧ R s' t')
    {l : List α} {s : σ} {t t' : τ} {bs : List β} (h : R s t)
    (hrun : run spec l t = some (bs, t')) :
    ∃ s', run step l s = some (bs, s') ∧ R s' t' := by
  induction l generalizing s t bs with
  | nil =>
    obtain ⟨rfl, rfl⟩ := Prod.mk.inj (Option.some.inj hrun)
    exact ⟨s, rfl, h⟩
  | cons a l ih =>
    obtain ⟨⟨b, u⟩, hspec, hrest⟩ := Option.bind_eq_some_iff.mp hrun
    obtain ⟨⟨bs', u'⟩, hspecs, heq⟩ := Option.map_eq_some_iff.mp hrest
    obtain ⟨rfl, rfl⟩ := Prod.mk.inj heq
    obtain ⟨v, hv, hR⟩ := hstep s t a b u h hspec
    obtain ⟨w, hw, hR'⟩ := ih hR hspecs
    refine ⟨w, ?_, hR'⟩
    rw [run, hv, Option.bind_some, hw]
    rfl

end Results

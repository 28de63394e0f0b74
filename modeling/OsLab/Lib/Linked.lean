import Mathlib.Data.List.Nodup
import Mathlib.Logic.Function.Basic

/-!
# Intrusive lists

A list that is threaded through its own elements: every element has a link to the next, and a head
points to the first. `Linked next head l` says that following the links from `head` one comes by the
elements of `l`, in order, and then to an end.

The links determine the list (`Linked.unique`), so no element is on it twice (`Linked.nodup`).
Taking the first element off is following its link, and `Linked.push` is the law for putting one in
front.
-/

variable {α : Type*} {next next' : α → Option α} {head : Option α} {a : α} {l l' : List α}

/-- From `head`, following `next`, lies the list `l`. -/
def Linked (next : α → Option α) : Option α → List α → Prop
  | head, [] => head = none
  | head, a :: l => head = some a ∧ Linked next (next a) l

namespace Linked

theorem head_eq (h : Linked next head (a :: l)) : head = some a := h.1

/-- **Taking the first element off.** -/
theorem tail (h : Linked next head (a :: l)) : Linked next (next a) l := h.2

theorem eq_nil (h : Linked next none l) : l = [] := by
  cases l with
  | nil => rfl
  | cons b l => exact absurd h.1.symm (Option.some_ne_none b)

theorem exists_cons (h : Linked next (some a) l) :
    ∃ l', l = a :: l' ∧ Linked next (next a) l' := by
  cases l with
  | nil => exact absurd h (Option.some_ne_none a)
  | cons b l =>
    obtain ⟨hb, hl⟩ := h
    obtain rfl := Option.some.inj hb
    exact ⟨l, rfl, hl⟩

/-- Only the links of the elements matter. -/
theorem congr (h : Linked next head l) (heq : ∀ b ∈ l, next' b = next b) : Linked next' head l := by
  induction l generalizing head with
  | nil => exact h
  | cons b l ih =>
    refine ⟨h.1, ?_⟩
    rw [heq b (List.mem_cons_self ..)]
    exact ih h.2 fun c hc => heq c (List.mem_cons_of_mem b hc)

/-- The links determine the list. -/
theorem unique (h : Linked next head l) (h' : Linked next head l') : l = l' := by
  induction l generalizing head l' with
  | nil =>
    obtain rfl : head = none := h
    exact h'.eq_nil.symm
  | cons b l ih =>
    obtain rfl : head = some b := h.1
    obtain ⟨l'', rfl, hl''⟩ := h'.exists_cons
    rw [ih h.2 hl'']

/-- The list from one of its elements on. -/
theorem from_mem {s t : List α} (h : Linked next head (s ++ a :: t)) :
    Linked next (some a) (a :: t) := by
  induction s generalizing head with
  | nil =>
    obtain rfl : head = some a := h.1
    exact h
  | cons b s ih => exact ih h.2

/-- **No element is on the list twice.** -/
theorem nodup (h : Linked next head l) : l.Nodup := by
  induction l generalizing head with
  | nil => exact List.nodup_nil
  | cons b l ih =>
    refine List.nodup_cons.mpr ⟨fun hmem => ?_, ih h.2⟩
    -- from the second occurrence on it would be the same list again
    obtain ⟨s, t, rfl⟩ := List.append_of_mem hmem
    obtain rfl : head = some b := h.1
    have hsame := congrArg List.length (h.unique (from_mem h.2))
    simp only [List.length_cons, List.length_append] at hsame
    omega

/-- **Putting an element in front.** -/
theorem push [DecidableEq α] (h : Linked next head l) (ha : a ∉ l) :
    Linked (Function.update next a head) (some a) (a :: l) := by
  refine ⟨rfl, ?_⟩
  rw [Function.update_self]
  refine h.congr fun b hb => Function.update_of_ne ?_ ..
  rintro rfl
  exact ha hb

end Linked

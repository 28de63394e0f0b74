import Mathlib.Logic.Function.Iterate

/-!
# Programs that put out elements

A program that is handed a function `put` and does nothing but call it cannot look at the state that
`put` works on. What it puts out is then a list, and with another `put` it does what that one does
with the elements of this list. `PutMap.foldl` says so for any such program: the program has to
carry over every map `g` from one state to another (`PutMap`), and of these one takes the list that
has been collected to the state that the list leads to.
-/

variable {α σ τ : Type*}

/-- `g` takes what is done by `put` to what is done by `put'`. -/
def PutMap (put : α → σ → σ) (put' : α → τ → τ) (g : σ → τ) : Prop :=
  ∀ a s, g (put a s) = put' a (g s)

/-- The output is collected. -/
def collect (a : α) (out : List α) : List α := out ++ [a]

/-- One element after the other is put out. -/
def putAll (put : α → σ → σ) (out : List α) (s : σ) : σ := out.foldl (fun s a => put a s) s

namespace PutMap

variable {put : α → σ → σ} {put' : α → τ → τ} {g : σ → τ}

/-- The same element, several times. -/
theorem iterate (h : PutMap put put' g) (a : α) (n : ℕ) (s : σ) :
    g ((put a)^[n] s) = (put' a)^[n] (g s) := by
  have hsemi : Function.Semiconj g (put a) (put' a) := h a
  exact hsemi.iterate_right n s

/-- A list of elements. -/
theorem apply_putAll (h : PutMap put put' g) (out : List α) (s : σ) :
    g (putAll put out s) = putAll put' out (g s) := by
  induction out generalizing s with
  | nil => rfl
  | cons a out ih => exact (ih (put a s)).trans (congrArg _ (h a s))

/-- From the list that has been collected to the state it leads to. -/
theorem foldl (put : α → σ → σ) (s : σ) : PutMap collect put fun out => putAll put out s := by
  intro a out
  simp [putAll, collect]

end PutMap

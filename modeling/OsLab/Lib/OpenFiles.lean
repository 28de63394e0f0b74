import Mathlib.Data.Int.Notation
import Mathlib.Logic.Function.Basic
import OsLab.Lib.ListSplice

/-!
# Open files

What files are, for those who use them. A file is a list. A handle is open on a file and has a
cursor in it; several handles may be on one file, each with its own cursor, and what is written
through one is read through the others. A handle that is not open for reading or writing refuses to.

Nothing is said about what would leave the file (`none`): the files have the length they have.
-/

variable {η φ β : Type*}

/-- The contents of the files, and the cursor of each handle. -/
structure OpenFiles (η φ β : Type*) where
  content : φ → List β
  cursor : η → ℕ

/-- What is asked of a handle. -/
inductive FileOp (β : Type*)
  | seekSet (o : ℕ)
  | seekCur (d : ℤ)
  | read (n : ℕ)
  | write (s : List β)

namespace OpenFiles

section Slice

variable {A : OpenFiles η φ β} {file : η → φ} {h : η} {n : ℕ}

/-- The elements from the cursor on. -/
def slice (A : OpenFiles η φ β) (file : η → φ) (h : η) (n : ℕ) : List β :=
  ((A.content (file h)).drop (A.cursor h)).take n

/-- There are `n` elements from the cursor on. -/
def Room (A : OpenFiles η φ β) (file : η → φ) (h : η) (n : ℕ) : Prop :=
  A.cursor h + n ≤ (A.content (file h)).length

instance (A : OpenFiles η φ β) (file : η → φ) (h : η) (n : ℕ) : Decidable (A.Room file h n) :=
  inferInstanceAs (Decidable (_ ≤ _))

theorem length_slice (hroom : A.Room file h n) : (A.slice file h n).length = n := by
  rw [Room] at hroom
  rw [slice, List.length_take, List.length_drop]
  omega

theorem getD_slice {j : ℕ} (hj : j < n) (d : β) :
    (A.slice file h n).getD j d = (A.content (file h)).getD (A.cursor h + j) d := by
  rw [slice, List.getD_eq_getElem?_getD, List.getD_eq_getElem?_getD, List.getElem?_take_of_lt hj,
    List.getElem?_drop]

end Slice

variable [DecidableEq η] [DecidableEq φ] (A : OpenFiles η φ β)

/-- The handle is moved. -/
def moved (h : η) (o : ℕ) : OpenFiles η φ β := { A with cursor := Function.update A.cursor h o }

/-- The file is overwritten from the cursor on, and the cursor is moved behind. -/
def wrote (file : η → φ) (h : η) (s : List β) : OpenFiles η φ β where
  content := Function.update A.content (file h) (splice (A.content (file h)) (A.cursor h) s)
  cursor := Function.update A.cursor h (A.cursor h + s.length)

/-- **The operations.** The answer is what has been read, `none` if the handle refuses. -/
def exec (file : η → φ) (reads writes : η → Bool) (h : η) :
    FileOp β → Option (Option (List β) × OpenFiles η φ β)
  | .seekSet o => some (some [], A.moved h o)
  | .seekCur d =>
    if 0 ≤ A.cursor h + d then some (some [], A.moved h (A.cursor h + d).toNat) else none
  | .read n =>
    if reads h then
      if A.Room file h n then some (some (A.slice file h n), A.moved h (A.cursor h + n)) else none
    else some (none, A)
  | .write s =>
    if writes h then
      if A.Room file h s.length then some (some [], A.wrote file h s) else none
    else some (none, A)

end OpenFiles

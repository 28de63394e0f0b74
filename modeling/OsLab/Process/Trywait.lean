import OsLab.Lib.Results
import OsLab.Process.SemCount

/-!
# A `sem_trywait` that fails

`sem_trywait` returns 1 where `sem_wait` would block. On a mutex it then leaves the semaphore as it
is. On a counting semaphore it has taken one from the value first and does not give it back, as if a
process were waiting: a later `sem_post` uses itself up on that process, which does not exist.

The calls are those of `SemEvent` and `sem_trywait`, on any collection of semaphores and in any
state.

## Main definitions

* `TryEvent` — what can happen, with calls of `sem_trywait` by the running process
* `tryStep` — a call, with what it returns if it returns something
* `TryLeaves` — a `sem_trywait` that fails leaves `value` and `block_proc_num` alone
* `TrywaitInvisible` — a failed `sem_trywait` is invisible

## Main results

* `trywaitInvisible_iff` — the calls of `sem_trywait` that fail can be left out, exactly if those on
  counting semaphores do not fail
-/

namespace OsLab

variable {κ : Type*}

/-- What can happen, with calls of `sem_trywait` by the running process. -/
inductive TryEvent (κ : Type*)
  | event (e : SemEvent κ)
  | trywait (k : κ)

/-- A call, with what it returns if it returns something. -/
def tryStep [DecidableEq κ] (s : SemState κ) : TryEvent κ → Option (Option ℤ × SemState κ)
  | .event e => (semStep s e).map fun t => (none, t)
  | .trywait k =>
    let x := semTrywait (s.sems k)
    some (some x.2, { s with sems := Function.update s.sems k x.1 })

/-- The result of a `sem_trywait` that fails. -/
def failed (r : Option ℤ) : Bool := r = some 1

/-- A `sem_trywait` that fails leaves `value` and `block_proc_num` alone. -/
def TryLeaves (s : SemState κ) (e : TryEvent κ) : Prop :=
  ∀ k, e = .trywait k → (semTrywait (s.sems k)).2 = 1 →
    (semTrywait (s.sems k)).1.value = (s.sems k).value ∧
      (semTrywait (s.sems k)).1.block_proc_num = (s.sems k).block_proc_num

/-- **A failed `sem_trywait` is invisible.** It leaves the semaphore alone, and without the calls
that fail the semaphores, the process table and what the other calls return are the same. -/
def TrywaitInvisible [DecidableEq κ] (l : List (TryEvent κ)) (s : SemState κ) : Prop :=
  Results.Along tryStep TryLeaves l s ∧
    Results.run tryStep (Results.kept tryStep failed l s) s =
      (Results.run tryStep l s).map fun y => (y.1.filter fun r => !failed r, y.2)

/-- A `sem_trywait` on a counting semaphore finds its value positive, or so small that it is after
the subtraction. -/
def TryTakes (s : SemState κ) (e : TryEvent κ) : Prop :=
  ∀ k, e = .trywait k → (s.sems k).mutex = false → 0 ≤ int32 ((s.sems k).value - 1)

section Try

variable {sem : Sem} {s : SemState κ} {e : TryEvent κ} {l : List (TryEvent κ)}

/-- On a counting semaphore the value is always one less, modulo 2 ^ 32. -/
theorem semTrywait_counting (h : sem.mutex = false) :
    semTrywait sem = ({ sem with value := int32 (sem.value - 1) },
      if int32 (sem.value - 1) < 0 then 1 else 0) := by
  rw [semTrywait, h]
  simp only [Bool.not_false, if_true]
  split <;> rfl

theorem semTrywait_mutex (h : sem.mutex = true) (hfail : (semTrywait sem).2 = 1) :
    (semTrywait sem).1 = sem := by
  rw [semTrywait, h] at hfail ⊢
  simp only [Bool.not_true, Bool.false_eq_true, if_false] at hfail ⊢
  split at hfail
  · exact absurd hfail (by decide : (0 : ℤ) ≠ 1)
  · next hv => rw [if_neg hv]

/-- A call that fails leaves the semaphore alone. -/
theorem TryTakes.same {k : κ} (h : TryTakes s (.trywait k))
    (hfail : (semTrywait (s.sems k)).2 = 1) :
    (semTrywait (s.sems k)).1 = s.sems k := by
  cases hm : (s.sems k).mutex with
  | true => exact semTrywait_mutex hm hfail
  | false =>
    rw [semTrywait_counting hm] at hfail
    have hnot : ¬int32 ((s.sems k).value - 1) < 0 := not_lt.mpr (h k rfl hm)
    exact absurd (hfail.symm.trans (if_neg hnot)) (by decide)

/-- **When a `sem_trywait` that fails leaves `value` and `block_proc_num` alone.** -/
theorem tryLeaves_iff : TryLeaves s e ↔ TryTakes s e := by
  refine ⟨fun h k he hm => ?_, fun h k he hfail => ?_⟩
  · by_contra hneg
    have hlt : int32 ((s.sems k).value - 1) < 0 := not_le.mp hneg
    have hcount := semTrywait_counting hm
    have hleft := (h k he (by rw [hcount]; exact if_pos hlt)).1
    rw [hcount] at hleft
    exact int32_sub_one_ne _ hleft
  · rw [TryTakes.same (he ▸ h) hfail]
    exact ⟨rfl, rfl⟩

/-- Such a call leaves the whole state alone. -/
theorem TryTakes.leaves [DecidableEq κ] (h : TryTakes s e) : Results.Leaves tryStep failed s e := by
  intro x hx hfail
  cases e with
  | event e =>
    obtain ⟨t, -, rfl⟩ := Option.map_eq_some_iff.mp hx
    exact absurd hfail (by decide : failed none ≠ true)
  | trywait k =>
    obtain rfl := Option.some.inj hx
    have hone : (semTrywait (s.sems k)).2 = 1 := Option.some.inj (of_decide_eq_true hfail)
    show ({ s with sems := Function.update s.sems k (semTrywait (s.sems k)).1 } : SemState κ) = s
    rw [h.same hone, Function.update_eq_self]

end Try

/-- **When failed calls are invisible.** In any sequence of calls from any state: exactly if every
`sem_trywait` on a counting semaphore finds a value that it can take. -/
theorem trywaitInvisible_iff [DecidableEq κ] (l : List (TryEvent κ)) (s : SemState κ) :
    TrywaitInvisible l s ↔ Results.Along tryStep TryTakes l s := by
  refine ⟨fun h => h.1.mono fun _ _ => tryLeaves_iff.mp, fun h => ?_⟩
  exact ⟨h.mono fun _ _ => tryLeaves_iff.mpr,
    Results.run_kept (h.mono fun _ _ htakes => htakes.leaves)⟩

/-- One `sem_trywait` fails on a counting semaphore with value 0, and the `sem_post` after it does
not raise the value above 0. -/
theorem trywait_uses_post :
    ¬TrywaitInvisible [.trywait (), .event (.semPost ())]
      (⟨⟨slotTable [idlePcb, { gamePcb with status := Running }], 1⟩, fun _ => ⟨0, false, 0, 0⟩⟩ :
        SemState Unit) := by
  rintro ⟨-, hsame⟩
  have hvalue := congrArg (Option.map fun y => (y.2.sems ()).value) hsame
  exact absurd hvalue (by decide)

end OsLab

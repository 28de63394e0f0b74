import Mathlib.Data.List.Induction
import OsLab.Process.Boot

/-!
# How long a process sleeps

`process_sleep` puts the number of ticks into `sleep_time`, and `wakeup` counts it down and looks
for zero after it has subtracted one. A number that is read as a negative `int` is counted down to
zero all the same, through the smallest `int`. Zero itself is counted down the whole way around, so
that a process that sleeps for no time at all sleeps for 2 ^ 32 ticks.

Nothing else makes the process ready, unless its `block_sem_index` still names a semaphore that it
waited for earlier: `release_sem` does not look at the status.

## Main definitions

* `ticks` — the number of ticks among the calls
* `MakesReady` — the call makes the process in slot `i` ready; it may run at once if the call ends
  with `schedule`
* `OnTime` — `sleep(t)` lasts `t` ticks, in a run that does the calls `l` from the state `p` in
  which slot `i` has gone to sleep
* `NoRelease` — nobody releases slot `i` before the `t`-th tick
* `Asleep` — the process in slot `i` sleeps

## Main results

* `sleep_onTime_iff` — in any run from any state, `sleep(t)` lasts `t` ticks exactly if `t` is not
  zero and nobody releases the slot meanwhile
-/

namespace OsLab

/-! ## Ticks and releases -/

/-- The call is the timer's interrupt. -/
def SchedCall.IsTick : SchedCall → Bool
  | .timer => true
  | _ => false

/-- The number of ticks among the calls. -/
def ticks (l : List SchedCall) : ℕ := l.countP SchedCall.IsTick

/-- `release_sem` is called and finds slot `i`. -/
def SchedCall.ReleasesSlot (p : Procs) (i : ℤ) : SchedCall → Prop
  | .semPost sem =>
    sem.Releases ∧ findSlot 100 (fun j => (p.pcb_table j).block_sem_index = sem.sem_index) = some i
  | .semDestroy sem => findSlot 100 (fun j => (p.pcb_table j).block_sem_index = sem.sem_index) =
    some i
  | _ => False

/-- The call makes the process in slot `i` ready; it may run at once if the call ends with
`schedule`. -/
def MakesReady (i : ℤ) (p : Procs) (c : SchedCall) : Prop :=
  ((c.change p).pcb_table i).status = Ready

/-- **`sleep(t)` lasts `t` ticks**, in a run that does the calls `l` from the state `p` in which
slot `i` has gone to sleep. For `t = 0` the process is ready at once or at the first tick. -/
structure OnTime (t : UInt32) (i : ℤ) (p : Procs) (l : List SchedCall) : Prop where
  zero : t = 0 → (p.pcb_table i).status = Ready ∨
    ∀ l' q, Run CallStep p l' q → ticks l' = 0 → MakesReady i q .timer
  step : ∀ l₁ c l₂ q q', l = l₁ ++ c :: l₂ → Run CallStep p l₁ q → CallStep q c q' →
    ticks l₁ < t.toNat → (q.pcb_table i).status = Blocked ∧
      (MakesReady i q c ↔ c = .timer ∧ ticks l₁ + 1 = t.toNat)

/-- Nobody releases slot `i` before the `t`-th tick. -/
def NoRelease (t : UInt32) (i : ℤ) (p : Procs) (l : List SchedCall) : Prop :=
  ∀ l₁ c l₂ q q', l = l₁ ++ c :: l₂ → Run CallStep p l₁ q → CallStep q c q' →
    ticks l₁ < t.toNat → ¬c.ReleasesSlot q i

section Sleep

variable {p p' q : Procs} {c : SchedCall} {i n time : ℤ} {t : UInt32} {l : List SchedCall}

theorem SchedCall.eq_timer_of_isTick (h : c.IsTick = true) : c = .timer := by
  cases c with
  | timer => rfl
  | _ => exact absurd h Bool.false_ne_true

theorem releaseSem_self {x : ℤ} {t : ℤ → PCB}
    (h : findSlot 100 (fun j => (t j).block_sem_index = x) = some i) :
    (releaseSem x t i).status = Ready := by
  rw [releaseSem, h]
  show (Function.update t i _ i).status = Ready
  rw [Function.update_self]

theorem releaseSem_other {x : ℤ} {t : ℤ → PCB}
    (h : findSlot 100 (fun j => (t j).block_sem_index = x) ≠ some i) : releaseSem x t i = t i := by
  rw [releaseSem]
  cases hfound : findSlot 100 fun j => (t j).block_sem_index = x with
  | some j =>
    have hne : i ≠ j := fun heq => h (hfound.trans (congrArg some heq.symm))
    exact Function.update_of_ne hne ..
  | none => rfl

/-- **A release makes the slot ready.** -/
theorem SchedCall.ReleasesSlot.makesReady (h : c.ReleasesSlot p i) : MakesReady i p c := by
  cases c with
  | semPost sem =>
    rw [MakesReady, SchedCall.change, if_pos h.1]
    exact releaseSem_self h.2
  | semDestroy sem => exact releaseSem_self h
  | timer | sleep _ | fork _ _ | createThread _ _ | exit | semWait _ | semTrywait _ => exact h.elim

/-- Only ticks reach a process that is not released. -/
theorem SchedCall.onOther_eq (h : ¬c.ReleasesSlot p i) :
    c.onOther p i = if c.IsTick then wakeup p.pcb_table i else p.pcb_table i := by
  cases c with
  | semPost sem =>
    show (if sem.Releases then releaseSem sem.sem_index p.pcb_table i else p.pcb_table i) =
      p.pcb_table i
    split
    · next hrel => exact releaseSem_other fun hfound => h ⟨hrel, hfound⟩
    · rfl
  | semDestroy sem => exact releaseSem_other h
  | timer | sleep _ | fork _ _ | createThread _ _ | exit | semWait _ | semTrywait _ => rfl

/-! ## The countdown -/

/-- The process in slot `i` sleeps. -/
structure Asleep (i time : ℤ) (p : Procs) : Prop where
  inv : CallInv p
  slot : 0 < i ∧ i < MAX_PCB
  status : (p.pcb_table i).status = Blocked
  time : (p.pcb_table i).sleep_time = time
  away : i ≠ p.current

/-- `schedule` passes over a process that is blocked. -/
theorem schedule_blocked (hs : schedule p = some p') (hi : i ≠ 0)
    (hblocked : (p.pcb_table i).status = Blocked) :
    p'.pcb_table i = p.pcb_table i ∧ i ≠ p'.current := by
  obtain ⟨j, hready, rfl⟩ | rfl := schedule_cases hs
  · have hne : i ≠ j := by
      rintro rfl
      rw [hready] at hblocked
      exact absurd hblocked (by decide)
    exact ⟨Procs.pcb_table_modify_of_ne _ _ hne, hne⟩
  · exact ⟨rfl, hi⟩

/-- **`sleep`** -/
theorem CallInv.sleeps (h : CallInv p) (hstep : CallStep p (.sleep time) p') :
    Asleep p.current time p' := by
  have hinv := h.step hstep
  obtain ⟨hallowed, -, hexec⟩ := hstep
  have hcur : p.current ≠ 0 := hallowed
  have hrange := h.inTable
  have hself :
      (p.modify p.current fun q => { q with status := Blocked, sleep_time := time }).pcb_table
      p.current = { p.cur with status := Blocked, sleep_time := time } :=
    Procs.pcb_table_modify_self ..
  obtain ⟨hsame, haway⟩ := schedule_blocked hexec hcur (congrArg PCB.status hself)
  rw [hself] at hsame
  exact ⟨hinv, ⟨by omega, hrange.2⟩, congrArg PCB.status hsame, congrArg PCB.sleep_time hsame,
    haway⟩

theorem int32_int32_sub_one (x : ℤ) : int32 (int32 x - 1) = int32 (x - 1) :=
  Int.bmod_sub_bmod

/-- A tick counts down, and the last one makes the process ready. -/
theorem Asleep.wakeup (h : Asleep i (int32 n) p) :
    OsLab.wakeup p.pcb_table i = { p.pcb_table i with
      sleep_time := int32 (n - 1), status := if int32 (n - 1) = 0 then Ready else Blocked } := by
  rw [wakeup_apply, if_pos ⟨Int.le_of_lt h.slot.1, h.slot.2⟩, wakeupPcb, if_pos h.status]
  simp only [h.time, h.status, int32_int32_sub_one]

theorem int32_eq_zero {x : ℤ} (hl : 0 ≤ x) (hu : x < 2 ^ 32) : int32 x = 0 ↔ x = 0 := by
  rw [int32, Int.bmod_def]
  split <;> omega

/-- **What makes a sleeping process ready.** -/
theorem Asleep.makesReady_iff (h : Asleep i (int32 n) p) (hn : 0 < n) (hlt : n < 2 ^ 32)
    (hfinds : c.FindsSlot p) (hno : ¬c.ReleasesSlot p i) :
    MakesReady i p c ↔ c = .timer ∧ n = 1 := by
  have hlive : (p.pcb_table i).status ≠ -1 := by
    rw [h.status]
    decide
  rw [MakesReady, h.inv.change_other hfinds h.away hlive, SchedCall.onOther_eq hno]
  split
  · next htick =>
    rw [h.wakeup, SchedCall.eq_timer_of_isTick htick]
    have hzero := int32_eq_zero (x := n - 1) (by omega) (by omega)
    simp only [true_and]
    by_cases h1 : int32 (n - 1) = 0
    · rw [if_pos h1]
      exact ⟨fun _ => by omega, fun _ => rfl⟩
    · rw [if_neg h1]
      exact ⟨fun hb => absurd hb (by decide), fun hone => absurd (hzero.mpr (by omega)) h1⟩
  · next htick =>
    rw [h.status]
    refine ⟨fun hb => absurd hb (by decide), fun ⟨htimer, _⟩ => absurd ?_ htick⟩
    rw [htimer]
    rfl

/-- **One call** while the process sleeps on. -/
theorem Asleep.step (h : Asleep i (int32 n) p) (hstep : CallStep p c p') (hno : ¬c.ReleasesSlot p i)
    (hstays : ¬MakesReady i p c) : Asleep i (int32 (if c.IsTick then n - 1 else n)) p' := by
  have hinv := h.inv.step hstep
  obtain ⟨-, ⟨hfinds, -⟩, hexec⟩ := hstep
  have hlive : (p.pcb_table i).status ≠ -1 := by
    rw [h.status]
    decide
  have hother := (h.inv.change_other hfinds h.away hlive).trans (SchedCall.onOther_eq hno)
  have hchange : ((c.change p).pcb_table i).status = Blocked ∧
      ((c.change p).pcb_table i).sleep_time = int32 (if c.IsTick then n - 1 else n) := by
    rw [MakesReady, hother] at hstays
    rw [hother]
    split
    · next htick =>
      rw [if_pos htick, h.wakeup] at hstays
      rw [h.wakeup]
      refine ⟨if_neg fun hzero => hstays (if_pos hzero), rfl⟩
    · exact ⟨h.status, h.time⟩
  have hcur := (h.inv.change_frame hfinds).1
  rw [SchedCall.exec_eq] at hexec
  split at hexec
  · obtain ⟨hsame, haway⟩ := schedule_blocked hexec (by have := h.slot.1; omega) hchange.1
    rw [← hsame] at hchange
    exact ⟨hinv, h.slot, hchange.1, hchange.2, haway⟩
  · obtain rfl := Option.some.inj hexec
    exact ⟨hinv, h.slot, hchange.1, hchange.2, hcur ▸ h.away⟩

@[simp] theorem ticks_append_singleton (l : List SchedCall) (c : SchedCall) :
    ticks (l ++ [c]) = ticks l + if c.IsTick then 1 else 0 := by
  rw [ticks, List.countP_append, List.countP_singleton]
  rfl

/-- **The countdown.** As long as nobody releases the slot, the process sleeps until the `t`-th
tick. -/
theorem Asleep.countdown (h : Asleep i (int32 t.toNat) p) (hno : NoRelease t i p l)
    {l₁ l₂ : List SchedCall} (hl : l = l₁ ++ l₂) (hrun : Run CallStep p l₁ q)
    (hlt : ticks l₁ < t.toNat) : Asleep i (int32 (t.toNat - ticks l₁ : ℤ)) q := by
  have htop : t.toNat < 2 ^ 32 := t.toNat_lt
  induction l₁ using List.reverseRecOn generalizing l₂ q with
  | nil =>
    obtain ⟨_⟩ := hrun
    simpa only [ticks, List.countP_nil, Nat.cast_zero, sub_zero] using h
  | append_singleton l₁ c ih =>
    obtain ⟨u, hrun₁, hlast⟩ := hrun.exists_of_append
    obtain ⟨q, hstep, hnil⟩ := hlast.exists_of_cons
    obtain ⟨_⟩ := hnil
    rw [ticks_append_singleton] at hlt ⊢
    have hl' : l = l₁ ++ c :: l₂ := by rw [hl, List.append_assoc, List.singleton_append]
    have hu := ih hl' hrun₁ (by omega)
    have hrel := hno l₁ c l₂ u q hl' hrun₁ hstep (by omega)
    have hstays : ¬MakesReady i u c := by
      rw [hu.makesReady_iff (by omega) (by omega) hstep.2.1.1 hrel]
      rintro ⟨rfl, hone⟩
      have htick : (if SchedCall.timer.IsTick then 1 else 0 : ℕ) = 1 := rfl
      omega
    have hnext := hu.step hstep hrel hstays
    cases htick : c.IsTick with
    | true =>
      rw [htick, if_pos rfl] at hnext
      rw [if_pos rfl, Nat.cast_add, Nat.cast_one, ← sub_sub]
      exact hnext
    | false =>
      rw [htick, if_neg Bool.false_ne_true] at hnext
      rw [if_neg Bool.false_ne_true, Nat.add_zero]
      exact hnext

/-- **How long a process sleeps**, from the state in which it has gone to sleep. -/
theorem Asleep.lasts_iff (h : Asleep i (int32 t.toNat) p) :
    OnTime t i p l ↔ t ≠ 0 ∧ NoRelease t i p l := by
  have htop : t.toNat < 2 ^ 32 := t.toNat_lt
  refine ⟨fun hon => ⟨?_, fun l₁ c l₂ q q' hl hrun hstep hlt hrel => ?_⟩,
    fun ⟨hne, hno⟩ => ⟨fun h0 => absurd h0 hne, fun l₁ c l₂ q q' hl hrun hstep hlt => ?_⟩⟩
  · rintro rfl
    rcases hon.zero rfl with hready | hticks
    · rw [h.status] at hready
      exact absurd hready (by decide)
    · -- the first tick takes zero to -1
      have hready := hticks [] p (.nil p) rfl
      have hlive : (p.pcb_table i).status ≠ -1 := by
        rw [h.status]
        decide
      rw [MakesReady,
        h.inv.change_other (show SchedCall.FindsSlot p .timer from trivial) h.away hlive]
        at hready
      have hwake : (OsLab.wakeup p.pcb_table i).status = Blocked := by
        rw [Asleep.wakeup (n := 0) h]
        exact (by decide : (if int32 (0 - 1) = 0 then Ready else Blocked) = Blocked)
      exact absurd (hready.symm.trans hwake) (by decide)
  · have htimer := ((hon.step l₁ c l₂ q q' hl hrun hstep hlt).2.mp hrel.makesReady).1
    rw [htimer] at hrel
    exact hrel
  · have hq := h.countdown hno hl hrun hlt
    refine ⟨hq.status, ?_⟩
    rw [hq.makesReady_iff (by omega) (by omega) hstep.2.1.1 (hno l₁ c l₂ q q' hl hrun hstep hlt)]
    exact and_congr_right fun _ => by omega

end Sleep

/-- **How long `sleep(t)` lasts.** In every run from a state of the system in which a process calls
`sleep(t)`, it becomes ready at the `t`-th tick and not before, exactly if `t` is not zero and no
`sem_post` or `sem_destroy` before that tick releases its slot. -/
theorem sleep_onTime_iff (kcr3 ucr3 : UInt32) (garbage : ℤ) (table : ℤ → PCB) {l₀ : List SchedCall}
    {p p' : Procs} (hrun : Run CallStep (initCond kcr3 ucr3 garbage table) l₀ p) {t : UInt32}
    (hsleep : CallStep p (.sleep (int32 t.toNat)) p') (l : List SchedCall) :
    OnTime t p.current p' l ↔ t ≠ 0 ∧ NoRelease t p.current p' l := by
  have hinv : CallInv p := hrun.invariant (fun _ _ _ h hstep => h.step hstep)
    (CallInv.initCond kcr3 ucr3 garbage table)
  exact (hinv.sleeps hsleep).lasts_iff

/-- The game sleeps for one tick. -/
theorem sleep_onTime_one :
    ∃ l p p', Run CallStep (initCond 0 0 0 fun _ => freePcb) l p ∧
      CallStep p (.sleep (int32 (1 : UInt32).toNat)) p' ∧ OnTime 1 p.current p' [.timer] := by
  have hsleep : CallStep ⟨slotTable [processReady idlePcb, gameRunning], 1⟩
      (.sleep (int32 (1 : UInt32).toNat)) _ :=
    callStep_sleep (c := 1) (k := 0) (by decide) (by decide) (by decide) _ rfl (by decide)
      (by decide +kernel)
  refine ⟨_, _, _, run_gameRunning, hsleep, (sleep_onTime_iff 0 0 0 _ run_gameRunning hsleep _).mpr
    ⟨by decide, fun l₁ c l₂ q q' hl _ _ _ hrel => ?_⟩⟩
  have hmem : c ∈ [SchedCall.timer] := by
    rw [hl]
    exact List.mem_append_right _ List.mem_cons_self
  obtain rfl := List.mem_singleton.mp hmem
  exact hrel

/-- The game sleeps for no tick, and does not wake up at once nor at the next tick. -/
theorem sleep_zero_late :
    ∃ l p p', Run CallStep (initCond 0 0 0 fun _ => freePcb) l p ∧
      CallStep p (.sleep (int32 (0 : UInt32).toNat)) p' ∧ ¬OnTime 0 p.current p' [] := by
  have hsleep : CallStep ⟨slotTable [processReady idlePcb, gameRunning], 1⟩
      (.sleep (int32 (0 : UInt32).toNat)) _ :=
    callStep_sleep (c := 1) (k := 0) (by decide) (by decide) (by decide) _ rfl (by decide)
      (by decide +kernel)
  have hinv : CallInv ⟨slotTable [processReady idlePcb, gameRunning], 1⟩ :=
    run_gameRunning.invariant (fun _ _ _ h hstep => h.step hstep) (CallInv.initCond 0 0 0 _)
  exact ⟨_, _, _, run_gameRunning, hsleep, fun hon => ((hinv.sleeps hsleep).lasts_iff.mp hon).1 rfl⟩

end OsLab

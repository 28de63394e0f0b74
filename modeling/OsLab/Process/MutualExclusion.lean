import OsLab.Lib.Run
import OsLab.Lib.Token
import OsLab.Process.Semaphore

/-!
# Mutual exclusion

Threads share a mutex semaphore. The state is extended by which processes are inside a `sem_wait`
(`waiting`) and by how many `sem_wait`s have returned to each without the `sem_post` that belongs to
them (`depth`). A trap that leaves `current` at a process that waits returns from the `sem_wait` of
that process (`MutexState.resume`).

A process can be resumed from `sem_wait` without a `sem_post`: `wakeup` counts down `sleep_time` of
every blocked process, and a new process has five ticks. `MutexSafe` is the condition that the timer
wakes up no process that waits for the semaphore, and under it at most one thread at a time is past
its `sem_wait`.

The invariant is an account of tokens. A process has a token for each `sem_wait` that has returned
to it, and one for a `sem_wait` that it has been released from and will return.

## Main definitions

* `MutexState` — the kernel's state, and where each process is with its calls
* `MutexEvent` — what can happen: calls of the running process, and the timer
* `MutexSafe` — when an event is harmless
* `MutexInv` — who is recorded as blocked on the semaphore waits for it and is blocked, and there is
  one token at most, and none while the semaphore is free
* `MutexOk` — what holds between two events

## What is asked of an event

`MutexSafe` asks of an event what this event needs. That `schedule` finds a process is asked of the
events that call `schedule` (`MutexEvent.Switches`): a tick that ends a time slice, and a `sem_wait`
that blocks. That nobody is woken up who waits for the semaphore is asked of ticks only.

## Main results

* `mutualExclusion` — mutual exclusion in every run that is safe
-/

namespace OsLab

/-! ## The system -/

/-- The kernel's state, and where each process is with its calls. -/
structure MutexState where
  procs : Procs
  sem : Sem
  waiting : ℤ → Bool
  depth : ℤ → ℕ

/-- The trap returns to `current`. -/
def MutexState.resume (s : MutexState) : MutexState :=
  if s.waiting s.procs.current then
    { s with
      waiting := Function.update s.waiting s.procs.current false
      depth := Function.update s.depth s.procs.current (s.depth s.procs.current + 1) }
  else s

/-- The semaphore and the process table as a function of the kernel leaves them. -/
@[reducible] def MutexState.set (s : MutexState) (x : Sem × Procs) : MutexState :=
  { s with sem := x.1, procs := x.2 }

/-- The running process calls `sem_wait`. -/
def MutexState.enter (s : MutexState) : MutexState :=
  { s with waiting := Function.update s.waiting s.procs.current true }

/-- The running process calls `sem_post`. -/
def MutexState.leave (s : MutexState) : MutexState :=
  { s with depth := Function.update s.depth s.procs.current (s.depth s.procs.current - 1) }

/-- What can happen: calls of the running process, and the timer. -/
inductive MutexEvent
  | semWait
  | semPost
  | timer

/-- One event. Slot 0 is the idle process, which makes no calls, and `sem_post` is called after a
`sem_wait` that has returned. -/
def mutexStep (s : MutexState) : MutexEvent → Option MutexState
  | .semWait =>
    if s.procs.current ≠ 0 then
      (OsLab.semWait s.sem s.procs).map fun x => (s.enter.set x).resume
    else none
  | .semPost =>
    if 0 < s.depth s.procs.current then
      some (s.leave.set (OsLab.semPost s.sem s.procs))
    else none
  | .timer => (timerTick s.procs).map fun p => (s.set (s.sem, p)).resume

/-- An event that ends. -/
def MutexStep (s : MutexState) (e : MutexEvent) (s' : MutexState) : Prop := mutexStep s e = some s'

/-- **Mutual exclusion.** At most one thread is past its `sem_wait`. -/
def MutualExclusion (s : MutexState) : Prop := ∀ i j, 0 < s.depth i → 0 < s.depth j → i = j

/-- Right after `sem_init(sem, v, true)`: any processes are there, some of them asleep or blocked on
other semaphores, and none has used this one. -/
structure MutexStart (s : MutexState) : Prop where
  sem_init : ∃ v n, 0 ≤ n ∧ s.sem = (semInit v true n).1
  unused : ∀ i, 0 ≤ i → i < MAX_PCB →
    (s.procs.pcb_table i).block_sem_index ≠ s.sem.sem_index
  waiting : ∀ i, s.waiting i = false
  depth : ∀ i, s.depth i = 0
  home : ∀ i, 0 ≤ i → i < MAX_PCB → (s.procs.pcb_table i).status ≠ -1 →
    (s.procs.pcb_table i).pcb_index = i
  idle : (s.procs.pcb_table 0).status ≠ -1
  cur : 0 ≤ s.procs.current ∧ s.procs.current < MAX_PCB ∧ s.procs.cur.status ≠ -1

/-- The event calls `schedule`. -/
def MutexEvent.Switches (s : MutexState) : MutexEvent → Prop
  | .semWait => s.sem.value ≠ 1
  | .semPost => False
  | .timer => s.procs.cur.time_count = 10

/-- **When an event is harmless.** The timer does not end the sleeping time of a process that is
blocked on the semaphore, and `schedule` does not take what is behind the table for a process. -/
def MutexSafe (s : MutexState) (e : MutexEvent) : Prop :=
  (e.Switches s → EndOfTable s.procs) ∧
    (e = .timer → ∀ i, 0 ≤ i → i < MAX_PCB → (s.procs.pcb_table i).status = Blocked →
      (s.procs.pcb_table i).block_sem_index = s.sem.sem_index →
        int32 ((s.procs.pcb_table i).sleep_time - 1) ≠ 0)

/-! ## The invariant -/

/-- The `sem_wait`s that have returned to a process or will do so by themselves. -/
def MutexState.tokens (s : MutexState) (i : ℤ) : ℕ :=
  s.depth i + if s.waiting i = true ∧
    (s.procs.pcb_table i).block_sem_index ≠ s.sem.sem_index then 1 else 0

/-- Who is recorded as blocked on the semaphore waits for it and is blocked, and there is one token
at most, and none while the semaphore is free. -/
structure MutexInv (s : MutexState) : Prop where
  isMutex : s.sem.mutex = true
  index_nonneg : 0 ≤ s.sem.sem_index
  home : ∀ i, 0 ≤ i → i < MAX_PCB → (s.procs.pcb_table i).status ≠ -1 →
    (s.procs.pcb_table i).pcb_index = i
  idle : (s.procs.pcb_table 0).status ≠ -1 ∧ s.waiting 0 = false
  blocked : ∀ i, 0 ≤ i → i < MAX_PCB →
    (s.procs.pcb_table i).block_sem_index = s.sem.sem_index →
      s.waiting i = true ∧ (s.procs.pcb_table i).status = Blocked
  token : ∃ o, Token s.tokens o ∧ (s.sem.value = 1 → o = none)

/-- The running process is one of the table and is not blocked on the semaphore. -/
structure AtHome (s : MutexState) : Prop where
  nonneg : 0 ≤ s.procs.current
  lt : s.procs.current < MAX_PCB
  live : s.procs.cur.status ≠ -1
  runs : s.procs.cur.block_sem_index ≠ s.sem.sem_index

section Resume

variable {s : MutexState}

@[simp] theorem procs_resume (s : MutexState) : s.resume.procs = s.procs := by
  rw [MutexState.resume]
  split <;> rfl

@[simp] theorem sem_resume (s : MutexState) : s.resume.sem = s.sem := by
  rw [MutexState.resume]
  split <;> rfl

@[simp] theorem waiting_resume (s : MutexState) (i : ℤ) :
    s.resume.waiting i = if i = s.procs.current then false else s.waiting i := by
  rw [MutexState.resume]
  split
  · simp only [Function.update_apply]
  · next h =>
    split
    · next hi => rw [hi, Bool.not_eq_true] at *; exact h
    · rfl

/-- A process that is resumed keeps its token. -/
theorem tokens_resume (h : AtHome s) : s.resume.tokens = s.tokens := by
  funext i
  simp only [MutexState.tokens, procs_resume, sem_resume]
  rw [MutexState.resume]
  split
  · next hwait =>
    rcases eq_or_ne i s.procs.current with rfl | hi
    · have hgranted : s.waiting s.procs.current = true ∧
          (s.procs.pcb_table s.procs.current).block_sem_index ≠ s.sem.sem_index := ⟨hwait, h.runs⟩
      rw [if_pos hgranted]
      simp
    · simp only [Function.update_of_ne hi]
  · rfl

/-- **The trap returns.** -/
theorem MutexInv.resume (h : MutexInv s) (hc : AtHome s) :
    MutexInv s.resume ∧ AtHome s.resume ∧ s.resume.waiting s.resume.procs.current = false := by
  refine ⟨⟨?_, ?_, ?_, ?_, ?_, ?_⟩, ⟨?_, ?_, ?_, ?_⟩, ?_⟩ <;>
    simp only [procs_resume, sem_resume, tokens_resume hc, waiting_resume]
  · exact h.isMutex
  · exact h.index_nonneg
  · exact h.home
  · refine ⟨h.idle.1, ?_⟩
    split
    · rfl
    · exact h.idle.2
  · intro i hi hlt hindex
    -- the running process is not blocked
    have hne : i ≠ s.procs.current := by
      rintro rfl
      exact hc.runs hindex
    rw [if_neg hne]
    exact h.blocked i hi hlt hindex
  · exact h.token
  · exact hc.nonneg
  · exact hc.lt
  · exact hc.live
  · exact hc.runs
  · rfl

end Resume

section Schedule

variable {s : MutexState} {p' : Procs}

/-- **`schedule`** picks a process that is not blocked. -/
theorem MutexInv.schedule (h : MutexInv s) (hc : 0 ≤ s.procs.current ∧ s.procs.current < MAX_PCB)
    (hlive : s.procs.cur.status ≠ -1) (hend : EndOfTable s.procs)
    (hs : OsLab.schedule s.procs = some p') :
    MutexInv (s.set (s.sem, p')) ∧ AtHome (s.set (s.sem, p')) := by
  have hhome : s.procs.cur.pcb_index = s.procs.current := h.home _ hc.1 hc.2 hlive
  have hin : 0 ≤ p'.current ∧ p'.current < MAX_PCB :=
    schedule_inTable hs (by omega) (by omega) fun h99 => hend (hhome.symm.trans h99)
  have hindex : ∀ j, (p'.pcb_table j).block_sem_index = (s.procs.pcb_table j).block_sem_index :=
    fun j => schedule_frame (g := PCB.block_sem_index) (fun q v => rfl) hs j
  have hown : ∀ j, (p'.pcb_table j).pcb_index = (s.procs.pcb_table j).pcb_index :=
    fun j => schedule_frame (g := PCB.pcb_index) (fun q v => rfl) hs j
  have htokens : (s.set (s.sem, p')).tokens = s.tokens := by
    funext j
    simp only [MutexState.tokens, hindex]
  have hstatus := schedule_status hs
  have hcur : p'.cur.status ≠ -1 ∧
      (s.procs.pcb_table p'.current).block_sem_index ≠ s.sem.sem_index := by
    obtain ⟨hready, hrunning⟩ | ⟨h0, htable⟩ := schedule_current hs
    · refine ⟨by rw [hrunning]; decide, fun hi => ?_⟩
      have hblocked := (h.blocked _ hin.1 hin.2 hi).2
      rw [hready] at hblocked
      exact absurd hblocked (by decide)
    · rw [Procs.cur, htable, h0]
      refine ⟨h.idle.1, fun hi => ?_⟩
      have hwait := (h.blocked 0 (Int.le_refl 0) (by decide) hi).1
      rw [h.idle.2] at hwait
      exact Bool.false_ne_true hwait
  refine ⟨⟨h.isMutex, h.index_nonneg, fun i hi hlt hi' => ?_, ⟨?_, h.idle.2⟩,
    fun i hi hlt hi' => ?_, ?_⟩, hin.1, hin.2, hcur.1, ?_⟩
  · have hne : (s.procs.pcb_table i).status ≠ -1 := by
      rcases hstatus i with heq | ⟨hready, -⟩
      · rwa [← heq]
      · rw [hready]
        decide
    exact (hown i).trans (h.home i hi hlt hne)
  · rcases hstatus 0 with heq | ⟨-, hrunning⟩
    · rw [heq]
      exact h.idle.1
    · rw [hrunning]
      decide
  · obtain ⟨hwait, hblocked⟩ := h.blocked i hi hlt ((hindex i).symm.trans hi')
    refine ⟨hwait, ?_⟩
    rcases hstatus i with heq | ⟨hready, -⟩
    · exact heq.trans hblocked
    · rw [hready] at hblocked
      exact absurd hblocked (by decide)
  · rw [htokens]
    exact h.token
  · rw [Procs.cur, hindex]
    exact hcur.2

end Schedule

/-! ## The events -/

section Events

variable {s s' : MutexState}

/-- An assignment to fields of the running process that have nothing to do with semaphores. -/
theorem MutexInv.modifyCur {f : PCB → PCB} (h : MutexInv s) (hc : AtHome s)
    (hindex : ∀ q, (f q).block_sem_index = q.block_sem_index)
    (hown : ∀ q, (f q).pcb_index = q.pcb_index) (hlive : (f s.procs.cur).status ≠ -1) :
    MutexInv (s.set (s.sem, s.procs.modify s.procs.current f)) ∧
      AtHome (s.set (s.sem, s.procs.modify s.procs.current f)) := by
  have hindex' : ∀ j, ((s.procs.modify s.procs.current f).pcb_table j).block_sem_index =
      (s.procs.pcb_table j).block_sem_index :=
    fun j => Procs.modify_frame (g := PCB.block_sem_index) hindex j
  have hown' : ∀ j, ((s.procs.modify s.procs.current f).pcb_table j).pcb_index =
      (s.procs.pcb_table j).pcb_index := fun j => Procs.modify_frame (g := PCB.pcb_index) hown j
  have hcur : ((s.procs.modify s.procs.current f).pcb_table s.procs.current) = f s.procs.cur :=
    Function.update_self ..
  have hother : ∀ j, j ≠ s.procs.current →
      (s.procs.modify s.procs.current f).pcb_table j = s.procs.pcb_table j :=
    fun j hj => Function.update_of_ne hj ..
  have htokens : (s.set (s.sem, s.procs.modify s.procs.current f)).tokens = s.tokens := by
    funext j
    simp only [MutexState.tokens, hindex']
  refine ⟨⟨h.isMutex, h.index_nonneg, fun i hi hlt hi' => ?_, ⟨?_, h.idle.2⟩,
    fun i hi hlt hi' => ?_, ?_⟩, hc.nonneg, hc.lt, ?_, ?_⟩
  · refine (hown' i).trans ?_
    rcases eq_or_ne i s.procs.current with rfl | hne
    · exact h.home _ hi hlt hc.live
    · rw [hother i hne] at hi'
      exact h.home i hi hlt hi'
  · rcases eq_or_ne 0 s.procs.current with h0 | hne
    · rw [h0, hcur]
      exact hlive
    · rw [hother 0 hne]
      exact h.idle.1
  · rw [hindex'] at hi'
    have hne : i ≠ s.procs.current := by
      rintro rfl
      exact hc.runs hi'
    rw [hother i hne]
    exact h.blocked i hi hlt hi'
  · rw [htokens]
    exact h.token
  · exact fun heq => hlive (hcur ▸ heq)
  · show ((s.procs.modify _ f).pcb_table s.procs.current).block_sem_index ≠ _
    rw [hindex']
    exact hc.runs

/-- **`wakeup`** leaves the processes blocked that are blocked on the semaphore. -/
theorem MutexInv.wakeup (h : MutexInv s) (hc : AtHome s) (hsafe : MutexSafe s .timer) :
    MutexInv (s.set (s.sem, ⟨OsLab.wakeup s.procs.pcb_table, s.procs.current⟩)) ∧
      AtHome (s.set (s.sem, ⟨OsLab.wakeup s.procs.pcb_table, s.procs.current⟩)) := by
  have hindex : ∀ j, (OsLab.wakeup s.procs.pcb_table j).block_sem_index =
      (s.procs.pcb_table j).block_sem_index := fun j => by
    rcases wakeup_cases s.procs.pcb_table j with heq | ⟨-, heq⟩ <;> rw [heq]
  have hown : ∀ j, (OsLab.wakeup s.procs.pcb_table j).pcb_index =
      (s.procs.pcb_table j).pcb_index := fun j => by
    rcases wakeup_cases s.procs.pcb_table j with heq | ⟨-, heq⟩ <;> rw [heq]
  have htokens : (s.set (s.sem, ⟨OsLab.wakeup s.procs.pcb_table, s.procs.current⟩)).tokens =
      s.tokens := by
    funext j
    simp only [MutexState.tokens, hindex]
  have hlive : ∀ j, (OsLab.wakeup s.procs.pcb_table j).status = -1 ↔
      (s.procs.pcb_table j).status = -1 := fun j => by
    rcases wakeup_cases s.procs.pcb_table j with heq | ⟨hblocked, heq⟩
    · rw [heq]
    · rw [heq, hblocked]
      refine iff_of_false ?_ (by decide)
      show (if _ then Ready else Blocked) ≠ -1
      split <;> decide
  refine ⟨⟨h.isMutex, h.index_nonneg, fun i hi hlt hi' => ?_, ⟨?_, h.idle.2⟩,
    fun i hi hlt hi' => ?_, ?_⟩, hc.nonneg, hc.lt, ?_, ?_⟩
  · exact (hown i).trans (h.home i hi hlt fun heq => hi' ((hlive i).mpr heq))
  · exact fun heq => h.idle.1 ((hlive 0).mp heq)
  · have hi' := (hindex i).symm.trans hi'
    obtain ⟨hwait, hblocked⟩ := h.blocked i hi hlt hi'
    refine ⟨hwait, ?_⟩
    rcases wakeup_cases s.procs.pcb_table i with heq | ⟨-, heq⟩
    · show (OsLab.wakeup s.procs.pcb_table i).status = Blocked
      rw [heq, hblocked]
    · show (OsLab.wakeup s.procs.pcb_table i).status = Blocked
      rw [heq]
      exact if_neg (hsafe.2 rfl i hi hlt hblocked hi')
  · rw [htokens]
    exact h.token
  · exact fun heq => hc.live ((hlive _).mp heq)
  · exact fun heq => hc.runs ((hindex _).symm.trans heq)

/-- **The timer.** -/
theorem MutexInv.timer (h : MutexInv s) (hc : AtHome s) (hsafe : MutexSafe s .timer)
    (hstep : MutexStep s .timer s') :
    MutexInv s' ∧ AtHome s' ∧ s'.waiting s'.procs.current = false := by
  obtain ⟨p, hp, rfl⟩ := Option.map_eq_some_iff.mp hstep
  obtain ⟨hw, hcw⟩ := h.wakeup hc hsafe
  have hcount : (OsLab.wakeup s.procs.pcb_table s.procs.current).time_count =
      s.procs.cur.time_count := by
    rcases wakeup_cases s.procs.pcb_table s.procs.current with heq | ⟨-, heq⟩ <;> rw [heq] <;> rfl
  rw [timerTick] at hp
  split at hp
  · next hten =>
    have hhome : (OsLab.wakeup s.procs.pcb_table s.procs.current).pcb_index = s.procs.current :=
      hw.home _ hcw.nonneg hcw.lt hcw.live
    simp only [Procs.cur, hhome] at hp
    obtain ⟨hr, hcr⟩ := hw.modifyCur (f := processReady) hcw (fun q => rfl) (fun q => rfl)
      (show Ready ≠ -1 by decide)
    have hend : s.procs.current = 99 →
        (Function.update (OsLab.wakeup s.procs.pcb_table) s.procs.current
          (processReady (OsLab.wakeup s.procs.pcb_table s.procs.current)) 100).status ≠ Ready := by
      intro h99
      rw [Function.update_of_ne (by omega), wakeup_apply, if_neg (by decide)]
      exact hsafe.1 (hcount.symm.trans hten) h99
    obtain ⟨hs, hcs⟩ := hr.schedule ⟨hcr.nonneg, hcr.lt⟩ hcr.live hend hp
    exact hs.resume hcs
  · obtain rfl := Option.some.inj hp
    obtain ⟨hm, hcm⟩ := hw.modifyCur hcw (f := fun q => { q with
      time_count := int32 (q.time_count + 1) }) (fun q => rfl) (fun q => rfl) hcw.live
    exact hm.resume hcm

/-- The tokens of a process that does not wait. -/
theorem tokens_of_not_waiting {i : ℤ} (h : s.waiting i = false) : s.tokens i = s.depth i := by
  simp [MutexState.tokens, h]

/-- A process that calls `sem_wait` while the semaphore is free gets a token. -/
theorem tokens_enter (hc : AtHome s) (hcur : s.waiting s.procs.current = false) :
    s.enter.tokens = Function.update s.tokens s.procs.current (s.tokens s.procs.current + 1) := by
  funext i
  rcases eq_or_ne i s.procs.current with rfl | hi
  · have hruns : ((s.procs.pcb_table s.procs.current).block_sem_index = s.sem.sem_index) = False :=
      eq_false hc.runs
    rw [Function.update_self, tokens_of_not_waiting hcur]
    simp [MutexState.tokens, MutexState.enter, hruns]
  · simp only [MutexState.tokens, MutexState.enter, Function.update_of_ne hi]

/-- The running process is blocked on the semaphore. -/
theorem MutexInv.block (h : MutexInv s) (hc : AtHome s) (hidle : s.procs.current ≠ 0)
    (hcur : s.waiting s.procs.current = false) (hvalue : s.sem.value ≠ 1) (n : ℤ) :
    MutexInv (s.enter.set
      ({ s.sem with block_proc_num := n }, blockOn s.sem.sem_index s.procs)) := by
  have hself : (blockOn s.sem.sem_index s.procs).pcb_table s.procs.current =
      { s.procs.cur with status := Blocked, block_sem_index := s.sem.sem_index } :=
    Function.update_self ..
  have hother : ∀ j, j ≠ s.procs.current →
      (blockOn s.sem.sem_index s.procs).pcb_table j = s.procs.pcb_table j :=
    fun j hj => Function.update_of_ne hj ..
  have htokens : (s.enter.set
      ({ s.sem with block_proc_num := n }, blockOn s.sem.sem_index s.procs)).tokens =
        s.tokens := by
    funext i
    rcases eq_or_ne i s.procs.current with rfl | hi
    · rw [tokens_of_not_waiting hcur]
      simp only [MutexState.tokens, MutexState.enter, hself, ne_eq, not_true, and_false, if_false,
        Nat.add_zero]
    · simp only [MutexState.tokens, MutexState.enter, hother i hi, Function.update_of_ne hi]
  obtain ⟨o, ho, -⟩ := h.token
  refine ⟨h.isMutex, h.index_nonneg, fun i hi hlt hi' => ?_, ⟨?_, ?_⟩, fun i hi hlt hi' => ?_, o,
    ?_, fun hone => absurd hone hvalue⟩
  · rcases eq_or_ne i s.procs.current with rfl | hne
    · exact (congrArg PCB.pcb_index hself).trans (h.home _ hi hlt hc.live)
    · simp only [hother i hne] at hi' ⊢
      exact h.home i hi hlt hi'
  · simp only [hother 0 (Ne.symm hidle)]
    exact h.idle.1
  · exact (Function.update_of_ne (Ne.symm hidle) ..).trans h.idle.2
  · rcases eq_or_ne i s.procs.current with rfl | hne
    · exact ⟨Function.update_self .., congrArg PCB.status hself⟩
    · simp only [hother i hne] at hi' ⊢
      obtain ⟨hwait, hblocked⟩ := h.blocked i hi hlt hi'
      exact ⟨(Function.update_of_ne hne ..).trans hwait, hblocked⟩
  · rw [htokens]
    exact ho

/-- **`sem_wait`** -/
theorem MutexInv.semWait (h : MutexInv s) (hc : AtHome s)
    (hcur : s.waiting s.procs.current = false) (hsafe : MutexSafe s .semWait)
    (hstep : MutexStep s .semWait s') :
    MutexInv s' ∧ AtHome s' ∧ s'.waiting s'.procs.current = false := by
  rw [MutexStep, mutexStep] at hstep
  split at hstep
  · next hidle =>
    obtain ⟨x, hx, rfl⟩ := Option.map_eq_some_iff.mp hstep
    simp only [OsLab.semWait, h.isMutex, Bool.not_true, Bool.false_eq_true, if_false] at hx
    split at hx
    · next hvalue =>
      -- the semaphore is free, and nobody has a token
      obtain rfl := Option.some.inj hx
      obtain ⟨o, ho, hfree⟩ := h.token
      rw [hfree hvalue] at ho
      refine MutexInv.resume ⟨rfl, h.index_nonneg, h.home, ⟨h.idle.1, ?_⟩,
        fun i hi hlt hi' => ?_, _, ho.acquire (tokens_enter hc hcur), nofun⟩
        ⟨hc.nonneg, hc.lt, hc.live, hc.runs⟩
      · exact (Function.update_of_ne (Ne.symm hidle) ..).trans h.idle.2
      · obtain ⟨hwait, hblocked⟩ := h.blocked i hi hlt hi'
        refine ⟨?_, hblocked⟩
        show Function.update s.waiting _ _ i = true
        rw [Function.update_apply, hwait, ite_self]
    · next hvalue =>
      -- the running process is blocked, and has no token for this `sem_wait`
      obtain ⟨p, hp, rfl⟩ := Option.map_eq_some_iff.mp hx
      have hlive : (blockOn s.sem.sem_index s.procs).cur.status ≠ -1 := by
        show (Function.update s.procs.pcb_table s.procs.current _ s.procs.current).status ≠ -1
        rw [Function.update_self]
        exact (by decide : Blocked ≠ -1)
      have hend : EndOfTable (blockOn s.sem.sem_index s.procs) := by
        intro h99
        show (Function.update s.procs.pcb_table s.procs.current _ 100).status ≠ Ready
        have h99 : s.procs.current = 99 := h99
        rw [Function.update_of_ne (by omega)]
        exact hsafe.1 hvalue h99
      obtain ⟨hs, hcs⟩ := (h.block hc hidle hcur hvalue _).schedule ⟨hc.nonneg, hc.lt⟩ hlive hend hp
      exact hs.resume hcs
  · exact absurd hstep nofun

/-- A process that calls `sem_post` gives its token back. -/
theorem tokens_leave (hcur : s.waiting s.procs.current = false) :
    s.leave.tokens = Function.update s.tokens s.procs.current (s.tokens s.procs.current - 1) := by
  funext i
  rcases eq_or_ne i s.procs.current with rfl | hi
  · rw [Function.update_self, tokens_of_not_waiting hcur, tokens_of_not_waiting]
    · exact Function.update_self ..
    · exact hcur
  · have hdepth : s.leave.depth i = s.depth i := Function.update_of_ne hi ..
    rw [Function.update_of_ne hi, MutexState.tokens, hdepth]
    rfl

/-- **`release_sem`** hands the token, that nobody has, to a process that is blocked. -/
theorem MutexInv.releaseSem (h : MutexInv s) (hc : AtHome s) (hvalue : s.sem.value ≠ 1)
    (hnone : Token s.tokens none) (n : ℤ) :
    MutexInv (s.set ({ s.sem with block_proc_num := n },
        ⟨OsLab.releaseSem s.sem.sem_index s.procs.pcb_table, s.procs.current⟩)) ∧
      AtHome (s.set ({ s.sem with block_proc_num := n },
        ⟨OsLab.releaseSem s.sem.sem_index s.procs.pcb_table, s.procs.current⟩)) := by
  obtain ⟨heq, -⟩ | ⟨i, hi, hlt, hi', heq⟩ := releaseSem_cases s.sem.sem_index s.procs.pcb_table
  · rw [heq]
    exact ⟨⟨h.isMutex, h.index_nonneg, h.home, h.idle, h.blocked, none, hnone, fun _ => rfl⟩,
      hc.nonneg, hc.lt, hc.live, hc.runs⟩
  · rw [heq]
    have hwait := (h.blocked i hi hlt hi').1
    have hne : s.procs.current ≠ i := by
      rintro rfl
      exact hc.runs hi'
    have hindex : (-1 : ℤ) ≠ s.sem.sem_index := by have := h.index_nonneg; omega
    have htokens : (s.set ({ s.sem with block_proc_num := n },
        ⟨Function.update s.procs.pcb_table i { s.procs.pcb_table i with
          block_sem_index := -1, status := Ready, time_count := 0 }, s.procs.current⟩)).tokens =
        Function.update s.tokens i (s.tokens i + 1) := by
      funext j
      rcases eq_or_ne j i with rfl | hj
      · have hgranted : s.waiting j = true ∧ (-1 : ℤ) ≠ s.sem.sem_index := ⟨hwait, hindex⟩
        have hblocked : ¬(s.waiting j = true ∧
            (s.procs.pcb_table j).block_sem_index ≠ s.sem.sem_index) := fun hn => hn.2 hi'
        simp only [MutexState.tokens, Function.update_self, if_pos hgranted, if_neg hblocked]
      · simp only [MutexState.tokens, Function.update_of_ne hj]
    refine ⟨⟨h.isMutex, h.index_nonneg, fun j hj hjlt hj' => ?_, ⟨?_, h.idle.2⟩,
      fun j hj hjlt hj' => ?_, some i, hnone.acquire htokens, fun hone => absurd hone hvalue⟩,
      hc.nonneg, hc.lt, ?_, ?_⟩
    · rcases eq_or_ne j i with rfl | hji
      · have hlive : (s.procs.pcb_table j).status ≠ -1 := by
          rw [(h.blocked j hi hlt hi').2]
          decide
        simp only [Function.update_self]
        exact h.home j hi hlt hlive
      · simp only [Function.update_of_ne hji] at hj' ⊢
        exact h.home j hj hjlt hj'
    · have h0 : (0 : ℤ) ≠ i := by
        rintro rfl
        rw [h.idle.2] at hwait
        exact Bool.false_ne_true hwait
      simp only [Function.update_of_ne h0]
      exact h.idle.1
    · rcases eq_or_ne j i with rfl | hji
      · simp only [Function.update_self] at hj'
        exact absurd hj' hindex
      · simp only [Function.update_of_ne hji] at hj' ⊢
        exact h.blocked j hj hjlt hj'
    · simp only [Procs.cur, Function.update_of_ne hne]
      exact hc.live
    · simp only [Procs.cur, Function.update_of_ne hne]
      exact hc.runs

/-- **`sem_post`** -/
theorem MutexInv.semPost (h : MutexInv s) (hc : AtHome s)
    (hcur : s.waiting s.procs.current = false) (hstep : MutexStep s .semPost s') :
    MutexInv s' ∧ AtHome s' ∧ s'.waiting s'.procs.current = false := by
  rw [MutexStep, mutexStep] at hstep
  split at hstep
  · next hinside =>
    obtain rfl := Option.some.inj hstep
    obtain ⟨o, ho, hfree⟩ := h.token
    have hheld : 0 < s.tokens s.procs.current := by rwa [tokens_of_not_waiting hcur]
    have hvalue : s.sem.value ≠ 1 := fun hone => by
      rw [hfree hone] at ho
      rw [ho.eq_zero] at hheld
      exact absurd hheld (by decide)
    have hnone : Token s.leave.tokens none := ho.release hheld (tokens_leave hcur)
    have hl : MutexInv s.leave :=
      ⟨h.isMutex, h.index_nonneg, h.home, h.idle, h.blocked, none, hnone, fun _ => rfl⟩
    have hcl : AtHome s.leave := ⟨hc.nonneg, hc.lt, hc.live, hc.runs⟩
    simp only [OsLab.semPost, h.isMutex, Bool.not_true, Bool.false_eq_true, if_false]
    split
    · exact ⟨⟨rfl, h.index_nonneg, h.home, h.idle, h.blocked, none, hnone, fun _ => rfl⟩,
        ⟨hc.nonneg, hc.lt, hc.live, hc.runs⟩, hcur⟩
    · obtain ⟨hr, hcr⟩ := hl.releaseSem hcl hvalue hnone (int32 (s.sem.block_proc_num - 1))
      exact ⟨hr, hcr, hcur⟩
  · exact absurd hstep nofun

end Events

/-! ## All runs -/

/-- What holds between two events. -/
def MutexOk (s : MutexState) : Prop :=
  MutexInv s ∧ AtHome s ∧ s.waiting s.procs.current = false

theorem MutexStart.ok {s : MutexState} (h : MutexStart s) : MutexOk s := by
  obtain ⟨v, n, hn, hsem⟩ := h.sem_init
  have htokens : Token s.tokens none := fun i => by
    rw [tokens_of_not_waiting (h.waiting i), h.depth i, if_neg nofun]
  refine ⟨⟨?_, ?_, h.home, ⟨h.idle, h.waiting 0⟩, fun i hi hlt hi' =>
    absurd hi' (h.unused i hi hlt),
    none, htokens, fun _ => rfl⟩, ⟨h.cur.1, h.cur.2.1, h.cur.2.2, h.unused _ h.cur.1 h.cur.2.1⟩,
    h.waiting _⟩
  · rw [hsem]
    rfl
  · rw [hsem]
    exact hn

/-- **One safe event.** -/
theorem MutexOk.step {s s' : MutexState} {e : MutexEvent} (h : MutexOk s) (hsafe : MutexSafe s e)
    (hstep : MutexStep s e s') : MutexOk s' := by
  obtain ⟨hinv, hc, hcur⟩ := h
  cases e with
  | semWait => exact hinv.semWait hc hcur hsafe hstep
  | semPost => exact hinv.semPost hc hcur hstep
  | timer => exact hinv.timer hc hsafe hstep

/-- **Mutual exclusion.** In a run in which the timer never ends the sleeping time of a process that
is blocked on the semaphore, and `schedule` stays inside the table, at most one thread at a time is
past its `sem_wait`. -/
theorem mutualExclusion (s₀ s : MutexState) (l : List MutexEvent) (h : MutexStart s₀)
    (hrun : Run (Guarded MutexSafe MutexStep) s₀ l s) : MutualExclusion s := by
  have hok : MutexOk s := Run.invariant (fun _ _ _ h hs => h.step hs.1 hs.2) hrun h.ok
  obtain ⟨hinv, -, -⟩ := hok
  obtain ⟨o, ho, -⟩ := hinv.token
  intro i j hi hj
  have hpos : ∀ i, 0 < s.depth i → 0 < s.tokens i := fun i hi => Nat.add_pos_left hi _
  exact ho.unique (hpos i hi) (hpos j hj)

/-! ### A mutex with two threads -/

/-- The thread in slot 1. -/
def owner (status time_count : ℤ) : PCB :=
  { gamePcb with status := status, time_count := time_count }

/-- The thread in slot 2. -/
def waiter (status sleep_time block_sem_index : ℤ) : PCB :=
  { pcbNew (-2) 2 2 freePcb with
    status := status, sleep_time := sleep_time, block_sem_index := block_sem_index }

/-- Thread 1 runs and has used up its time, and thread 2 is ready. -/
def mutexStart : MutexState :=
  ⟨⟨slotTable [idlePcb, owner Running 10, waiter Ready Sleeptime (-1)], 1⟩, (semInit 1 true 0).1,
    fun _ => false, fun _ => 0⟩

/-- Thread 1 has returned from its `sem_wait`, and thread 2 runs. -/
def mutexTaken : MutexState :=
  ⟨⟨slotTable [idlePcb, owner Ready 0, waiter Running Sleeptime (-1)], 2⟩, ⟨0, true, 0, 0⟩,
    fun _ => false, Function.update (fun _ => 0) 1 1⟩

/-- Thread 1 is past its `sem_wait` and runs, and thread 2 waits. -/
def mutexHeld (time_count : ℤ) (q : PCB) : MutexState :=
  ⟨⟨slotTable [idlePcb, owner Running time_count, q], 1⟩, ⟨0, true, 0, 1⟩,
    Function.update (fun _ => false) 2 true, Function.update (fun _ => 0) 1 1⟩

theorem mutexStart_start : MutexStart mutexStart := by
  have hslots : ∀ i : ℤ, i = 0 ∨ i = 1 ∨ i = 2 ∨ mutexStart.procs.pcb_table i = freePcb := by
    intro i
    by_cases hi : 0 ≤ i ∧ i < 3
    · omega
    · exact .inr (.inr (.inr (slotTable_free hi)))
  refine ⟨⟨1, 0, by decide, rfl⟩, fun i _ _ => ?_, fun i => rfl, fun i => rfl, fun i _ _ hi => ?_,
    by decide, by decide, by decide, by decide⟩
  · rcases hslots i with rfl | rfl | rfl | hfree
    · decide
    · decide
    · decide
    · rw [hfree]
      decide
  · rcases hslots i with rfl | rfl | rfl | hfree
    · rfl
    · rfl
    · rfl
    · rw [hfree] at hi
      exact absurd rfl hi

/-- A tick while thread 1 runs. -/
theorem wakeup_threads (n : ℤ) (q : PCB) :
    wakeup (slotTable [idlePcb, owner Running n, q]) =
      slotTable [idlePcb, owner Running n, wakeupPcb q] := by
  rw [wakeup_slotTable (by simp)]
  rfl

/-- The tick that ends thread 1's time. -/
theorem timerTick_threads (q : PCB) (hq : (wakeupPcb q).status = Ready) :
    timerTick ⟨slotTable [idlePcb, owner Running 10, q], 1⟩ =
      some ⟨slotTable [idlePcb, owner Ready 0, { wakeupPcb q with status := Running }], 2⟩ := by
  have hready : Function.update (slotTable [idlePcb, owner Running 10, wakeupPcb q]) (1 : ℕ)
      (owner Ready 0) = slotTable [idlePcb, owner Ready 0, wakeupPcb q] :=
    slotTable_update (by simp) _
  have hrun : Function.update (slotTable [idlePcb, owner Ready 0, wakeupPcb q]) (2 : ℕ)
      { wakeupPcb q with status := Running } =
        slotTable [idlePcb, owner Ready 0, { wakeupPcb q with status := Running }] :=
    slotTable_update (by simp) _
  have hloop : scheduleLoop (slotTable [idlePcb, owner Ready 0, wakeupPcb q]) 1 102 2 =
      some (some 2) := by
    have hslot : slotTable [idlePcb, owner Ready 0, wakeupPcb q] 2 = wakeupPcb q := rfl
    show scheduleLoop _ 1 (101 + 1) 2 = _
    rw [scheduleLoop, if_pos (by decide), hslot, if_pos hq]
  rw [timerTick]
  simp only [wakeup_threads]
  refine (if_pos rfl).trans ?_
  show schedule ⟨Function.update _ 1 (owner Ready 0), 1⟩ = _
  rw [show (1 : ℤ) = ((1 : ℕ) : ℤ) from rfl, hready, schedule]
  show Option.map _ (scheduleLoop _ 1 102 2) = _
  rw [hloop, ← hrun]
  rfl

/-- A tick that leaves thread 1 running. -/
theorem mutexHeld_timer {n : ℤ} (q : PCB) (hlo : 0 ≤ n) (hlt : n < 10) :
    MutexStep (mutexHeld n q) .timer (mutexHeld (n + 1) (wakeupPcb q)) := by
  have hcount : slotTable [idlePcb, owner Running (n + 1), wakeupPcb q] =
      Function.update (slotTable [idlePcb, owner Running n, wakeupPcb q]) (1 : ℕ)
        (owner Running (int32 (n + 1))) := by
    rw [slotTable_update (by simp), int32_eq (by omega) (by omega)]
    rfl
  have hne : n ≠ 10 := by omega
  have htick : timerTick (mutexHeld n q).procs =
      some ⟨slotTable [idlePcb, owner Running (n + 1), wakeupPcb q], 1⟩ := by
    rw [timerTick, mutexHeld, hcount]
    simp only [wakeup_threads]
    exact if_neg hne
  rw [MutexStep, mutexStep, htick]
  rfl

theorem mutexHeld_timers (q : PCB) {n : ℕ} (hn : n ≤ 10) :
    Run MutexStep (mutexHeld 0 q) (List.replicate n .timer) (mutexHeld n (wakeupPcb^[n] q)) := by
  induction n with
  | zero => exact .nil _
  | succ n ih =>
    rw [List.replicate_succ', Function.iterate_succ_apply']
    exact (ih (by omega)).snoc (mutexHeld_timer _ (by omega) (by omega))

/-- Thread 1 takes the semaphore, its time ends, and thread 2 is blocked on the semaphore. -/
theorem mutexHeld_steps :
    MutexStep mutexStart .semWait { mutexTaken with procs := mutexStart.procs } ∧
      MutexStep { mutexTaken with procs := mutexStart.procs } .timer mutexTaken ∧
      MutexStep mutexTaken .semWait (mutexHeld 0 (waiter Blocked Sleeptime 0)) := by
  have htake : MutexStep mutexStart .semWait { mutexTaken with procs := mutexStart.procs } := by
    have heval : mutexStep mutexStart .semWait = some ⟨mutexStart.procs, ⟨0, true, 0, 0⟩,
        Function.update (Function.update (fun _ => false) 1 true) 1 false,
        Function.update (fun _ => 0) 1 1⟩ := rfl
    rw [MutexStep, heval, Function.update_idem, Function.update_eq_self_iff.mpr rfl]
    rfl
  have hswitch : MutexStep { mutexTaken with procs := mutexStart.procs } .timer mutexTaken := by
    have htick := timerTick_threads (waiter Ready Sleeptime (-1)) rfl
    show Option.map _ (timerTick ⟨slotTable [idlePcb, owner Running 10, _], 1⟩) = _
    rw [htick]
    rfl
  have hblock : MutexStep mutexTaken .semWait (mutexHeld 0 (waiter Blocked Sleeptime 0)) := by
    have hblocked :
        Function.update mutexTaken.procs.pcb_table (2 : ℕ) (waiter Blocked Sleeptime 0) =
        slotTable [idlePcb, owner Ready 0, waiter Blocked Sleeptime 0] :=
      slotTable_update (by simp) _
    have hloop : scheduleLoop (slotTable [idlePcb, owner Ready 0, waiter Blocked Sleeptime 0]) 2 102
        3 = some (some 1) := by decide
    have hrun : Function.update (slotTable [idlePcb, owner Ready 0, waiter Blocked Sleeptime 0])
        (1 : ℕ) (owner Running 0) = (mutexHeld 0 (waiter Blocked Sleeptime 0)).procs.pcb_table :=
      slotTable_update (by simp) _
    have hblockOn : blockOn 0 mutexTaken.procs =
        ⟨slotTable [idlePcb, owner Ready 0, waiter Blocked Sleeptime 0], 2⟩ := by
      rw [← hblocked]
      rfl
    have hsched : schedule (blockOn 0 mutexTaken.procs) =
        some (mutexHeld 0 (waiter Blocked Sleeptime 0)).procs := by
      rw [hblockOn, schedule]
      show Option.map _ (scheduleLoop (slotTable _) 2 102 3) = _
      rw [hloop, Option.map_some]
      exact congrArg (fun t => some (Procs.mk t 1)) hrun
    have hwait : semWait mutexTaken.sem mutexTaken.procs =
        some (⟨0, true, 0, 1⟩, (mutexHeld 0 (waiter Blocked Sleeptime 0)).procs) := by
      have hbusy : semWait mutexTaken.sem mutexTaken.procs =
          semBlock ⟨0, true, 0, 0⟩ mutexTaken.procs := by
        rw [semWait, if_neg (by decide), if_neg (by decide)]
        rfl
      rw [hbusy, semBlock, hsched]
      rfl
    rw [MutexStep, mutexStep, if_pos (by decide), hwait]
    rfl
  exact ⟨htake, hswitch, hblock⟩

/-- Nobody waits yet when the timer ticks. -/
theorem mutualExclusion_held :
    MutexStart mutexStart ∧ Run (Guarded MutexSafe MutexStep) mutexStart
        [.semWait, .timer, .semWait] (mutexHeld 0 (waiter Blocked Sleeptime 0)) ∧
      MutualExclusion (mutexHeld 0 (waiter Blocked Sleeptime 0)) := by
  obtain ⟨htake, hswitch, hblock⟩ := mutexHeld_steps
  have hsafe : MutexSafe { mutexTaken with procs := mutexStart.procs } .timer :=
    ⟨fun _ h99 => absurd h99 (by decide), fun _ i hi hlt _ hi' =>
      absurd hi' (mutexStart_start.unused i hi hlt)⟩
  have hrun : Run (Guarded MutexSafe MutexStep) mutexStart [.semWait, .timer, .semWait]
      (mutexHeld 0 (waiter Blocked Sleeptime 0)) :=
    .cons ⟨⟨fun _ h99 => absurd h99 (by decide), nofun⟩, htake⟩
      (.cons ⟨hsafe, hswitch⟩
        (.cons ⟨⟨fun _ h99 => absurd h99 (by decide), nofun⟩, hblock⟩ (.nil _)))
  exact ⟨mutexStart_start, hrun, mutualExclusion _ _ _ mutexStart_start hrun⟩

/-- In ten ticks a process that waits is made ready. -/
theorem wakeupPcb_iterate :
    wakeupPcb^[10] (waiter Blocked Sleeptime 0) = waiter Ready 0 0 := rfl

/-- Thread 1 takes the semaphore, its time ends, thread 2 is blocked on the semaphore, and then the
timer ticks until thread 1's time ends again. -/
def mutexEvents : List MutexEvent :=
  [.semWait, .timer, .semWait] ++ List.replicate 10 .timer ++ [.timer]

/-- **Two threads past their `sem_wait`.** The timer has ended the sleeping time of the thread that
waits, and resumes it. -/
theorem mutexEvents_not_exclusive :
    MutexStart mutexStart ∧ ∃ s, Run MutexStep mutexStart mutexEvents s ∧ ¬MutualExclusion s := by
  have hticks := mutexHeld_timers (waiter Blocked Sleeptime 0) (Nat.le_refl 10)
  rw [wakeupPcb_iterate] at hticks
  have hlast : ∃ s, MutexStep (mutexHeld 10 (waiter Ready 0 0)) .timer s ∧ 0 < s.depth 1 ∧
      0 < s.depth 2 := by
    have hstep : mutexStep (mutexHeld 10 (waiter Ready 0 0)) .timer =
        (timerTick (mutexHeld 10 (waiter Ready 0 0)).procs).map fun p =>
          ((mutexHeld 10 (waiter Ready 0 0)).set (⟨0, true, 0, 1⟩, p)).resume := rfl
    have htick : timerTick (mutexHeld 10 (waiter Ready 0 0)).procs = _ :=
      timerTick_threads (waiter Ready 0 0) rfl
    rw [htick] at hstep
    exact ⟨_, hstep, by decide, by decide⟩
  obtain ⟨s, hs, h1, h2⟩ := hlast
  obtain ⟨htake, hswitch, hblock⟩ := mutexHeld_steps
  have hheld : Run MutexStep mutexStart [.semWait, .timer, .semWait] _ :=
    .cons htake (.cons hswitch (.cons hblock (.nil _)))
  refine ⟨mutexStart_start, s, (hheld.append hticks).snoc hs, fun h => ?_⟩
  exact absurd (h 1 2 h1 h2) (by decide)

end OsLab

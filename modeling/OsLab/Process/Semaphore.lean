import OsLab.Process.Lifecycle

/-!
# Semaphores and the timer

The functions of `semaphore.c`, and what the timer interrupt does to the process table. A process
that waits for a semaphore is `Blocked`, and so is a process that sleeps; they are told apart by
`block_sem_index` only, and `wakeup` does not look at it.

Each call is one step here. The interrupts that `enable_interrupt` lets in before the call is over
are the subject of the module on trap frames.

## Main definitions

* `Sem` — a semaphore, `sem_t`
* `semInit` — `sem_init(sem, value, mutex)`, with the number `sem_count` of the next semaphore
* `semDestroy` — `sem_destroy(sem)`: one process that is blocked on the semaphore is made ready
* `semTrywait` — `sem_trywait(sem)`, with what it returns
* `timerTick` — the timer interrupt: every process that is blocked gets nearer to waking up, and the
  running process is preempted after ten ticks
-/

namespace OsLab

/-- A semaphore, `sem_t`. -/
structure Sem where
  value : ℤ
  mutex : Bool
  sem_index : ℤ
  block_proc_num : ℤ

/-- `sem_init(sem, value, mutex)`, with the number `sem_count` of the next semaphore. -/
def semInit (value : ℤ) (mutex : Bool) (sem_count : ℤ) : Sem × ℤ :=
  (⟨if mutex then 1 else value, mutex, sem_count, 0⟩, int32 (sem_count + 1))

/-- The running process is blocked on the semaphore. -/
def blockOn (sem_index : ℤ) (p : Procs) : Procs :=
  p.modify p.current fun q => { q with status := Blocked, block_sem_index := sem_index }

/-- The part of `sem_wait` for a semaphore that is not free. -/
def semBlock (sem : Sem) (p : Procs) : Option (Sem × Procs) :=
  (schedule (blockOn sem.sem_index p)).map fun p' =>
    ({ sem with block_proc_num := int32 (sem.block_proc_num + 1) }, p')

/-- `sem_wait(sem)` -/
def semWait (sem : Sem) (p : Procs) : Option (Sem × Procs) :=
  if !sem.mutex then
    let sem := { sem with value := int32 (sem.value - 1) }
    if sem.value < 0 then semBlock sem p else some (sem, p)
  else if sem.value = 1 then some ({ sem with value := 0 }, p)
  else semBlock sem p

/-- The part of `sem_post` for a semaphore that processes are blocked on. -/
def semRelease (sem : Sem) (p : Procs) : Sem × Procs :=
  ({ sem with block_proc_num := int32 (sem.block_proc_num - 1) },
    { p with pcb_table := releaseSem sem.sem_index p.pcb_table })

/-- `sem_post(sem)` -/
def semPost (sem : Sem) (p : Procs) : Sem × Procs :=
  if !sem.mutex then
    let sem := { sem with value := int32 (sem.value + 1) }
    if sem.value ≤ 0 then semRelease sem p else (sem, p)
  else if sem.block_proc_num = 0 then ({ sem with value := 1 }, p)
  else semRelease sem p

/-- `sem_destroy(sem)`: one process that is blocked on the semaphore is made ready. -/
def semDestroy (sem : Sem) (p : Procs) : Procs :=
  { p with pcb_table := releaseSem sem.sem_index p.pcb_table }

/-- `sem_trywait(sem)`, with what it returns. -/
def semTrywait (sem : Sem) : Sem × ℤ :=
  if !sem.mutex then
    let sem := { sem with value := int32 (sem.value - 1) }
    if sem.value < 0 then (sem, 1) else (sem, 0)
  else if sem.value = 1 then ({ sem with value := 0 }, 0)
  else (sem, 1)

/-- The timer interrupt: every process that is blocked gets nearer to waking up, and the running
process is preempted after ten ticks. -/
def timerTick (p : Procs) : Option Procs :=
  let p := { p with pcb_table := wakeup p.pcb_table }
  if p.cur.time_count = 10 then schedule (p.modify p.cur.pcb_index processReady)
  else some (p.modify p.current fun q => { q with time_count := int32 (q.time_count + 1) })

/-! ## What they leave alone -/

/-- What `wakeup` does to one PCB. -/
theorem wakeup_apply (t : ℤ → PCB) (i : ℤ) :
    wakeup t i = if 0 ≤ i ∧ i < MAX_PCB then wakeupPcb (t i) else t i :=
  forRange_update wakeupPcb t (by decide) i

theorem wakeup_slotTable {l : List PCB} (hl : l.length ≤ 100) :
    wakeup (slotTable l) = slotTable (l.map wakeupPcb) := by
  have hfree : wakeupPcb freePcb = freePcb := if_neg (by decide)
  funext i
  have hmap : (l.map wakeupPcb).getD i.toNat freePcb = wakeupPcb (l.getD i.toNat freePcb) := by
    rw [← List.getD_map l freePcb wakeupPcb, hfree]
  rw [wakeup_apply, slotTable, slotTable, hmap]
  split
  · next hi => rw [if_pos hi.1, if_pos hi.1]
  · next hi =>
    by_cases h0 : 0 ≤ i
    · have hge : ¬i < MAX_PCB := fun hlt => hi ⟨h0, hlt⟩
      simp only [MAX_PCB] at hge
      rw [List.getD_eq_default l freePcb (by omega), hfree]
    · rw [if_neg h0, if_neg h0]

/-- `wakeup` leaves a PCB alone, or counts its sleeping time down, and makes it ready if that was
the last tick of it. -/
theorem wakeup_cases (t : ℤ → PCB) (i : ℤ) :
    wakeup t i = t i ∨
      (t i).status = Blocked ∧ wakeup t i = { t i with
        sleep_time := int32 ((t i).sleep_time - 1)
        status := if int32 ((t i).sleep_time - 1) = 0 then Ready else Blocked } := by
  rw [wakeup_apply, wakeupPcb]
  split
  · split
    · next hblocked => exact .inr ⟨hblocked, by simp only [hblocked]⟩
    · exact .inl rfl
  · exact .inl rfl

/-- What `release_sem` does: nothing, or the first PCB blocked on the semaphore is made ready. -/
theorem releaseSem_cases (sem_index : ℤ) (t : ℤ → PCB) :
    (releaseSem sem_index t = t ∧ ∀ i, 0 ≤ i → i < MAX_PCB → (t i).block_sem_index ≠ sem_index) ∨
      ∃ i, 0 ≤ i ∧ i < MAX_PCB ∧ (t i).block_sem_index = sem_index ∧
        releaseSem sem_index t = Function.update t i
          { t i with block_sem_index := -1, status := Ready, time_count := 0 } := by
  rw [releaseSem]
  cases hfind : findSlot 100 fun i => (t i).block_sem_index = sem_index with
  | none =>
    refine .inl ⟨rfl, fun i hi hlt => ?_⟩
    simpa using findSlot_eq_none.mp hfind i hi hlt
  | some i =>
    obtain ⟨hi, hlt, hp, -⟩ := findSlot_eq_some hfind
    exact .inr ⟨i, hi, hlt, by simpa using hp, rfl⟩

end OsLab

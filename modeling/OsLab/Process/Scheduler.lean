import OsLab.Lib.Run
import OsLab.Process.Semaphore

/-!
# The scheduler's invariant

The system is started by `init_cond`, with the idle process in slot 0 and the game in slot 1, and
from then on the timer ticks and the running process makes calls. `SchedOk` says what `schedule` and
its callers maintain: only the running process has the status `Running`, it is neither blocked nor
gone, every process knows its own slot, and slot 0 stays what it is.

`schedule` may fall back to slot 0 and leave its status as it is, and `release_sem` makes a slot
ready that may even be free. The invariant therefore also speaks of free slots that a semaphore
still refers to (`SlotOk`).

`schedule` looks behind the table when it is run from slot 99. As long as a slot is free after every
call slot 99 is never taken.

## Main definitions

* `initCond` — `init_cond`, as far as it concerns the process table: the idle process, and the game
  that `loader` sets up
* `SchedCall` — what can happen: the timer, and calls of the running process
* `SchedStep` — a call that is allowed, from which the kernel returns, and after which a slot is
  free
* `SchedOk` — what the scheduler maintains
* `SlotOk` — what holds of the PCB in slot `i`, also of one that is free
* `SchedInv` — the state between two calls
* `Switching` — the state in which `schedule` is called: nobody is running

## Main results

* `schedOk_run` — the invariant, in every state that can be reached
-/

namespace OsLab

/-! ## Starting -/

/-- `init_cond`, as far as it concerns the process table: the idle process, and the game that
`loader` sets up. `kcr3` and `ucr3` are the page directories of the two, and `garbage` is what
`get_pcb` returns when it finds no slot. -/
def initCond (kcr3 ucr3 : UInt32) (garbage : ℤ) (t : ℤ → PCB) : Procs :=
  let t := pcbInit t
  let idle := getPcbOr garbage t
  let t := Function.update t idle { pcbNew 1 0 idle (t idle) with cr3 := kcr3 }
  let game := getPcbOr garbage t
  ⟨Function.update t game (processReady { pcbNew 2 0 game (t game) with cr3 := ucr3 }), idle⟩

theorem getPcb_eq_some {t : ℤ → PCB} {i : ℤ} (h : getPcb t = some i) :
    0 ≤ i ∧ i < MAX_PCB ∧ (t i).status = -1 ∧ ∀ j, 0 ≤ j → j < i → (t j).status ≠ -1 := by
  obtain ⟨hi, hlt, hp, hbefore⟩ := findSlot_eq_some h
  refine ⟨hi, hlt, by simpa using hp, fun j hj hji => ?_⟩
  simpa using hbefore j hj hji

theorem exists_getPcb {t : ℤ → PCB} {i : ℤ} (hi : 0 ≤ i) (hlt : i < MAX_PCB)
    (h : (t i).status = -1) : ∃ j, getPcb t = some j :=
  exists_findSlot_eq_some hi hlt (decide_eq_true h)

theorem getPcbOr_eq {t : ℤ → PCB} {i garbage : ℤ} (hi : 0 ≤ i) (hlt : i < MAX_PCB)
    (h : (t i).status = -1) (hbefore : ∀ j, 0 ≤ j → j < i → (t j).status ≠ -1) :
    getPcbOr garbage t = i := by
  have hfind : getPcb t = some i :=
    findSlot_eq hi hlt (decide_eq_true h) fun j hj hji => decide_eq_false (hbefore j hj hji)
  rw [getPcbOr, hfind]
  rfl

theorem initCond_eq (kcr3 ucr3 : UInt32) (garbage : ℤ) (t : ℤ → PCB) :
    initCond kcr3 ucr3 garbage t =
      ⟨Function.update (Function.update (pcbInit t) 0 { pcbNew 1 0 0 (t 0).init with cr3 := kcr3 })
        1 (processReady { pcbNew 2 0 1 (t 1).init with cr3 := ucr3 }), 0⟩ := by
  have h0 : pcbInit t 0 = (t 0).init := pcbInit_of_lt t (by decide) (by decide)
  have h1 : pcbInit t 1 = (t 1).init := pcbInit_of_lt t (by decide) (by decide)
  have hidle : getPcbOr garbage (pcbInit t) = 0 :=
    getPcbOr_eq (by decide) (by decide) (by rw [h0]; rfl) fun j hj hlt => absurd hlt (by omega)
  have hgame : getPcbOr garbage (Function.update (pcbInit t) 0
      { pcbNew 1 0 0 (t 0).init with cr3 := kcr3 }) = 1 := by
    refine getPcbOr_eq (by decide) (by decide) ?_ fun j hj hlt => ?_
    · rw [Function.update_of_ne (by decide), h1]
      rfl
    · obtain rfl : j = 0 := by omega
      rw [Function.update_self]
      exact (by decide : New ≠ -1)
  simp only [initCond, hidle, h0, hgame]
  rw [Function.update_of_ne (by decide), h1]

/-! ## Calls -/

/-- What can happen: the timer, and calls of the running process. A semaphore is given as the call
finds it; `cr3` is the page directory of a new process. -/
inductive SchedCall
  | timer
  | sleep (time : ℤ)
  | fork (cr3 : UInt32) (garbage : ℤ)
  | createThread (cr3 : UInt32) (garbage : ℤ)
  | exit
  | semWait (sem : Sem)
  | semPost (sem : Sem)
  | semTrywait (sem : Sem)
  | semDestroy (sem : Sem)

/-- What a call does to the process table. -/
def SchedCall.exec (p : Procs) : SchedCall → Option Procs
  | .timer => timerTick p
  | .sleep time => processSleep time p
  | .fork cr3 garbage => processFork cr3 garbage p
  | .createThread cr3 garbage => some (OsLab.createThread cr3 garbage p)
  | .exit => processExit p
  | .semWait sem => (OsLab.semWait sem p).map Prod.snd
  | .semPost sem => some (OsLab.semPost sem p).2
  | .semTrywait sem =>
    some (p.modify p.current fun q => { q with eax := (OsLab.semTrywait sem).2 })
  | .semDestroy sem => some (OsLab.semDestroy sem p)

/-- Slot 0 makes no calls, and a semaphore is one that `sem_init` has set up, which leaves it an
index that is not negative. -/
def SchedCall.Allowed (p : Procs) : SchedCall → Prop
  | .timer => True
  | .semWait sem | .semPost sem | .semTrywait sem | .semDestroy sem =>
    p.current ≠ 0 ∧ 0 ≤ sem.sem_index
  | _ => p.current ≠ 0

/-- At most 99 of the slots are in use. -/
def SlotFree (p : Procs) : Prop := ∃ i, 0 ≤ i ∧ i < MAX_PCB ∧ (p.pcb_table i).status = -1

/-- A call that is allowed, from which the kernel returns, and after which a slot is free. -/
def SchedStep (p : Procs) (c : SchedCall) (p' : Procs) : Prop :=
  c.Allowed p ∧ c.exec p = some p' ∧ SlotFree p'

/-- **What the scheduler maintains.** -/
structure SchedOk (p : Procs) : Prop where
  inTable : 0 ≤ p.current ∧ p.current < MAX_PCB
  running : ∀ i, 0 ≤ i → i < MAX_PCB → (p.pcb_table i).status = Running → i = p.current
  runs : p.cur.status ≠ Blocked ∧ p.cur.status ≠ -1
  home : ∀ i, 0 ≤ i → i < MAX_PCB → (p.pcb_table i).status ≠ -1 →
    (p.pcb_table i).pcb_index = i ∧ (p.pcb_table i).time_count ≤ 10
  idle : (p.pcb_table 0).status ≠ -1 ∧ (p.pcb_table 0).status ≠ Blocked

/-! ## The invariant -/

/-- What holds of the PCB in slot `i`, also of one that is free. -/
structure SlotOk (i : ℤ) (q : PCB) : Prop where
  home : q.status ≠ -1 ∨ q.block_sem_index ≠ -1 → q.pcb_index = i
  counted : q.status ≠ -1 → 0 ≤ q.time_count ∧ q.time_count ≤ 10
  idle : i = 0 → q.status ≠ -1 ∧ q.status ≠ Blocked ∧ q.block_sem_index = -1
  last : i = 99 → q.status = -1 ∧ q.block_sem_index = -1

/-- All slots are as they can be. -/
def SlotsOk (t : ℤ → PCB) : Prop := ∀ i, 0 ≤ i → i < MAX_PCB → SlotOk i (t i)

/-- The state between two calls. -/
structure SchedInv (p : Procs) : Prop where
  nonneg : 0 ≤ p.current
  lt : p.current < 99
  slots : SlotsOk p.pcb_table
  running : ∀ i, 0 ≤ i → i < MAX_PCB → (p.pcb_table i).status = Running → i = p.current
  runs : p.cur.status ≠ Blocked ∧ p.cur.status ≠ -1

/-- The state in which `schedule` is called: nobody is running. -/
structure Switching (p : Procs) : Prop where
  nonneg : 0 ≤ p.current
  lt : p.current < 99
  slots : SlotsOk p.pcb_table
  running : ∀ i, 0 ≤ i → i < MAX_PCB → (p.pcb_table i).status ≠ Running
  home : p.cur.pcb_index = p.current

section Inv

variable {p p' : Procs} {t : ℤ → PCB} {q : PCB} {i : ℤ}

theorem SchedInv.ok (h : SchedInv p) : SchedOk p := by
  have hlt := h.lt
  refine ⟨⟨h.nonneg, by simp only [MAX_PCB]; omega⟩, h.running, h.runs, fun i hi hlt hlive => ?_,
    ?_⟩
  · exact ⟨(h.slots i hi hlt).home (.inl hlive), ((h.slots i hi hlt).counted hlive).2⟩
  · obtain ⟨hlive, hblocked, -⟩ := (h.slots 0 (Int.le_refl 0) (by decide)).idle rfl
    exact ⟨hlive, hblocked⟩

/-- The last slot is always free. -/
theorem SchedInv.slotFree (h : SchedInv p) : SlotFree p :=
  ⟨99, by decide, by decide, ((h.slots 99 (by decide) (by decide)).last rfl).1⟩

/-- One slot changes. -/
theorem SlotsOk.update (h : SlotsOk t) (hq : SlotOk i q) : SlotsOk (Function.update t i q) := by
  intro j hj hlt
  rcases eq_or_ne j i with rfl | hne
  · rwa [Function.update_self]
  · rw [Function.update_of_ne hne]
    exact h j hj hlt

theorem SchedInv.inTable (h : SchedInv p) : 0 ≤ p.current ∧ p.current < MAX_PCB := h.ok.inTable

/-- What is known about the running process. -/
theorem SchedInv.cur (h : SchedInv p) : SlotOk p.current p.cur :=
  h.slots _ h.inTable.1 h.inTable.2

theorem SchedInv.cur_home (h : SchedInv p) : p.cur.pcb_index = p.current :=
  h.cur.home (.inl h.runs.2)

/-- The running process gives way: it gets another status, and nobody is running. -/
theorem SchedInv.switching (h : SchedInv p) {f : PCB → PCB} (hf : SlotOk p.current (f p.cur))
    (hindex : (f p.cur).pcb_index = p.cur.pcb_index) (hstatus : (f p.cur).status ≠ Running) :
    Switching (p.modify p.current f) := by
  refine ⟨h.nonneg, h.lt, h.slots.update hf, fun i hi hlt => ?_, ?_⟩
  · simp only [Procs.modify]
    rcases eq_or_ne i p.current with rfl | hne
    · rw [Function.update_self]
      exact hstatus
    · rw [Function.update_of_ne hne]
      exact fun hrun => hne (h.running i hi hlt hrun)
  · simp only [Procs.modify, Procs.cur, Function.update_self]
    exact hindex.trans h.cur_home

/-- The running process goes on running, with some fields changed. -/
theorem SchedInv.modifyCur (h : SchedInv p) {f : PCB → PCB} (hf : SlotOk p.current (f p.cur))
    (hruns : (f p.cur).status ≠ Blocked ∧ (f p.cur).status ≠ -1) :
    SchedInv (p.modify p.current f) := by
  refine ⟨h.nonneg, h.lt, h.slots.update hf, fun i hi hlt hrun => ?_, ?_⟩
  · simp only [Procs.modify] at hrun ⊢
    rcases eq_or_ne i p.current with rfl | hne
    · rfl
    · rw [Function.update_of_ne hne] at hrun
      exact h.running i hi hlt hrun
  · simp only [Procs.modify, Procs.cur, Function.update_self]
    exact hruns

theorem Switching.schedule_ends (h : Switching p) : schedule p ≠ none := by
  have hlt := h.lt
  have hnonneg := h.nonneg
  refine OsLab.schedule_ends ?_ ?_ <;> rw [h.home]
  · exact hnonneg
  · simp only [MAX_PCB]
    omega

/-- **`schedule`** -/
theorem Switching.schedule (h : Switching p) (hs : OsLab.schedule p = some p') : SchedInv p' := by
  have hnonneg := h.nonneg
  have hlt := h.lt
  have hin : 0 ≤ p'.current ∧ p'.current < MAX_PCB := by
    refine schedule_inTable hs ?_ ?_ fun h99 => absurd (h.home.symm.trans h99) (by omega) <;>
      rw [h.home]
    · exact hnonneg
    · simp only [MAX_PCB]
      omega
  obtain ⟨i, hready, rfl⟩ | rfl := schedule_cases hs
  · have hslot := h.slots i hin.1 hin.2
    have hlive : (p.pcb_table i).status ≠ -1 := by
      rw [hready]
      decide
    have hne : i ≠ 99 := fun h99 => hlive (hslot.last h99).1
    have hslot' : SlotOk i { p.pcb_table i with status := Running } :=
      ⟨fun _ => hslot.home (.inl hlive), fun _ => hslot.counted hlive,
        fun h0 =>
          ⟨(by decide : Running ≠ -1), (by decide : Running ≠ Blocked), (hslot.idle h0).2.2⟩,
        fun h99 => absurd h99 hne⟩
    refine ⟨hin.1, ?_, h.slots.update hslot', fun j hj hjlt hrun => ?_, ?_⟩
    · have := hin.2
      simp only [MAX_PCB] at this
      show i < 99
      have : i < 100 := this
      omega
    · show j = i
      by_contra hji
      simp only [Procs.modify] at hrun
      rw [Function.update_of_ne hji] at hrun
      exact h.running j hj hjlt hrun
    · simp only [Procs.modify, Procs.cur, Function.update_self]
      decide
  · obtain ⟨hlive, hblocked, -⟩ := (h.slots 0 (Int.le_refl 0) (by decide)).idle rfl
    exact ⟨Int.le_refl 0, (by decide : (0 : ℤ) < 99), h.slots,
      fun i hi hilt hrun => absurd hrun (h.running i hi hilt), hblocked, hlive⟩

end Inv

/-! ## The calls -/

section Calls

variable {p p' : Procs} {sem : Sem} {cr3 : UInt32} {garbage c : ℤ}

/-- The running process is neither the idle process nor in the last slot. -/
theorem SchedInv.cur_slot (h : SchedInv p) (hcur : p.current ≠ 0) {q : PCB}
    (hindex : q.pcb_index = p.cur.pcb_index) (hcount : 0 ≤ q.time_count ∧ q.time_count ≤ 10) :
    SlotOk p.current q := by
  have hlt := h.lt
  exact ⟨fun _ => hindex.trans h.cur_home, fun _ => hcount, fun h0 => absurd h0 hcur,
    fun h99 => absurd h99 (by omega)⟩

theorem SchedInv.cur_counted (h : SchedInv p) : 0 ≤ p.cur.time_count ∧ p.cur.time_count ≤ 10 :=
  h.cur.counted h.runs.2

/-- A slot after `wakeup`. -/
theorem SlotOk.wakeup {t : ℤ → PCB} {i : ℤ} (h : SlotOk i (t i)) : SlotOk i (wakeup t i) := by
  obtain heq | ⟨hblocked, heq⟩ := wakeup_cases t i <;> rw [heq]
  · exact h
  · have hlive : (t i).status ≠ -1 := by
      rw [hblocked]
      decide
    exact ⟨fun _ => h.home (.inl hlive), fun _ => h.counted hlive,
      fun h0 => absurd hblocked (h.idle h0).2.1, fun h99 => absurd (h.last h99).1 hlive⟩

theorem SchedInv.wakeup (h : SchedInv p) :
    SchedInv { p with pcb_table := OsLab.wakeup p.pcb_table } := by
  have hcur : OsLab.wakeup p.pcb_table p.current = p.cur := by
    obtain heq | ⟨hblocked, -⟩ := wakeup_cases p.pcb_table p.current
    · exact heq
    · exact absurd hblocked h.runs.1
  refine ⟨h.nonneg, h.lt, fun i hi hlt => (h.slots i hi hlt).wakeup, fun i hi hlt hrun => ?_, ?_⟩
  · refine h.running i hi hlt ?_
    obtain heq | ⟨-, heq⟩ := wakeup_cases p.pcb_table i
    · exact heq ▸ hrun
    · -- a process that is woken up is ready
      have hstatus : (if int32 ((p.pcb_table i).sleep_time - 1) = 0 then Ready else Blocked) =
          Running := (congrArg PCB.status heq).symm.trans hrun
      split at hstatus <;> exact absurd hstatus (by decide)
  · simp only [Procs.cur, hcur]
    exact h.runs

/-- **The timer.** -/
theorem SchedInv.timer (h : SchedInv p) :
    timerTick p ≠ none ∧ ∀ p', timerTick p = some p' → SchedInv p' := by
  have hw := h.wakeup
  rw [timerTick]
  split
  · have hswitch : Switching (({ p with pcb_table := OsLab.wakeup p.pcb_table } : Procs).modify
        p.current processReady) :=
      hw.switching ⟨fun _ => hw.cur_home, fun _ => ⟨Int.le_refl 0, (by decide : (0 : ℤ) ≤ 10)⟩,
        fun h0 => ⟨(by decide : Ready ≠ -1), (by decide : Ready ≠ Blocked), (hw.cur.idle h0).2.2⟩,
        fun h99 => absurd h99 (by have := h.lt; show p.current ≠ 99; omega)⟩ rfl
        (show Ready ≠ Running by decide)
    have hhome := hw.cur_home
    simp only [hhome]
    exact ⟨hswitch.schedule_ends, fun p' hp' => hswitch.schedule hp'⟩
  · next hcount =>
    refine ⟨nofun, fun p' hp' => ?_⟩
    obtain rfl := Option.some.inj hp'
    obtain ⟨hlo, hhi⟩ := hw.cur_counted
    have hcur := hw.cur
    refine hw.modifyCur ⟨hcur.home, fun _ => ?_, hcur.idle, hcur.last⟩ hw.runs
    show 0 ≤ int32 _ ∧ int32 _ ≤ 10
    rw [int32_eq (by omega) (by omega)]
    omega

/-- **`sleep`** -/
theorem SchedInv.sleep (h : SchedInv p) (hcur : p.current ≠ 0) (time : ℤ) :
    Switching (p.modify p.current fun q => { q with status := Blocked, sleep_time := time }) :=
  h.switching (h.cur_slot hcur rfl h.cur_counted) rfl (show Blocked ≠ Running by decide)

/-- **`exit`** -/
theorem SchedInv.exit (h : SchedInv p) (hcur : p.current ≠ 0) :
    Switching (p.modify p.current fun q => { q with status := -1, pid := -1 }) :=
  h.switching (h.cur_slot hcur rfl h.cur_counted) rfl (show (-1 : ℤ) ≠ Running by decide)

/-- **`sem_wait`** blocks the running process or lets it go on. -/
theorem SchedInv.block (h : SchedInv p) (hcur : p.current ≠ 0) (sem_index : ℤ) :
    Switching (blockOn sem_index p) :=
  h.switching (h.cur_slot hcur rfl h.cur_counted) rfl (show Blocked ≠ Running by decide)

/-- `sem_wait` blocks its caller. -/
def Sem.Blocks (sem : Sem) : Prop :=
  if !sem.mutex then int32 (sem.value - 1) < 0 else sem.value ≠ 1

/-- `sem_post` calls `release_sem`. -/
def Sem.Releases (sem : Sem) : Prop :=
  if !sem.mutex then int32 (sem.value + 1) ≤ 0 else sem.block_proc_num ≠ 0

instance (sem : Sem) : Decidable sem.Blocks :=
  inferInstanceAs (Decidable (if !sem.mutex then int32 (sem.value - 1) < 0 else sem.value ≠ 1))

instance (sem : Sem) : Decidable sem.Releases :=
  inferInstanceAs
    (Decidable (if !sem.mutex then int32 (sem.value + 1) ≤ 0 else sem.block_proc_num ≠ 0))

/-- What `sem_wait` does to the process table. -/
theorem semWait_snd (sem : Sem) (p : Procs) :
    (semWait sem p).map Prod.snd =
      if sem.Blocks then schedule (blockOn sem.sem_index p) else some p := by
  have hblock : ∀ sem : Sem,
      (semBlock sem p).map Prod.snd = schedule (blockOn sem.sem_index p) := fun sem => by
    rw [semBlock, Option.map_map]
    exact Option.map_id'
  obtain ⟨value, mutex, sem_index, block_proc_num⟩ := sem
  cases mutex with
  | false =>
    have hiff : Sem.Blocks ⟨value, false, sem_index, block_proc_num⟩ ↔ int32 (value - 1) < 0 :=
      Iff.rfl
    simp only [semWait, Bool.not_false, if_true, hiff]
    split
    · exact hblock _
    · rfl
  | true =>
    have hiff : Sem.Blocks ⟨value, true, sem_index, block_proc_num⟩ ↔ value ≠ 1 := Iff.rfl
    simp only [semWait, Bool.not_true, Bool.false_eq_true, if_false, hiff, ne_eq, ite_not]
    split
    · rfl
    · exact hblock _

/-- What `sem_post` does to it. -/
theorem semPost_snd (sem : Sem) (p : Procs) :
    (semPost sem p).2 = if sem.Releases then semDestroy sem p else p := by
  obtain ⟨value, mutex, sem_index, block_proc_num⟩ := sem
  cases mutex with
  | false =>
    have hiff : Sem.Releases ⟨value, false, sem_index, block_proc_num⟩ ↔ int32 (value + 1) ≤ 0 :=
      Iff.rfl
    simp only [semPost, Bool.not_false, if_true, hiff]
    split <;> rfl
  | true =>
    have hiff : Sem.Releases ⟨value, true, sem_index, block_proc_num⟩ ↔ block_proc_num ≠ 0 :=
      Iff.rfl
    simp only [semPost, Bool.not_true, Bool.false_eq_true, if_false, hiff, ne_eq, ite_not]
    split <;> rfl

theorem semWait_cases (sem : Sem) (p : Procs) :
    (semWait sem p).map Prod.snd = some p ∨
      (semWait sem p).map Prod.snd = schedule (blockOn sem.sem_index p) := by
  rw [semWait_snd]
  split
  · exact .inr rfl
  · exact .inl rfl

theorem semPost_cases (sem : Sem) (p : Procs) :
    (semPost sem p).2 = p ∨ (semPost sem p).2 = semDestroy sem p := by
  rw [semPost_snd]
  split
  · exact .inr rfl
  · exact .inl rfl

/-- **`sem_destroy`**, and with it `sem_post`: a slot that a semaphore refers to is made ready. -/
theorem SchedInv.semDestroy (h : SchedInv p) (hsem : 0 ≤ sem.sem_index) :
    SchedInv (OsLab.semDestroy sem p) := by
  rw [OsLab.semDestroy]
  obtain ⟨heq, -⟩ | ⟨i, hi, hlt, hi', heq⟩ := releaseSem_cases sem.sem_index p.pcb_table
  · rw [heq]
    exact h
  · have hslot := h.slots i hi hlt
    have hused : (p.pcb_table i).block_sem_index ≠ -1 := by omega
    have hslot' : SlotOk i { p.pcb_table i with
        block_sem_index := -1, status := Ready, time_count := 0 } :=
      ⟨fun _ => hslot.home (.inr hused), fun _ => ⟨Int.le_refl 0, (by decide : (0 : ℤ) ≤ 10)⟩,
        fun h0 => absurd (hslot.idle h0).2.2 hused, fun h99 => absurd (hslot.last h99).2 hused⟩
    rw [heq]
    refine ⟨h.nonneg, h.lt, h.slots.update hslot', fun j hj hjlt hrun => ?_, ?_⟩
    · rcases eq_or_ne j i with rfl | hne
      · simp only [Function.update_self] at hrun
        exact absurd hrun (by decide : Ready ≠ Running)
      · simp only [Function.update_of_ne hne] at hrun
        exact h.running j hj hjlt hrun
    · rw [Procs.cur]
      rcases eq_or_ne p.current i with hci | hne
      · simp only [hci, Function.update_self]
        decide
      · simp only [Function.update_of_ne hne]
        exact h.runs

/-- A new process in a free slot. -/
theorem SlotsOk.newProcess {t : ℤ → PCB} {c : ℤ} {q : PCB} (h : SlotsOk t)
    (hfree : (t c).status = -1)
    (hc : 0 ≤ c) (hlt : c < MAX_PCB) (hlast : c ≠ 99) (hindex : q.pcb_index = c)
    (hcount : q.time_count = 0) : SlotsOk (Function.update t c q) := by
  refine h.update ⟨fun _ => hindex, fun _ => ?_, fun h0 => ?_, fun h99 => absurd h99 hlast⟩
  · rw [hcount]
    decide
  · exact absurd hfree ((h c hc hlt).idle h0).1

/-- The state in which `process_fork` calls `schedule`, and in which `create_thread` returns: the
caller gets the fields `f` sets, and a free slot a new process. -/
theorem forkChild_eq (h : getPcb (forkCaller p).pcb_table = some c) :
    ∃ q, q.status = Ready ∧ q.pcb_index = c ∧ q.time_count = 0 ∧
      forkChild cr3 garbage p =
        ⟨Function.update (forkCaller p).pcb_table c q, p.current⟩ := by
  have hslot : forkSlot garbage p = c := by rw [forkSlot, getPcbOr, h]; rfl
  refine ⟨?child, ?status, ?index, ?count, ?eq⟩
  case eq =>
    simp only [forkChild, hslot, newProcess, Procs.modify, Function.update_self,
      Function.update_idem]
    rfl
  all_goals rfl

theorem createThread_eq (h : getPcb p.pcb_table = some c) :
    ∃ q, q.status = Ready ∧ q.pcb_index = c ∧ q.time_count = 0 ∧
      createThread cr3 garbage p = ⟨Function.update p.pcb_table c q, p.current⟩ := by
  have hslot : getPcbOr garbage p.pcb_table = c := by rw [getPcbOr, h]; rfl
  refine ⟨?thread, ?status, ?index, ?count, ?eq⟩
  case eq =>
    simp only [createThread, hslot, newProcess, Procs.modify]
    rfl
  all_goals rfl

/-- The first free slot is not the last slot when another slot is still free afterwards. -/
theorem getPcb_ne_last {t : ℤ → PCB} {q : PCB} (hc : getPcb t = some c) (hq : q.status ≠ -1)
    (hfree : ∃ i, 0 ≤ i ∧ i < MAX_PCB ∧ (Function.update t c q i).status = -1) : c ≠ 99 := by
  obtain ⟨hc0, -, -, hbefore⟩ := getPcb_eq_some hc
  obtain ⟨i, hi, hlt, hi'⟩ := hfree
  simp only [MAX_PCB] at hlt
  rintro rfl
  rcases eq_or_ne i 99 with rfl | hne
  · rw [Function.update_self] at hi'
    exact hq hi'
  · rw [Function.update_of_ne hne] at hi'
    exact hbefore i hi (by omega) hi'

/-- `schedule` frees no slot. -/
theorem schedule_free (hs : schedule p = some p') (hfree : SlotFree p') : SlotFree p := by
  obtain ⟨i, hi, hlt, hi'⟩ := hfree
  refine ⟨i, hi, hlt, ?_⟩
  obtain ⟨j, -, rfl⟩ | rfl := schedule_cases hs
  · simp only [Procs.modify] at hi'
    rcases eq_or_ne i j with rfl | hne
    · rw [Function.update_self] at hi'
      exact absurd hi' (by decide : Running ≠ -1)
    · rwa [Function.update_of_ne hne] at hi'
  · exact hi'

/-- **`fork`** -/
theorem SchedInv.fork (h : SchedInv p) (hcur : p.current ≠ 0)
    (hfree' : SlotFree (forkChild cr3 garbage p)) : Switching (forkChild cr3 garbage p) := by
  have hcaller : Switching (forkCaller p) :=
    h.switching (h.cur_slot hcur rfl h.cur_counted) rfl (show Ready ≠ Running by decide)
  obtain ⟨i, hi, hlt, hi'⟩ := h.slotFree
  have hne : i ≠ p.current := by
    rintro rfl
    exact h.runs.2 hi'
  have hi'' : ((forkCaller p).pcb_table i).status = -1 := by
    simp only [forkCaller, Procs.modify]
    rwa [Function.update_of_ne hne]
  obtain ⟨c, hc⟩ := exists_getPcb hi hlt hi''
  obtain ⟨q, hready, hindex, hcount, heq⟩ := @forkChild_eq p cr3 garbage c hc
  obtain ⟨hc0, hclt, hcfree, -⟩ := getPcb_eq_some hc
  rw [heq] at hfree' ⊢
  have hlast : c ≠ 99 := getPcb_ne_last hc (by rw [hready]; decide) hfree'
  have hcc : p.current ≠ c := by
    rintro rfl
    simp only [forkCaller, Procs.modify, Function.update_self] at hcfree
    exact absurd hcfree (by decide : Ready ≠ -1)
  refine ⟨h.nonneg, h.lt, hcaller.slots.newProcess hcfree hc0 hclt hlast hindex hcount,
    fun j hj hjlt => ?_, ?_⟩
  · rcases eq_or_ne j c with rfl | hjc
    · simp only [Function.update_self, hready]
      decide
    · simp only [Function.update_of_ne hjc]
      exact hcaller.running j hj hjlt
  · simp only [Procs.cur, Function.update_of_ne hcc]
    exact hcaller.home

/-- **`create_thread`** -/
theorem SchedInv.createThread (h : SchedInv p)
    (hfree' : SlotFree (OsLab.createThread cr3 garbage p)) :
    SchedInv (OsLab.createThread cr3 garbage p) := by
  obtain ⟨i, hi, hlt, hi'⟩ := h.slotFree
  obtain ⟨c, hc⟩ := exists_getPcb hi hlt hi'
  obtain ⟨q, hready, hindex, hcount, heq⟩ := @createThread_eq p cr3 garbage c hc
  obtain ⟨hc0, hclt, hcfree, -⟩ := getPcb_eq_some hc
  rw [heq] at hfree' ⊢
  have hlast : c ≠ 99 := getPcb_ne_last hc (by rw [hready]; decide) hfree'
  have hcc : p.current ≠ c := by
    rintro rfl
    exact h.runs.2 hcfree
  refine ⟨h.nonneg, h.lt, h.slots.newProcess hcfree hc0 hclt hlast hindex hcount,
    fun j hj hjlt hrun => ?_, ?_⟩
  · rcases eq_or_ne j c with rfl | hjc
    · simp only [Function.update_self, hready] at hrun
      exact absurd hrun (by decide)
    · simp only [Function.update_of_ne hjc] at hrun
      exact h.running j hj hjlt hrun
  · simp only [Procs.cur, Function.update_of_ne hcc]
    exact h.runs

end Calls

/-! ## All runs -/

/-- **One call.** -/
theorem SchedInv.step {p p' : Procs} {c : SchedCall} (h : SchedInv p)
    (hstep : SchedStep p c p') : SchedInv p' := by
  obtain ⟨hallowed, hexec, hfree'⟩ := hstep
  cases c with
  | timer => exact h.timer.2 p' hexec
  | sleep time => exact (h.sleep hallowed time).schedule hexec
  | fork cr3 garbage => exact (h.fork hallowed (schedule_free hexec hfree')).schedule hexec
  | createThread cr3 garbage =>
    obtain rfl := Option.some.inj hexec
    exact h.createThread hfree'
  | exit => exact (h.exit hallowed).schedule hexec
  | semWait sem =>
    obtain heq | heq := semWait_cases sem p <;> rw [SchedCall.exec, heq] at hexec
    · obtain rfl := Option.some.inj hexec
      exact h
    · exact (h.block hallowed.1 sem.sem_index).schedule hexec
  | semPost sem =>
    obtain rfl := Option.some.inj hexec
    obtain heq | heq := semPost_cases sem p <;> rw [heq]
    · exact h
    · exact h.semDestroy hallowed.2
  | semTrywait sem =>
    obtain rfl := Option.some.inj hexec
    exact h.modifyCur (h.cur_slot hallowed.1 rfl h.cur_counted) h.runs
  | semDestroy sem =>
    obtain rfl := Option.some.inj hexec
    exact h.semDestroy hallowed.2

section Boot

variable (kcr3 ucr3 : UInt32) (garbage : ℤ) (t : ℤ → PCB)

/-- A slot after `init_cond`. -/
theorem initCond_slot {i : ℤ} (hi : 0 ≤ i) (hlt : i < MAX_PCB) (h0 : i ≠ 0) (h1 : i ≠ 1) :
    (initCond kcr3 ucr3 garbage t).pcb_table i = (t i).init := by
  simp only [initCond_eq]
  rw [Function.update_of_ne h1, Function.update_of_ne h0, pcbInit_of_lt t hi hlt]

@[simp] theorem initCond_idle : (initCond kcr3 ucr3 garbage t).pcb_table 0 =
    { pcbNew 1 0 0 (t 0).init with cr3 := kcr3 } := by
  simp only [initCond_eq]
  rw [Function.update_of_ne (by decide), Function.update_self]

@[simp] theorem initCond_game : (initCond kcr3 ucr3 garbage t).pcb_table 1 =
    processReady { pcbNew 2 0 1 (t 1).init with cr3 := ucr3 } := by
  simp only [initCond_eq]
  rw [Function.update_self]

@[simp] theorem initCond_current : (initCond kcr3 ucr3 garbage t).current = 0 := by
  rw [initCond_eq]

theorem SlotOk.initCond {i : ℤ} (hi : 0 ≤ i) (hlt : i < MAX_PCB) :
    SlotOk i ((OsLab.initCond kcr3 ucr3 garbage t).pcb_table i) := by
  by_cases h0 : i = 0
  · subst h0
    rw [initCond_idle]
    exact ⟨fun _ => rfl, fun _ => ⟨Int.le_refl 0, (by decide : (0 : ℤ) ≤ 10)⟩,
      fun _ => ⟨(by decide : New ≠ -1), (by decide : New ≠ Blocked), rfl⟩, nofun⟩
  · by_cases h1 : i = 1
    · subst h1
      rw [initCond_game]
      exact ⟨fun _ => rfl, fun _ => ⟨Int.le_refl 0, (by decide : (0 : ℤ) ≤ 10)⟩, nofun, nofun⟩
    · rw [initCond_slot kcr3 ucr3 garbage t hi hlt h0 h1]
      exact ⟨fun h => absurd h (by rintro (h | h) <;> exact h rfl), fun h => absurd rfl h,
        fun h => absurd h h0, fun _ => ⟨rfl, rfl⟩⟩

theorem SchedInv.initCond : SchedInv (OsLab.initCond kcr3 ucr3 garbage t) := by
  refine ⟨?_, ?_, fun i hi hlt => SlotOk.initCond kcr3 ucr3 garbage t hi hlt,
    fun i hi hlt hrun => ?_, ?_⟩
  · rw [initCond_current]
  · rw [initCond_current]
    decide
  · by_cases h0 : i = 0
    · rw [h0, initCond_current]
    · by_cases h1 : i = 1
      · subst h1
        rw [initCond_game] at hrun
        exact absurd hrun (by decide : Ready ≠ Running)
      · rw [initCond_slot kcr3 ucr3 garbage t hi hlt h0 h1] at hrun
        exact absurd hrun (by decide : (-1 : ℤ) ≠ Running)
  · rw [Procs.cur, initCond_current, initCond_idle]
    exact ⟨(by decide : New ≠ Blocked), (by decide : New ≠ -1)⟩

end Boot

/-- **The scheduler's invariant.** It holds in every state that is reached from `init_cond` by timer
ticks and calls of the running process, as long as a slot is free after each. -/
theorem schedOk_run (kcr3 ucr3 : UInt32) (garbage : ℤ) (t : ℤ → PCB) (l : List SchedCall)
    (p : Procs)
    (hrun : Run SchedStep (initCond kcr3 ucr3 garbage t) l p) : SchedOk p := by
  have hinv : SchedInv p := Run.invariant (fun _ _ _ h hstep => h.step hstep) hrun
    (SchedInv.initCond kcr3 ucr3 garbage t)
  exact hinv.ok

/-- The timer may always tick. -/
theorem SchedInv.timers {p : Procs} (h : SchedInv p) (n : ℕ) :
    ∃ p', Run SchedStep p (List.replicate n .timer) p' := by
  induction n generalizing p with
  | zero => exact ⟨p, .nil p⟩
  | succ n ih =>
    obtain ⟨p', hp'⟩ := Option.ne_none_iff_exists'.mp h.timer.1
    have h' := h.timer.2 p' hp'
    obtain ⟨p'', hrun⟩ := ih h'
    exact ⟨p'', .cons ⟨trivial, hp', h'.slotFree⟩ hrun⟩

/-- The first eleven ticks, until the game runs. -/
theorem schedOk_run_timers :
    ∃ p, Run SchedStep (initCond 0 0 0 fun _ => freePcb) (List.replicate 11 .timer) p ∧
      SchedOk p := by
  obtain ⟨p, hrun⟩ := (SchedInv.initCond 0 0 0 fun _ => freePcb).timers 11
  exact ⟨p, hrun, schedOk_run 0 0 0 _ _ p hrun⟩

end OsLab

import OsLab.Process.Scheduler

/-!
# What a call does

Every call first changes the process table (`SchedCall.change`) and then, if it has the running
process give way, calls `schedule` (`SchedCall.exec_eq`). `schedule` changes one status, so that
what a call does to the other fields is said by its change.

A run ends where the kernel would go on with a value that nothing determines: where a process is to
be created and no slot is free, and where `schedule`, called from the last slot, finds memory behind
the table that looks like a PCB that is ready (`CallOk`). `CallInv` says what holds up to there:
every process knows its own slot, and the idle process is there and never waits.

## Main definitions

* `SchedCall.change` — what the call does to the process table before its `schedule`, if it has one
* `SchedCall.Switches` — the call ends with `schedule`
* `CallOk` — the source says what the call does
* `CallStep` — a call that is allowed and safe, and from which the kernel returns
* `CallInv` — the running process is one of the table, every process knows its own slot, also one
  that is gone while a semaphore still refers to it, and the idle process is there and waits for
  nothing
* `Procs.Used` — a process is in the slot, or a semaphore still refers to it, or it is the running
  process's

## Main results

* `SchedCall.exec_eq` — a call is its change, followed by `schedule` or not
* `CallInv.step` — the invariant
* `Procs.used_change` — a call puts no slot in use but that of a new process
-/

namespace OsLab

/-! ## Change and `schedule` -/

/-- What the call does to the process table before its `schedule`, if it has one. -/
def SchedCall.change (p : Procs) : SchedCall → Procs
  | .timer =>
    let p : Procs := { p with pcb_table := wakeup p.pcb_table }
    if p.cur.time_count = 10 then p.modify p.cur.pcb_index processReady
    else p.modify p.current fun q => { q with time_count := int32 (q.time_count + 1) }
  | .sleep time => p.modify p.current fun q => { q with status := Blocked, sleep_time := time }
  | .fork cr3 garbage => forkChild cr3 garbage p
  | .createThread cr3 garbage => OsLab.createThread cr3 garbage p
  | .exit => p.modify p.current fun q => { q with status := -1, pid := -1 }
  | .semWait sem => if sem.Blocks then blockOn sem.sem_index p else p
  | .semPost sem => if sem.Releases then OsLab.semDestroy sem p else p
  | .semTrywait sem => p.modify p.current fun q => { q with eax := (OsLab.semTrywait sem).2 }
  | .semDestroy sem => OsLab.semDestroy sem p

/-- The call ends with `schedule`. -/
def SchedCall.Switches (p : Procs) : SchedCall → Prop
  | .timer => p.cur.time_count = 10
  | .sleep _ | .fork _ _ | .exit => True
  | .semWait sem => sem.Blocks
  | _ => False

instance (p : Procs) : DecidablePred (SchedCall.Switches p)
  | .timer => inferInstanceAs (Decidable (p.cur.time_count = 10))
  | .sleep _ | .fork _ _ | .exit => inferInstanceAs (Decidable True)
  | .semWait sem => inferInstanceAs (Decidable sem.Blocks)
  | .createThread _ _ | .semPost _ | .semTrywait _ | .semDestroy _ =>
    inferInstanceAs (Decidable False)

section Exec

variable {p p' : Procs} {sem : Sem}

theorem time_count_wakeup (t : ℤ → PCB) (i : ℤ) : (wakeup t i).time_count = (t i).time_count := by
  rcases wakeup_cases t i with heq | ⟨-, heq⟩ <;> rw [heq]

/-- **A call is its change**, and `schedule` if it switches. -/
theorem SchedCall.exec_eq (c : SchedCall) (p : Procs) :
    c.exec p = if c.Switches p then schedule (c.change p) else some (c.change p) := by
  cases c with
  | timer =>
    have hcount : ({ p with pcb_table := wakeup p.pcb_table } : Procs).cur.time_count =
        p.cur.time_count := time_count_wakeup ..
    have hiff : Switches p .timer ↔ p.cur.time_count = 10 := Iff.rfl
    simp only [exec, timerTick, change, hcount, hiff]
    split <;> rfl
  | sleep time | fork cr3 garbage | exit =>
    rw [if_pos (by exact trivial)]
    rfl
  | semWait sem =>
    have hiff : Switches p (.semWait sem) ↔ sem.Blocks := Iff.rfl
    simp only [exec, change, semWait_snd, hiff]
    split <;> rfl
  | semPost sem =>
    rw [if_neg (by exact id)]
    exact congrArg some (semPost_snd sem p)
  | createThread cr3 garbage | semTrywait sem | semDestroy sem =>
    rw [if_neg (by exact id)]
    rfl

end Exec

/-! ## Runs -/

/-- `get_pcb` finds a slot, if the call asks for one. -/
def SchedCall.FindsSlot (p : Procs) : SchedCall → Prop
  | .fork _ _ => getPcb (forkCaller p).pcb_table ≠ none
  | .createThread _ _ => getPcb p.pcb_table ≠ none
  | _ => True

/-- **The source says what the call does.** -/
def CallOk (p : Procs) (c : SchedCall) : Prop :=
  c.FindsSlot p ∧ (c.Switches p → EndOfTable p)

/-- A call that is allowed and safe, and from which the kernel returns. -/
def CallStep (p : Procs) (c : SchedCall) (p' : Procs) : Prop :=
  c.Allowed p ∧ CallOk p c ∧ c.exec p = some p'

/-- The running process is one of the table, every process knows its own slot, also one that is gone
while a semaphore still refers to it, and the idle process is there and waits for nothing. -/
structure CallInv (p : Procs) : Prop where
  inTable : 0 ≤ p.current ∧ p.current < MAX_PCB
  home : ∀ i, 0 ≤ i → i < MAX_PCB →
    (p.pcb_table i).status ≠ -1 ∨ (p.pcb_table i).block_sem_index ≠ -1 ∨ i = p.current →
      (p.pcb_table i).pcb_index = i
  idle : (p.pcb_table 0).status ≠ -1 ∧ (p.pcb_table 0).status ≠ Blocked ∧
    (p.pcb_table 0).block_sem_index = -1

section Inv

variable {p p' : Procs} {c : SchedCall} {i : ℤ} {q : PCB} {f : PCB → PCB}

theorem CallInv.cur_home (h : CallInv p) : p.cur.pcb_index = p.current :=
  h.home _ h.inTable.1 h.inTable.2 (.inr (.inr rfl))

/-- One PCB changes. -/
theorem CallInv.modify (h : CallInv p)
    (hhome : (f (p.pcb_table i)).status ≠ -1 ∨ (f (p.pcb_table i)).block_sem_index ≠ -1 ∨
      i = p.current → (f (p.pcb_table i)).pcb_index = i)
    (hidle : i = 0 → (f (p.pcb_table 0)).status ≠ -1 ∧ (f (p.pcb_table 0)).status ≠ Blocked ∧
      (f (p.pcb_table 0)).block_sem_index = -1) : CallInv (p.modify i f) := by
  refine ⟨h.inTable, fun j hj hlt hlive => ?_, ?_⟩
  · rcases eq_or_ne j i with rfl | hne
    · rw [p.pcb_table_modify_self] at hlive ⊢
      exact hhome hlive
    · rw [p.pcb_table_modify_of_ne f hne] at hlive ⊢
      exact h.home j hj hlt hlive
  · rcases eq_or_ne 0 i with rfl | hne
    · rw [p.pcb_table_modify_self]
      exact hidle rfl
    · rw [p.pcb_table_modify_of_ne f hne]
      exact h.idle

/-- The running process changes, and it is not the idle process. -/
theorem CallInv.modifyCur (h : CallInv p) (hcur : p.current ≠ 0)
    (hindex : (f p.cur).pcb_index = p.cur.pcb_index) : CallInv (p.modify p.current f) :=
  h.modify (fun _ => hindex.trans h.cur_home) fun h0 => absurd h0 hcur

theorem CallInv.wakeup (h : CallInv p) :
    CallInv { p with pcb_table := OsLab.wakeup p.pcb_table } := by
  refine ⟨h.inTable, fun i hi hlt hlive => ?_, ?_⟩
  · simp only at hlive ⊢
    rcases wakeup_cases p.pcb_table i with heq | ⟨hblocked, heq⟩ <;> rw [heq] at hlive ⊢
    · exact h.home i hi hlt hlive
    · refine h.home i hi hlt (.inl ?_)
      rw [hblocked]
      decide
  · simp only
    rcases wakeup_cases p.pcb_table 0 with heq | ⟨hblocked, -⟩
    · rw [heq]
      exact h.idle
    · exact absurd hblocked h.idle.2.1

theorem CallInv.semDestroy {sem : Sem} (h : CallInv p) (hsem : 0 ≤ sem.sem_index) :
    CallInv (OsLab.semDestroy sem p) := by
  rw [OsLab.semDestroy]
  rcases releaseSem_cases sem.sem_index p.pcb_table with ⟨heq, -⟩ | ⟨i, hi, hlt, hi', heq⟩
  · rw [heq]
    exact h
  · have hne : (p.pcb_table i).block_sem_index ≠ -1 := by omega
    rw [heq]
    refine h.modify (f := fun q =>
      { q with block_sem_index := -1, status := Ready, time_count := 0 })
      (fun _ => h.home i hi hlt (.inr (.inl hne))) fun h0 => ?_
    rw [h0] at hne
    exact absurd h.idle.2.2 hne

/-- A process is created. -/
theorem CallInv.newProcess {pid c : ℤ} {cr3 : UInt32} (h : CallInv p) (hc : c ≠ 0) :
    CallInv (OsLab.newProcess pid c cr3 p) :=
  h.modify (fun _ => rfl) fun h0 => absurd h0 hc

/-- The slot that is found is not that of the idle process. -/
theorem CallInv.getPcb_ne (h : CallInv p) {c : ℤ} (hc : getPcb p.pcb_table = some c) : c ≠ 0 := by
  rintro rfl
  exact h.idle.1 (getPcb_eq_some hc).2.2.1

theorem CallInv.forkCaller (h : CallInv p) (hcur : p.current ≠ 0) : CallInv (OsLab.forkCaller p) :=
  h.modifyCur hcur rfl

/-- **What a call does before its `schedule`.** -/
theorem CallInv.change (h : CallInv p) (hallowed : c.Allowed p) (hfinds : c.FindsSlot p) :
    CallInv (c.change p) := by
  cases c with
  | timer =>
    have hw := h.wakeup
    rw [SchedCall.change]
    dsimp only
    split
    · rw [hw.cur_home]
      refine hw.modify (fun _ => hw.cur_home) fun h0 => ?_
      exact ⟨(by decide : Ready ≠ -1), (by decide : Ready ≠ Blocked), hw.idle.2.2⟩
    · exact hw.modify (fun _ => hw.cur_home) fun _ => hw.idle
  | sleep time | exit =>
    rw [SchedCall.change]
    exact h.modifyCur hallowed rfl
  | semTrywait sem =>
    rw [SchedCall.change]
    exact h.modifyCur hallowed.1 rfl
  | fork cr3 garbage =>
    have hf := h.forkCaller hallowed
    obtain ⟨c, hc⟩ := Option.ne_none_iff_exists'.mp hfinds
    have hslot : forkSlot garbage p = c := by rw [forkSlot, getPcbOr, hc]; rfl
    have hne : c ≠ 0 := hf.getPcb_ne hc
    show CallInv (forkChild cr3 garbage p)
    rw [forkChild, hslot]
    refine (hf.newProcess hne).modify (fun hlive => ?_) fun h0 => absurd h0 hne
    rw [OsLab.newProcess, Procs.pcb_table_modify_self]
    rfl
  | createThread cr3 garbage =>
    obtain ⟨c, hc⟩ := Option.ne_none_iff_exists'.mp hfinds
    show CallInv (OsLab.createThread cr3 garbage p)
    rw [OsLab.createThread, getPcbOr, hc]
    exact h.newProcess (h.getPcb_ne hc)
  | semWait sem =>
    show CallInv (if sem.Blocks then blockOn sem.sem_index p else p)
    split
    · refine h.modifyCur hallowed.1 ?_
      rfl
    · exact h
  | semPost sem =>
    show CallInv (if sem.Releases then OsLab.semDestroy sem p else p)
    split
    · exact h.semDestroy hallowed.2
    · exact h
  | semDestroy sem => exact h.semDestroy hallowed.2

/-- **`schedule`** -/
theorem CallInv.schedule (h : CallInv p) (hend : EndOfTable p) (hs : OsLab.schedule p = some p') :
    CallInv p' := by
  have hin : 0 ≤ p'.current ∧ p'.current < MAX_PCB := by
    have hcur := h.inTable
    exact schedule_inTable hs (h.cur_home ▸ hcur.1) (h.cur_home ▸ hcur.2)
      fun h99 => hend (h.cur_home.symm.trans h99)
  have hindex := schedule_frame (g := PCB.pcb_index) (fun q s => rfl) hs
  have hblock := schedule_frame (g := PCB.block_sem_index) (fun q s => rfl) hs
  have hlive : ∀ i, (p'.pcb_table i).status ≠ -1 → (p.pcb_table i).status ≠ -1 := fun i hi => by
    rcases schedule_status hs i with hsame | ⟨hready, -⟩
    · rwa [← hsame]
    · rw [hready]
      decide
  refine ⟨hin, fun i hi hlt hor => ?_, ?_⟩
  · rw [hindex]
    refine h.home i hi hlt ?_
    rw [hblock] at hor
    rcases hor with hi' | hi' | hi'
    · exact .inl (hlive i hi')
    · exact .inr (.inl hi')
    · rw [hi']
      rcases schedule_current hs with ⟨hready, -⟩ | ⟨h0, -⟩
      · refine .inl ?_
        rw [hready]
        decide
      · rw [h0]
        exact .inl h.idle.1
  · rw [hblock]
    obtain ⟨hlive0, hblocked, hnone⟩ := h.idle
    rcases schedule_status hs 0 with hsame | ⟨-, hrun⟩
    · rw [hsame]
      exact ⟨hlive0, hblocked, hnone⟩
    · rw [hrun]
      exact ⟨by decide, by decide, hnone⟩

/-- The change leaves the running process what it is, and what is behind the table. -/
theorem CallInv.change_frame (h : CallInv p) (hfinds : c.FindsSlot p) :
    (c.change p).current = p.current ∧ (c.change p).pcb_table 100 = p.pcb_table 100 := by
  have hcur : ∀ f, (p.modify p.current f).pcb_table 100 = p.pcb_table 100 := fun f =>
    p.pcb_table_modify_of_ne f (by have := h.inTable.2; simp only [MAX_PCB] at this; omega)
  have hslot : ∀ {p : Procs} {i : ℤ} (f : PCB → PCB), i < MAX_PCB →
      (p.modify i f).pcb_table 100 = p.pcb_table 100 := fun {p i} f hi =>
    p.pcb_table_modify_of_ne f (by simp only [MAX_PCB] at hi; omega)
  have hrelease : ∀ x, releaseSem x p.pcb_table 100 = p.pcb_table 100 := fun x => by
    rcases releaseSem_cases x p.pcb_table with ⟨heq, -⟩ | ⟨i, -, hlt, -, heq⟩ <;> rw [heq]
    simp only [MAX_PCB] at hlt
    exact Function.update_of_ne (by omega) ..
  cases c with
  | timer =>
    have hwake : OsLab.wakeup p.pcb_table 100 = p.pcb_table 100 := by
      rw [wakeup_apply, if_neg (by decide)]
    have hw := h.wakeup
    rw [SchedCall.change]
    dsimp only
    split
    · rw [hw.cur_home]
      exact ⟨rfl, (hslot _ h.inTable.2).trans hwake⟩
    · exact ⟨rfl, (hslot _ h.inTable.2).trans hwake⟩
  | sleep time | exit | semTrywait sem =>
    rw [SchedCall.change]
    exact ⟨rfl, hcur _⟩
  | fork cr3 garbage =>
    obtain ⟨c, hc⟩ := Option.ne_none_iff_exists'.mp hfinds
    have hfound : forkSlot garbage p = c := by rw [forkSlot, getPcbOr, hc]; rfl
    have hlt := (getPcb_eq_some hc).2.1
    refine ⟨rfl, ?_⟩
    show (forkChild cr3 garbage p).pcb_table 100 = _
    rw [forkChild, hfound]
    exact (hslot _ hlt).trans ((hslot _ hlt).trans (hcur _))
  | createThread cr3 garbage =>
    obtain ⟨c, hc⟩ := Option.ne_none_iff_exists'.mp hfinds
    refine ⟨rfl, ?_⟩
    show (createThread cr3 garbage p).pcb_table 100 = _
    rw [createThread, getPcbOr, hc]
    exact hslot _ (getPcb_eq_some hc).2.1
  | semWait sem =>
    rw [SchedCall.change]
    split
    · exact ⟨rfl, hcur _⟩
    · exact ⟨rfl, rfl⟩
  | semPost sem =>
    rw [SchedCall.change]
    split
    · exact ⟨rfl, hrelease _⟩
    · exact ⟨rfl, rfl⟩
  | semDestroy sem => exact ⟨rfl, hrelease _⟩

/-- **What a call does to another process**: `wakeup`, or `release_sem`, or nothing. -/
def SchedCall.onOther (p : Procs) (i : ℤ) : SchedCall → PCB
  | .timer => OsLab.wakeup p.pcb_table i
  | .semPost sem =>
    if sem.Releases then releaseSem sem.sem_index p.pcb_table i else p.pcb_table i
  | .semDestroy sem => releaseSem sem.sem_index p.pcb_table i
  | _ => p.pcb_table i

theorem CallInv.change_other (h : CallInv p) (hfinds : c.FindsSlot p) (hne : i ≠ p.current)
    (hlive : (p.pcb_table i).status ≠ -1) : (c.change p).pcb_table i = c.onOther p i := by
  have hcur : ∀ f, (p.modify p.current f).pcb_table i = p.pcb_table i := fun f =>
    p.pcb_table_modify_of_ne f hne
  cases c with
  | timer =>
    have hw := h.wakeup
    rw [SchedCall.change]
    dsimp only
    split
    · rw [hw.cur_home]
      exact Procs.pcb_table_modify_of_ne _ _ hne
    · exact Procs.pcb_table_modify_of_ne _ _ hne
  | sleep time | exit | semTrywait sem =>
    rw [SchedCall.change]
    exact hcur _
  | fork cr3 garbage =>
    obtain ⟨c, hc⟩ := Option.ne_none_iff_exists'.mp hfinds
    have hfound : forkSlot garbage p = c := by rw [forkSlot, getPcbOr, hc]; rfl
    have hfree := (getPcb_eq_some hc).2.2.1
    have hic : i ≠ c := by
      rintro rfl
      rw [OsLab.forkCaller, p.pcb_table_modify_of_ne _ hne] at hfree
      exact hlive hfree
    show (forkChild cr3 garbage p).pcb_table i = _
    rw [forkChild, hfound]
    exact (Procs.pcb_table_modify_of_ne _ _ hic).trans
      ((Procs.pcb_table_modify_of_ne _ _ hic).trans (hcur _))
  | createThread cr3 garbage =>
    obtain ⟨c, hc⟩ := Option.ne_none_iff_exists'.mp hfinds
    have hic : i ≠ c := by
      rintro rfl
      exact hlive (getPcb_eq_some hc).2.2.1
    show (createThread cr3 garbage p).pcb_table i = _
    rw [createThread, getPcbOr, hc]
    exact Procs.pcb_table_modify_of_ne _ _ hic
  | semWait sem =>
    rw [SchedCall.change]
    split
    · exact hcur _
    · rfl
  | semPost sem =>
    rw [SchedCall.change]
    show (if sem.Releases then OsLab.semDestroy sem p else p).pcb_table i = _
    rw [apply_ite Procs.pcb_table, apply_ite (fun t : ℤ → PCB => t i)]
    rfl
  | semDestroy sem => rfl

/-- **One call.** -/
theorem CallInv.step (h : CallInv p) (hstep : CallStep p c p') : CallInv p' := by
  obtain ⟨hallowed, ⟨hfinds, hend⟩, hexec⟩ := hstep
  have hchange := h.change hallowed hfinds
  obtain ⟨hcur, h100⟩ := h.change_frame hfinds
  rw [SchedCall.exec_eq] at hexec
  split at hexec
  · next hswitches =>
    refine hchange.schedule (fun h99 => ?_) hexec
    rw [h100]
    exact hend hswitches (hcur ▸ h99)
  · obtain rfl := Option.some.inj hexec
    exact hchange

theorem CallInv.initCond (kcr3 ucr3 : UInt32) (garbage : ℤ) (t : ℤ → PCB) :
    CallInv (OsLab.initCond kcr3 ucr3 garbage t) := by
  have hs := SchedInv.initCond kcr3 ucr3 garbage t
  refine ⟨hs.inTable, fun i hi hlt hor => ?_, (hs.slots 0 (Int.le_refl 0) (by decide)).idle rfl⟩
  rcases hor with hi' | hi' | rfl
  · exact (hs.slots i hi hlt).home (.inl hi')
  · exact (hs.slots i hi hlt).home (.inr hi')
  · exact hs.cur_home

/-- What the scheduler maintains says more. -/
theorem SchedInv.callInv (h : SchedInv p) : CallInv p := by
  refine ⟨h.inTable, fun i hi hlt hor => ?_, (h.slots 0 (Int.le_refl 0) (by decide)).idle rfl⟩
  rcases hor with hi' | hi' | rfl
  · exact (h.slots i hi hlt).home (.inl hi')
  · exact (h.slots i hi hlt).home (.inr hi')
  · exact h.cur_home

/-- Every call that asks for a slot finds one. -/
theorem SchedInv.findsSlot (h : SchedInv p) (c : SchedCall) : c.FindsSlot p := by
  obtain ⟨i, hi, hlt, hfree⟩ := h.slotFree
  cases c with
  | fork cr3 garbage =>
    have hne : i ≠ p.current := by
      rintro rfl
      exact h.runs.2 hfree
    obtain ⟨j, hj⟩ := exists_getPcb (t := (forkCaller p).pcb_table) hi hlt
      (by rw [forkCaller, p.pcb_table_modify_of_ne _ hne]; exact hfree)
    exact fun hnone => Option.some_ne_none j (hj.symm.trans hnone)
  | createThread cr3 garbage =>
    obtain ⟨j, hj⟩ := exists_getPcb hi hlt hfree
    exact fun hnone => Option.some_ne_none j (hj.symm.trans hnone)
  | timer | sleep _ | exit | semWait _ | semPost _ | semTrywait _ | semDestroy _ => trivial

end Inv

/-! ## Slots in use -/

/-- A process is in the slot, or a semaphore still refers to it, or it is the running process's. -/
def Procs.Used (p : Procs) (i : ℤ) : Prop :=
  (p.pcb_table i).status ≠ -1 ∨ (p.pcb_table i).block_sem_index ≠ -1 ∨ i = p.current

/-- The slot in which a call places a process. -/
def SchedCall.newSlot (p : Procs) : SchedCall → Option ℤ
  | .fork _ garbage => some (forkSlot garbage p)
  | .createThread _ garbage => some (getPcbOr garbage p.pcb_table)
  | _ => none

section Used

variable {p p' : Procs} {c : SchedCall} {i j : ℤ} {f : PCB → PCB}

/-- An assignment puts slots in use only at the place where it is made. -/
theorem Procs.used_modify (h : (p.modify j f).Used i) (hne : i ≠ j) : p.Used i := by
  rwa [Used, p.pcb_table_modify_of_ne f hne] at h

theorem Procs.used_modifyCur (h : (p.modify p.current f).Used i) : p.Used i := by
  rcases eq_or_ne i p.current with heq | hne
  · exact .inr (.inr heq)
  · exact used_modify h hne

theorem Procs.used_wakeup (h : ({ p with pcb_table := wakeup p.pcb_table } : Procs).Used i) :
    p.Used i := by
  simp only [Used] at h
  rcases wakeup_cases p.pcb_table i with heq | ⟨hblocked, -⟩
  · rwa [heq] at h
  · refine .inl ?_
    rw [hblocked]
    decide

theorem Procs.used_semDestroy {sem : Sem} (hsem : 0 ≤ sem.sem_index)
    (h : (semDestroy sem p).Used i) :
    p.Used i := by
  rw [semDestroy] at h
  rcases releaseSem_cases sem.sem_index p.pcb_table with ⟨heq, -⟩ | ⟨j, -, -, hj, heq⟩
  · rwa [heq] at h
  · rcases eq_or_ne i j with rfl | hne
    · refine .inr (.inl ?_)
      rw [hj]
      omega
    · rw [heq] at h
      exact used_modify
        (f := fun q => { q with block_sem_index := -1, status := Ready, time_count := 0 }) h hne

/-- **What a call puts in use** is the slot of a new process. -/
theorem Procs.used_change (hinv : CallInv p) (hallowed : c.Allowed p) (h : (c.change p).Used i) :
    p.Used i ∨ c.newSlot p = some i := by
  cases c with
  | timer =>
    rw [SchedCall.change] at h
    dsimp only at h
    split at h
    · rw [hinv.wakeup.cur_home] at h
      exact .inl (used_wakeup (used_modifyCur h))
    · exact .inl (used_wakeup (used_modifyCur h))
  | sleep time | exit | semTrywait sem =>
    rw [SchedCall.change] at h
    exact .inl (used_modifyCur h)
  | fork cr3 garbage =>
    rcases eq_or_ne (forkSlot garbage p) i with heq | hne
    · exact .inr (congrArg some heq)
    · rw [SchedCall.change, forkChild, newProcess, forkCaller] at h
      exact .inl (used_modifyCur (used_modify (used_modify h hne.symm) hne.symm))
  | createThread cr3 garbage =>
    rcases eq_or_ne (getPcbOr garbage p.pcb_table) i with heq | hne
    · exact .inr (congrArg some heq)
    · rw [SchedCall.change, createThread, newProcess] at h
      exact .inl (used_modify h hne.symm)
  | semWait sem =>
    rw [SchedCall.change] at h
    split at h
    · exact .inl (used_modifyCur h)
    · exact .inl h
  | semPost sem =>
    rw [SchedCall.change] at h
    split at h
    · exact .inl (used_semDestroy hallowed.2 h)
    · exact .inl h
  | semDestroy sem => exact .inl (used_semDestroy hallowed.2 h)

theorem Procs.used_current (p : Procs) : p.Used p.current := .inr (.inr rfl)

/-- `schedule` puts no slot in use. -/
theorem Procs.used_schedule (hinv : CallInv p) (hs : schedule p = some p') (h : p'.Used i) :
    p.Used i := by
  have hblock := schedule_frame (g := PCB.block_sem_index) (fun q s => rfl) hs i
  rcases h with hlive | hsem | rfl
  · rcases schedule_status hs i with heq | ⟨hready, -⟩
    · exact .inl (heq ▸ hlive)
    · refine .inl ?_
      rw [hready]
      decide
  · exact .inr (.inl (hblock ▸ hsem))
  · rcases schedule_current hs with ⟨hready, -⟩ | ⟨h0, -⟩
    · refine .inl ?_
      rw [hready]
      decide
    · rw [h0]
      exact .inl hinv.idle.1

end Used

end OsLab

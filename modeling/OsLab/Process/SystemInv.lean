import OsLab.Process.RoundRobin
import OsLab.Process.SpaceOwners

/-!
# Runs of the system

Beside the state stands who has made a thread (`Tracked`). `SystemInv` says what holds as long as no
process exits that is a thread or has made one, and no semaphore call readies a slot that is free
(`Proper`). Under these conditions the directory in `CR3` is always that of the running process:
`schedule` does not load the registers when it finds no process, but then it is the idle process
that has called it, since the idle process is ready whenever it does not run.

## Main definitions

* `Tracked` — the system, and the slots whose process has made a thread
* `TrackedStep` — an event that is allowed and ends, and who has made a thread after it
* `Proper` — what the calls have to respect
* `RegsInv` — the registers are those of the running process, and the idle process can always run
* `SystemInv` — the invariant of the system

## Main results

* `RegsInv.call` — the registers
* `SystemInv.step`, `SystemInv.run` — the invariant
-/

namespace OsLab

/-- The system, and the slots whose process has made a thread. -/
structure Tracked where
  sys : System
  creators : Finset ℤ

/-- The process table. -/
def Tracked.procs (s : Tracked) : Procs := s.sys.core.procs

/-- The creators after an event: a new process has made no thread yet. -/
def creatorsAfter (s : Tracked) : Event → Finset ℤ
  | .call (.fork garbage) => s.creators.erase (forkSlot garbage s.procs)
  | .call (.createThread garbage) =>
    insert s.procs.current (s.creators.erase (getPcbOr garbage s.procs.pcb_table))
  | _ => s.creators

/-- An event that is allowed and ends, and who has made a thread after it. -/
def TrackedStep (kstack : ℤ → UInt32) (s : Tracked) (e : Event) (s' : Tracked) : Prop :=
  e.Allowed s.procs ∧ e.exec kstack s.sys = some s'.sys ∧ s'.creators = creatorsAfter s e

/-- The system after a store. -/
def Tracked.stored (s : Tracked) (va : UInt32) (b : UInt8) : Tracked :=
  ⟨⟨⟨s.procs, userWrite s.sys.regs.cr3 va b s.sys.core.mem⟩, s.sys.regs⟩, s.creators⟩

theorem trackedStep_store_iff {kstack : ℤ → UInt32} {s s' : Tracked} {va : UInt32} {b : UInt8} :
    TrackedStep kstack s (.store va b) s' ↔
      (s.procs.current ≠ 0 ∧ va < KOFFSET) ∧ s' = s.stored va b := by
  refine and_congr_right fun _ => ⟨?_, ?_⟩
  · rintro ⟨hexec, hcreators⟩
    obtain ⟨sys', creators'⟩ := s'
    dsimp only at hexec hcreators
    obtain rfl := Option.some.inj hexec
    subst hcreators
    rfl
  · rintro rfl
    exact ⟨rfl, rfl⟩

/-- **What the calls have to respect.** A process that exits has made no thread, and its `pid` is of
the kind `Q`; a semaphore call readies a process that is there. -/
def Proper (Q : ℤ → Prop) (s : Tracked) : Event → Prop
  | .call .exit => Q s.procs.cur.pid ∧ s.procs.current ∉ s.creators
  | .call c => c.ReadiesLive s.procs
  | .store _ _ => True

/-- **The registers are those of the running process**, and the idle process can always run. -/
structure RegsInv (kstack : ℤ → UInt32) (s : System) : Prop where
  cr3 : s.regs.cr3 = s.core.procs.cur.cr3
  esp0 : s.core.procs.current ≠ 0 → s.regs.esp0 = kstack s.core.procs.current + 4096
  idle : s.core.procs.current ≠ 0 → (s.core.procs.pcb_table 0).status = Ready

/-- **The invariant of the system.** -/
structure SystemInv (kstack : ℤ → UInt32) (Q : ℤ → Prop) (R : Reserve) (s : Tracked) : Prop where
  sched : SchedInv s.procs
  spaces : SpacesInv Q R s.creators s.sys.core
  regs : RegsInv kstack s.sys

/-! ## The registers -/

section Regs

variable {kstack : ℤ → UInt32} {p : Procs} {s s' : System} {k : Core} {c : SystemCall} {i : ℤ}

/-- **The idle process when another calls.** -/
theorem SchedInv.change_idle (h : SchedInv p) {c : SchedCall} (hallowed : c.Allowed p)
    (hcur : p.current ≠ 0) : ((c.change p).pcb_table 0).status = (p.pcb_table 0).status := by
  obtain ⟨hlive, hblocked, hnone⟩ := h.callInv.idle
  rw [h.callInv.change_other (h.findsSlot c) hcur.symm hlive]
  have hrelease : ∀ x, 0 ≤ x → releaseSem x p.pcb_table 0 = p.pcb_table 0 := fun x hx => by
    rcases releaseSem_cases x p.pcb_table with ⟨heq, -⟩ | ⟨i, -, -, hi, heq⟩ <;> rw [heq]
    refine Function.update_of_ne (fun h0 => ?_) ..
    rw [← h0] at hi
    omega
  cases c with
  | timer =>
    rcases wakeup_cases p.pcb_table 0 with heq | ⟨hb, -⟩
    · exact congrArg PCB.status heq
    · exact absurd hb hblocked
  | semPost sem =>
    show (if sem.Releases then releaseSem sem.sem_index p.pcb_table 0 else p.pcb_table 0).status = _
    rw [hrelease _ hallowed.2, ite_self]
  | semDestroy sem => exact congrArg PCB.status (hrelease _ hallowed.2)
  | sleep _ | fork _ _ | createThread _ _ | exit | semWait _ | semTrywait _ => rfl

@[simp] theorem timer_cr3 (p : Procs) (i : ℤ) :
    ((SchedCall.timer.change p).pcb_table i).cr3 = (p.pcb_table i).cr3 := by
  have hwakeup : (wakeup p.pcb_table i).cr3 = (p.pcb_table i).cr3 := by
    rcases wakeup_cases p.pcb_table i with heq | ⟨-, heq⟩ <;> rw [heq]
  rw [SchedCall.change]
  dsimp only
  split <;> refine (Procs.modify_frame (g := PCB.cr3) ?_ i).trans hwakeup <;> exact fun _ => rfl

/-- A call gives no process another directory. -/
theorem SchedInv.change_cr3 (h : SchedInv p) (c : SchedCall) (hlive : (p.pcb_table i).status ≠ -1) :
    ((c.change p).pcb_table i).cr3 = (p.pcb_table i).cr3 := by
  have hmodify : ∀ (p : Procs) (j : ℤ) (f : PCB → PCB), (∀ q, (f q).cr3 = q.cr3) →
      ((p.modify j f).pcb_table i).cr3 = (p.pcb_table i).cr3 := fun p j f hf =>
    Procs.modify_frame (g := PCB.cr3) hf i
  have hrelease : ∀ x, (releaseSem x p.pcb_table i).cr3 = (p.pcb_table i).cr3 := fun x => by
    rcases releaseSem_cases x p.pcb_table with ⟨heq, -⟩ | ⟨j, -, -, -, heq⟩ <;> rw [heq]
    rcases eq_or_ne i j with rfl | hne
    · rw [Function.update_self]
    · rw [Function.update_of_ne hne]
  cases c with
  | timer => exact timer_cr3 p i
  | sleep _ | exit | semTrywait _ =>
    rw [SchedCall.change]
    exact hmodify _ _ _ fun _ => rfl
  | fork cr3 garbage =>
    have hnew := (h.forkChild_new garbage cr3).1
    refine (hnew.other i ?_).cr3
    rintro rfl
    exact hlive hnew.free
  | createThread cr3 garbage =>
    have hnew := (h.createThread_new garbage cr3).1
    refine (hnew.other i ?_).cr3
    rintro rfl
    exact hlive hnew.free
  | semWait sem =>
    show ((if sem.Blocks then blockOn sem.sem_index p else p).pcb_table i).cr3 = _
    split
    · exact hmodify _ _ _ fun _ => rfl
    · rfl
  | semPost sem =>
    show ((if sem.Releases then OsLab.semDestroy sem p else p).pcb_table i).cr3 = _
    split
    · exact hrelease _
    · rfl
  | semDestroy sem => exact hrelease _

/-- When the timer ends the idle process's turn, the idle process is ready. -/
theorem SchedInv.timer_idle (h : SchedInv p) (hcur : p.current = 0)
    (hswitches : SchedCall.timer.Switches p) :
    ((SchedCall.timer.change p).pcb_table 0).status = Ready := by
  have hcount : ({ p with pcb_table := OsLab.wakeup p.pcb_table } : Procs).cur.time_count =
      p.cur.time_count := time_count_wakeup ..
  rw [SchedCall.change, if_pos (hcount.trans hswitches), h.wakeup.cur_home]
  show ((Procs.modify _ p.current processReady).pcb_table 0).status = Ready
  rw [hcur, Procs.pcb_table_modify_self]
  rfl

/-- **One call.** Whatever the process table holds, `CR3` follows. -/
theorem RegsInv.call (h : RegsInv kstack s) (hs : SchedInv s.core.procs)
    (hallowed : (c.sched 0).Allowed s.core.procs) {l : List ℕ} (hl : FreeList s.core.mem l)
    (hexec : c.exec kstack s = some s') : RegsInv kstack s' := by
  obtain ⟨k, hk, hrest⟩ := SystemCall.exec_cases hexec
  obtain ⟨cr3, hprocs⟩ := SystemCall.change_sched hl hk
  have hallowed' := (c.allowed_sched _ cr3).mpr hallowed
  obtain ⟨hcurrent, -⟩ := hs.callInv.change_frame (hs.findsSlot (c.sched cr3))
  have hinv := hs.callInv.change hallowed' (hs.findsSlot (c.sched cr3))
  have hcur := hs.change_cr3 (c.sched cr3) hs.runs.2
  have hzero := hs.change_cr3 (c.sched cr3) hs.idle_live
  have hidle : s.core.procs.current ≠ 0 → (k.procs.pcb_table 0).status = Ready := fun hne => by
    rw [hprocs, hs.change_idle hallowed' hne]
    exact h.idle hne
  rw [← hprocs] at hcurrent hinv hcur hzero
  rcases hrest with ⟨hswitches, hsched⟩ | ⟨-, rfl⟩
  · have hready : (k.procs.pcb_table 0).status = Ready := by
      by_cases hne : s.core.procs.current = 0
      · -- only the timer interrupts the idle process
        have htimer : c.sched cr3 = .timer := by
          cases c with
          | timer => rfl
          | sleep _ | fork _ | createThread _ | exit => exact absurd hne hallowed
          | semWait _ | semPost _ | semTrywait _ | semDestroy _ => exact absurd hne hallowed.1
        have hswitches' := (c.switches_sched _ cr3).mpr hswitches
        rw [hprocs, htimer]
        rw [htimer] at hswitches'
        exact hs.timer_idle hne hswitches'
      · exact hidle hne
    have hhome := hinv.cur_home
    rw [hcurrent] at hhome
    obtain ⟨found, hloop, rfl⟩ := Option.map_eq_some_iff.mp hsched
    dsimp only at hloop
    rw [hhome, scheduleLoop_cyclic hs.nonneg hs.lt] at hloop
    cases found with
    | some i =>
      refine ⟨?_, fun _ => rfl, fun hi => ?_⟩
      · simp [Procs.cur, Procs.modify]
      · have hi0 : (0 : ℤ) ≠ i := fun heq => hi heq.symm
        have hkeep := Procs.pcb_table_modify_of_ne ({ k.procs with current := i } : Procs)
          (fun q => { q with status := Running }) hi0
        exact (congrArg PCB.status hkeep).trans hready
    | none =>
      -- no other process is ready, so it was the idle process that was interrupted
      have h0 : s.core.procs.current = 0 := by
        by_contra hne
        have hnonneg := hs.nonneg
        have hmem : (0 : ℤ) ∈ cyclicOrder s.core.procs.current := by
          rw [cyclicOrder, List.mem_append, mem_slotsFrom, mem_slotsFrom]
          omega
        have hnot := List.find?_eq_none.mp (Option.some.inj hloop) 0 hmem
        exact hnot (decide_eq_true hready)
      refine ⟨?_, fun hne => absurd rfl hne, fun hne => absurd rfl hne⟩
      show s.regs.cr3 = (k.procs.pcb_table 0).cr3
      rw [h.cr3, hzero, Procs.cur, h0]
  · refine ⟨?_, fun hne => ?_, fun hne => ?_⟩
    · show s.regs.cr3 = (k.procs.pcb_table k.procs.current).cr3
      rw [hcurrent, hcur]
      exact h.cr3
    · show s.regs.esp0 = kstack k.procs.current + 4096
      dsimp only at hne
      rw [hcurrent] at hne ⊢
      exact h.esp0 hne
    · dsimp only at hne
      rw [hcurrent] at hne
      exact hidle hne

end Regs

/-! ## The system -/

section Steps

variable {kstack : ℤ → UInt32} {Q : ℤ → Prop} {R : Reserve} {k : Core} {s s' : Tracked}
  {c : SystemCall} {e : Event}

/-- A proper call readies nobody who is gone. -/
theorem Proper.readiesLive (h : Proper Q s (.call c)) : c.ReadiesLive s.procs := by
  cases c with
  | semPost _ | semDestroy _ => exact h
  | timer | sleep _ | fork _ | createThread _ | exit | semWait _ | semTrywait _ => trivial

/-- **What a call does before its `schedule`.** -/
theorem SystemInv.change (hQ : ¬Q (-2)) (h : SystemInv kstack Q R s)
    (hallowed : (c.sched 0).Allowed s.procs) (hproper : Proper Q s (.call c))
    (hk : c.change s.sys.core = some k) : SpacesInv Q R (creatorsAfter s (.call c)) k := by
  have hready := hproper.readiesLive
  have hsame : (∀ garbage, c ≠ .fork garbage) → (∀ garbage, c ≠ .createThread garbage) →
      c ≠ .exit → SpacesInv Q R s.creators ⟨(c.sched 0).change s.procs, s.sys.core.mem⟩ :=
    fun hfork hthread hexit => h.spaces.same (.change h.sched hready hfork hthread hexit)
  cases c with
  | fork garbage => exact h.spaces.fork h.sched hallowed hk
  | createThread garbage => exact h.spaces.createThread h.sched hallowed hQ hk
  | exit =>
    obtain rfl := Option.some.inj hk
    exact h.spaces.exit h.sched hallowed hproper.1 hproper.2
  | timer | sleep _ | semWait _ | semPost _ | semTrywait _ | semDestroy _ =>
    obtain rfl := Option.some.inj hk
    refine hsame (fun _ => ?_) (fun _ => ?_) ?_ <;> exact SystemCall.noConfusion

/-- **A call.** -/
theorem SystemInv.call (hQ : ¬Q (-2)) (h : SystemInv kstack Q R s)
    (hproper : Proper Q s (.call c)) (hstep : TrackedStep kstack s (.call c) s') :
    SystemInv kstack Q R s' := by
  obtain ⟨hallowed, hexec, hcreators⟩ := hstep
  obtain ⟨k, hk, hmem, hsame⟩ := SystemCall.exec_same hexec
  have hspaces : SpacesInv Q R s'.creators s'.sys.core := by
    have hchange := (h.change hQ hallowed hproper hk).same hsame
    rw [hcreators]
    rwa [← hmem] at hchange
  obtain ⟨l, howned⟩ := h.spaces.owned
  obtain ⟨cr3, hprocs⟩ := SystemCall.exec_sched howned.free hexec
  exact ⟨h.sched.step ⟨(c.allowed_sched _ cr3).mpr hallowed, hprocs, hspaces.slotFree⟩, hspaces,
    h.regs.call h.sched hallowed howned.free hexec⟩

/-- The directory through which the running process stores is its own. -/
theorem SystemInv.loaded (h : SystemInv kstack Q R s) :
    PGNUM s.sys.regs.cr3 = s.procs.dir s.procs.current := congrArg PGNUM h.regs.cr3

/-- **A store.** -/
theorem SystemInv.store (h : SystemInv kstack Q R s) {va : UInt32} {b : UInt8}
    (hstep : TrackedStep kstack s (.store va b) s') : SystemInv kstack Q R s' := by
  obtain ⟨⟨hcur, hva⟩, rfl⟩ := trackedStep_store_iff.mp hstep
  obtain ⟨l, howned⟩ := h.spaces.owned
  have hmem := h.sched.current_mem hcur
  exact ⟨h.sched, ⟨h.spaces.idle, h.spaces.aligned, l, howned.store hmem h.loaded hva b⟩,
    ⟨h.regs.cr3, h.regs.esp0, h.regs.idle⟩⟩

/-- **A step** that respects the conditions. -/
theorem SystemInv.step (hQ : ¬Q (-2)) (h : SystemInv kstack Q R s) (hproper : Proper Q s e)
    (hstep : TrackedStep kstack s e s') : SystemInv kstack Q R s' := by
  cases e with
  | call c => exact h.call hQ hproper hstep
  | store va b => exact h.store hstep

/-- **Runs.** -/
theorem SystemInv.run (hQ : ¬Q (-2)) {events : List Event} (h : SystemInv kstack Q R s)
    (hrun : Run (Guarded (Proper Q) (TrackedStep kstack)) s events s') : SystemInv kstack Q R s' :=
  hrun.invariant (fun _ _ _ hinv hstep => hinv.step hQ hstep.1 hstep.2) h

end Steps

end OsLab

import OsLab.Process.Calls
import OsLab.Process.Fairness
import OsLab.Process.KernelStacks

/-!
# The processor

The processor with the kernel's stacks. What happens is that the program computes, or that a trap
takes it into the kernel, where `irq_handle` does what the frame asks for, and back out through the
frame in `current->tf`, which may be that of another program.

What the model leaves out is an interrupt in a call. The calls that turn interrupts on before they
return are done as if they did not; what becomes of the frames if an interrupt does come there is
the subject of the model of the traps. An exception prints a message and does not return.

## Main definitions

* `CpuEvent` — what happens to the running process
* `Processor` — the machine as the switch of processes sees it
* `Asks` — `irq_handle` is asked for this by the frame
* `Computes` — the program does something that changes none of the kernel's stacks
* `Traps` — a trap, as one step: no interrupt comes while it is handled, though the semaphore calls
  and `handle_keys` turn interrupts on before `%esp` is loaded
* `ProcessorStep` — the program computes, or the processor traps into the kernel and back
* `PCB.Stays` — the process is still there

## Main results

* `CallInv.stays` — nobody goes away but by its own exit
* `Processor.sched_spec` — the process table sees the calls of the scheduler's model, and the stack
  of the running process is the one that traps go to
-/

namespace OsLab

/-! ## The calls -/

/-- The number in `%eax` of the system call for the address of video memory. -/
def VMEMORY : UInt32 := 1
/-- The number for `getpid`. -/
def GETPID : UInt32 := 4
/-- The number for `fork`. -/
def FORK : UInt32 := 5
/-- The number for `sleep`. -/
def SLEEP : UInt32 := 6
/-- The number for `exit`. -/
def EXIT : UInt32 := 7
/-- The number for a new thread. -/
def THREAD : UInt32 := 8
/-- The number for `sem_init`. -/
def SEM_INIT : UInt32 := 9
/-- The number for `sem_wait`. -/
def SEM_WAIT : UInt32 := 10
/-- The number for `sem_post`. -/
def SEM_POST : UInt32 := 11
/-- The number for `sem_destroy`. -/
def SEM_DESTROY : UInt32 := 12
/-- The number for `sem_trywait`. -/
def SEM_TRYWAIT : UInt32 := 13
/-- The number for `close`. -/
def FILE_CLOSE : UInt32 := 18

/-- The calls that concern the process table, and their number. -/
def schedNumbers : List UInt32 :=
  [FORK, SLEEP, EXIT, THREAD, SEM_WAIT, SEM_POST, SEM_DESTROY, SEM_TRYWAIT]

/-- The registers ask for the call, if they have to. -/
def SchedCall.Called (eax ebx : UInt32) : SchedCall → Prop
  | .timer => True
  | .sleep time => eax = SLEEP ∧ time = int32 ebx.toNat
  | .fork _ _ => eax = FORK
  | .createThread _ _ => eax = THREAD
  | .exit => eax = EXIT
  | .semWait _ => eax = SEM_WAIT
  | .semPost _ => eax = SEM_POST
  | .semTrywait _ => eax = SEM_TRYWAIT
  | .semDestroy _ => eax = SEM_DESTROY

/-- Any other call leaves a result in `%eax`, or none. -/
def Answers (p : Procs) (eax : UInt32) (result : Option UInt32) : Prop :=
  eax ∉ schedNumbers ∧
    (result = none ↔ eax = VMEMORY ∨ eax = SEM_INIT ∨ FILE_CLOSE < eax) ∧
    (eax = GETPID → result = some (UInt32.ofInt p.cur.pid))

/-- What happens to the running process. -/
inductive CpuEvent
  /-- It goes on by itself, to these registers. -/
  | compute (c : Cpu)
  /-- The keyboard or the disk. -/
  | irq
  /-- The timer, and the calls that concern the process table. -/
  | sched (c : SchedCall)
  /-- Any other call. -/
  | other (result : Option UInt32)

/-- `CallOk` of the calls of the scheduler's model, and the idle process makes no calls. -/
def CpuEvent.Allowed (p : Procs) : CpuEvent → Prop
  | sched c => c.Allowed p ∧ CallOk p c
  | other _ => p.current ≠ 0
  | _ => True

/-- User code stays in user mode, and the idle process where it is. -/
def Cpu.Computes (c c' : Cpu) : Prop :=
  if c.User then c'.User else ¬c'.User ∧ c'.esp = c.esp ∧ c'.ss = c.ss

/-! ## The machine -/

/-- The machine as the switch of processes sees it. -/
structure Processor where
  procs : Procs
  /-- `tf` of each slot. -/
  tf : ℤ → UInt32
  /-- `esp0` of the TSS. -/
  esp0 : UInt32
  cpu : Cpu
  mem : LinearMemory

namespace Processor

variable (L : StackLayout) (s : Processor)

/-- A trap with the number `irq`, and `current->tf = tf`. -/
def enter (irq : UInt32) : Processor :=
  let f := s.cpu.trap s.esp0 irq 0 s.mem
  { s with mem := f.mem, tf := Function.update s.tf s.procs.current f.esp }

/-- `pcb_table[i].tf->eax = v` -/
def setEax (i : ℤ) (v : UInt32) : Processor := { s with mem := setField s.mem (s.tf i) .eax v }

/-- The frames in `process_fork`, which has found slot `c`. -/
def forkFrames (c : ℤ) : Processor :=
  let cur := s.procs.current
  let s := s.setEax cur (UInt32.ofInt s.procs.cur.pid)
  let s := { s with mem := (memcpy s.mem (L.kstack c) (L.kstack cur) 4096).2 }
  let s := { s with tf := Function.update s.tf c (L.newFrame c) }
  s.setEax c (-1)

/-- The frame in `create_thread`, which has found slot `c`. -/
def threadFrame (c : ℤ) : Processor :=
  let tf := s.tf s.procs.current
  -- `func_addr` is in `%ebx`, and the selectors are those of the caller
  let mem := startFrame s.mem (L.newFrame c) (frameAt s.mem tf .ebx) fun m => frameAt m tf
  { s with mem := mem, tf := Function.update s.tf c (L.newFrame c) }

/-- What the call does to the frames. -/
def frames : SchedCall → Processor
  | .fork _ garbage => s.forkFrames L (forkSlot garbage s.procs)
  | .createThread _ garbage => s.threadFrame L (getPcbOr garbage s.procs.pcb_table)
  | .semTrywait sem => s.setEax s.procs.current (UInt32.ofInt (OsLab.semTrywait sem).2)
  | _ => s

/-- `schedule`, which tells the processor where the stack of the process that it finds ends. -/
def schedule : Option Processor :=
  let p := s.procs
  (scheduleLoop p.pcb_table p.cur.pcb_index 102 (p.cur.pcb_index + 1)).map fun found =>
    match found with
    | some i => { s with
        procs := ({ p with current := i }).modify i fun q => { q with status := Running }
        esp0 := L.kstack i + 4096 }
    | none => { s with procs := { p with current := 0 } }

/-- A call of the scheduler's model. -/
def sched (c : SchedCall) : Option Processor :=
  let s' := { s.frames L c with procs := c.change s.procs }
  if c.Switches s.procs then s'.schedule L else some s'

/-- `irq_handle` is asked for this by the frame. -/
def Asks (f : TrapFrame) (p : Procs) : CpuEvent → Prop
  | .compute _ => False
  | .irq => f .irq = 1001 ∨ f .irq = 1014
  | .sched c => (f .irq = if c.isTimer then 1000 else 0x80) ∧ c.Called (f .eax) (f .ebx)
  | .other result => f .irq = 0x80 ∧ Answers p (f .eax) result

/-- `irq_handle` -/
def handle : CpuEvent → Option Processor
  | .sched c => s.sched L c
  | .other (some v) => some (s.setEax s.procs.current v)
  | _ => some s

/-- `asm_do_irq` loads `%esp` from `current->tf`. -/
def leave : Processor := { s with cpu := resume KERNEL_DATA s.mem (s.tf s.procs.current) }

/-- The program does something that changes none of the kernel's stacks. -/
def Computes (c : Cpu) (s' : Processor) : Prop :=
  s.cpu.Computes c ∧ ∃ m, (∀ i, 0 ≤ i → i < MAX_PCB → ∀ a, L.InStack i a → m a = s.mem a) ∧
    s' = { s with cpu := c, mem := m }

/-- A trap, as one step: **no interrupt comes while it is handled**, though the semaphore calls and
`handle_keys` turn interrupts on before `%esp` is loaded. The kernel uses the stack below the frame,
before and after it has done what it is asked for. -/
def Traps (e : CpuEvent) (s' : Processor) : Prop :=
  ∃ irq m₁ s₂ m₂, e.Allowed s.procs ∧
    Scribbled L s.procs.current ((s.enter irq).tf s.procs.current) (s.enter irq).mem m₁ ∧
    Asks (frameAt m₁ ((s.enter irq).tf s.procs.current)) s.procs e ∧
    handle L { s.enter irq with mem := m₁ } e = some s₂ ∧
    Scribbled L s.procs.current ((s.enter irq).tf s.procs.current) s₂.mem m₂ ∧
    s' = { s₂ with mem := m₂ }.leave

end Processor

/-- The program computes, or the processor traps into the kernel and back. -/
def ProcessorStep (L : StackLayout) (s : Processor) (e : CpuEvent) (s' : Processor) : Prop :=
  match e with
  | .compute c => s.Computes L c s'
  | e => s.Traps L e s'

/-! ## What a call does to the processes -/

/-- The process is still there. -/
structure PCB.Stays (q q' : PCB) : Prop where
  live : q'.status ≠ -1
  pid : q'.pid = q.pid

section Calls

variable {p p' : Procs} {c : SchedCall} {i : ℤ}

theorem PCB.Stays.refl {q : PCB} (h : q.status ≠ -1) : q.Stays q := ⟨h, rfl⟩

theorem PCB.Stays.releaseSem (h : (p.pcb_table i).status ≠ -1) (x : ℤ) :
    (p.pcb_table i).Stays (OsLab.releaseSem x p.pcb_table i) := by
  rcases releaseSem_cases x p.pcb_table with ⟨heq, -⟩ | ⟨j, -, -, -, heq⟩
  · rw [heq]
    exact .refl h
  · rw [heq]
    rcases eq_or_ne i j with rfl | hne
    · rw [Function.update_self]
      exact ⟨(by decide : Ready ≠ -1), rfl⟩
    · rw [Function.update_of_ne hne]
      exact .refl h

theorem PCB.Stays.wakeup (h : (p.pcb_table i).status ≠ -1) :
    (p.pcb_table i).Stays (OsLab.wakeup p.pcb_table i) := by
  rcases wakeup_cases p.pcb_table i with heq | ⟨-, heq⟩
  · rw [heq]
    exact .refl h
  · rw [heq]
    refine ⟨?_, rfl⟩
    dsimp only
    split <;> decide

theorem Procs.cur_modify {f : PCB → PCB} : (p.modify p.current f).pcb_table p.current = f p.cur :=
  Function.update_self ..

/-- A new process is in a free slot, which is not that of the idle process, nor its creator's. -/
theorem CallInv.newSlot (h : CallInv p) (hlive : p.cur.status ≠ -1) (hfinds : c.FindsSlot p)
    (hi : c.newSlot p = some i) :
    0 ≤ i ∧ i < MAX_PCB ∧ (p.pcb_table i).status = -1 ∧ i ≠ 0 ∧ i ≠ p.current := by
  have hfree : 0 ≤ i ∧ i < MAX_PCB ∧ (p.pcb_table i).status = -1 := by
    cases c with
    | fork cr3 garbage =>
      obtain ⟨j, hj⟩ := Option.ne_none_iff_exists'.mp hfinds
      have hfound : forkSlot garbage p = j := by rw [forkSlot, getPcbOr, hj]; rfl
      obtain rfl : j = i := hfound.symm.trans (Option.some.inj hi)
      obtain ⟨hj0, hjlt, hfree, -⟩ := getPcb_eq_some hj
      have hcur : j ≠ p.current := by
        rintro rfl
        rw [OsLab.forkCaller, p.pcb_table_modify_self] at hfree
        exact absurd hfree (by decide : Ready ≠ -1)
      rw [OsLab.forkCaller, p.pcb_table_modify_of_ne _ hcur] at hfree
      exact ⟨hj0, hjlt, hfree⟩
    | createThread cr3 garbage =>
      obtain ⟨j, hj⟩ := Option.ne_none_iff_exists'.mp hfinds
      have hfound : getPcbOr garbage p.pcb_table = j := by rw [getPcbOr, hj]; rfl
      obtain rfl : j = i := hfound.symm.trans (Option.some.inj hi)
      obtain ⟨hj0, hjlt, hfree, -⟩ := getPcb_eq_some hj
      exact ⟨hj0, hjlt, hfree⟩
    | timer | sleep _ | exit | semWait _ | semPost _ | semTrywait _ | semDestroy _ =>
      exact absurd hi.symm (Option.some_ne_none i)
  refine ⟨hfree.1, hfree.2.1, hfree.2.2, ?_, ?_⟩
  · rintro rfl
    exact h.idle.1 hfree.2.2
  · rintro rfl
    exact hlive hfree.2.2

/-- Nobody goes away in the call of another. -/
theorem CallInv.other_stays (h : CallInv p) (hfinds : c.FindsSlot p) (hne : i ≠ p.current)
    (hlive : (p.pcb_table i).status ≠ -1) :
    (p.pcb_table i).Stays ((c.change p).pcb_table i) := by
  rw [h.change_other hfinds hne hlive]
  cases c with
  | timer => exact .wakeup hlive
  | semPost sem =>
    rw [SchedCall.onOther]
    split
    · exact .releaseSem hlive _
    · exact .refl hlive
  | semDestroy sem => exact .releaseSem hlive _
  | sleep _ | fork _ _ | createThread _ _ | exit | semWait _ | semTrywait _ => exact .refl hlive

/-- Nobody goes away in its own call, unless it exits. -/
theorem CallInv.cur_stays (h : CallInv p) (hfinds : c.FindsSlot p) (hlive : p.cur.status ≠ -1)
    (hexit : c ≠ .exit) : p.cur.Stays ((c.change p).pcb_table p.current) := by
  cases c with
  | exit => exact absurd rfl hexit
  | timer =>
    have hawake : p.cur.Stays (OsLab.wakeup p.pcb_table p.current) := .wakeup hlive
    rw [SchedCall.change]
    dsimp only
    split
    · rw [h.wakeup.cur_home, Procs.cur_modify]
      exact ⟨(by decide : Ready ≠ -1), hawake.pid⟩
    · rw [Procs.cur_modify]
      exact ⟨hawake.live, hawake.pid⟩
  | sleep time =>
    rw [SchedCall.change, Procs.cur_modify]
    exact ⟨(by decide : Blocked ≠ -1), rfl⟩
  | semTrywait sem =>
    rw [SchedCall.change, Procs.cur_modify]
    exact ⟨hlive, rfl⟩
  | fork cr3 garbage =>
    have hne : p.current ≠ forkSlot garbage p := (h.newSlot hlive hfinds rfl).2.2.2.2.symm
    have hcur : (forkChild cr3 garbage p).pcb_table p.current =
        (OsLab.forkCaller p).pcb_table p.current := by
      rw [forkChild]
      exact (Procs.pcb_table_modify_of_ne _ _ hne).trans (Procs.pcb_table_modify_of_ne _ _ hne)
    rw [SchedCall.change, hcur, OsLab.forkCaller, Procs.cur_modify]
    exact ⟨(by decide : Ready ≠ -1), rfl⟩
  | createThread cr3 garbage =>
    have hne := (h.newSlot hlive hfinds rfl).2.2.2.2
    rw [SchedCall.change, OsLab.createThread, OsLab.newProcess,
      Procs.pcb_table_modify_of_ne _ _ (Ne.symm hne)]
    exact .refl hlive
  | semWait sem =>
    rw [SchedCall.change]
    split
    · rw [blockOn, Procs.cur_modify]
      exact ⟨(by decide : Blocked ≠ -1), rfl⟩
    · exact .refl hlive
  | semPost sem =>
    rw [SchedCall.change]
    split
    · exact .releaseSem hlive _
    · exact .refl hlive
  | semDestroy sem => exact .releaseSem hlive _

theorem PCB.Stays.schedule {q : PCB} (h : q.Stays (p.pcb_table i))
    (hs : OsLab.schedule p = some p') : q.Stays (p'.pcb_table i) := by
  refine ⟨?_, (schedule_frame (g := PCB.pid) (fun _ _ => rfl) hs i).trans h.pid⟩
  rcases schedule_status hs i with heq | ⟨-, hrunning⟩
  · rw [heq]
    exact h.live
  · rw [hrunning]
    decide

/-- **Nobody goes away but by its own exit.** -/
theorem CallInv.stays (h : CallInv p) (hstep : CallStep p c p')
    (hlive : (p.pcb_table i).status ≠ -1) (hexit : i = p.current → c ≠ .exit) :
    (p.pcb_table i).Stays (p'.pcb_table i) := by
  obtain ⟨-, ⟨hfinds, -⟩, hexec⟩ := hstep
  have hchange : (p.pcb_table i).Stays ((c.change p).pcb_table i) := by
    rcases eq_or_ne i p.current with rfl | hne
    · exact h.cur_stays hfinds hlive (hexit rfl)
    · exact h.other_stays hfinds hne hlive
  rw [SchedCall.exec_eq] at hexec
  split at hexec
  · exact hchange.schedule hexec
  · obtain rfl := Option.some.inj hexec
    exact hchange

/-- Whoever runs is a process, also after the call. -/
theorem CallInv.live_step (h : CallInv p) (hlive : p.cur.status ≠ -1) (hstep : CallStep p c p') :
    p'.cur.status ≠ -1 := by
  obtain ⟨hallowed, ⟨hfinds, -⟩, hexec⟩ := hstep
  rw [SchedCall.exec_eq] at hexec
  split at hexec
  · rcases schedule_current hexec with ⟨-, hrunning⟩ | ⟨h0, htable⟩
    · rw [hrunning]
      decide
    · rw [Procs.cur, htable, h0]
      exact (h.change hallowed hfinds).idle.1
  · next hstays =>
    obtain rfl := Option.some.inj hexec
    rw [Procs.cur, (h.change_frame hfinds).1]
    refine (h.cur_stays hfinds hlive ?_).live
    rintro rfl
    exact hstays trivial

/-- What is in use after a call. -/
theorem CallInv.used_step (h : CallInv p) (hstep : CallStep p c p') (hi : p'.Used i) :
    p.Used i ∨ c.newSlot p = some i := by
  obtain ⟨hallowed, ⟨hfinds, -⟩, hexec⟩ := hstep
  rw [SchedCall.exec_eq] at hexec
  split at hexec
  · exact Procs.used_change h hallowed (Procs.used_schedule (h.change hallowed hfinds) hexec hi)
  · obtain rfl := Option.some.inj hexec
    exact Procs.used_change h hallowed hi

end Calls

/-! ## What a call does to the processor -/

section Sched

variable {L : StackLayout} {s s' : Processor} {c : SchedCall}

theorem Processor.schedule_spec (h : s.schedule L = some s') :
    OsLab.schedule s.procs = some s'.procs ∧ s'.tf = s.tf ∧ s'.mem = s.mem ∧
      (s'.procs.current ≠ 0 → s'.esp0 = L.top s'.procs.current) := by
  rw [Processor.schedule] at h
  obtain ⟨found, hfound, rfl⟩ := Option.map_eq_some_iff.mp h
  rw [OsLab.schedule, hfound]
  cases found with
  | none => exact ⟨rfl, rfl, rfl, fun h0 => absurd rfl h0⟩
  | some i =>
    refine ⟨rfl, rfl, rfl, fun h0 => ?_⟩
    have h0' : i ≠ 0 := h0
    show L.kstack i + 4096 = L.top i
    rw [StackLayout.top, StackLayout.bottom, StackLayout.size, if_neg h0', if_neg h0']
    rfl

theorem Processor.sched_spec (h : s.sched L c = some s') (hcalls : CallInv s.procs)
    (hfinds : c.FindsSlot s.procs)
    (hesp0 : s.procs.current ≠ 0 → s.esp0 = L.top s.procs.current) :
    c.exec s.procs = some s'.procs ∧ s'.tf = (s.frames L c).tf ∧ s'.mem = (s.frames L c).mem ∧
      (s'.procs.current ≠ 0 → s'.esp0 = L.top s'.procs.current) := by
  have hframes : (s.frames L c).esp0 = s.esp0 := by
    cases c <;> rfl
  rw [SchedCall.exec_eq]
  rw [Processor.sched] at h
  split at h
  · next hswitches =>
    rw [if_pos hswitches]
    exact schedule_spec h
  · next hstays =>
    rw [if_neg hstays]
    obtain rfl := Option.some.inj h
    refine ⟨rfl, rfl, rfl, fun h0 => ?_⟩
    have hcur := (hcalls.change_frame hfinds).1
    change (c.change s.procs).current ≠ 0 at h0
    show (s.frames L c).esp0 = L.top (c.change s.procs).current
    rw [hcur] at h0 ⊢
    rw [hframes]
    exact hesp0 h0

end Sched

end OsLab

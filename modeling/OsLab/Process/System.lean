import OsLab.Memory.Creation
import OsLab.Memory.Ownership

/-!
# The system

The process table, memory and the two registers that `schedule` loads, in one state. A call is what
it does to the table and to memory (`SystemCall.change`), then `schedule`. Between calls the running
process stores to its memory, through the directory that is loaded, which need not be its own as far
as the code is concerned.

## Main definitions

* `System` — the kernel's tables and memory, and the registers of the processor
* `SystemCall` — what can happen: the timer, and calls of the running process
* `SystemCall.change` — what a call does before its `schedule`, `none` when `NULL` is dereferenced
* `Event` — what can happen next: the timer or a call, or the running process stores a byte

## Main results

* `SystemCall.exec_sched` — the process table sees the calls of the scheduler's model
* `System.schedule_cases` — what `schedule` does to memory and the registers
-/

namespace OsLab

/-! ## The code -/

/-- What `schedule` loads: `CR3`, and `esp0` of the TSS. -/
structure Regs where
  cr3 : UInt32
  esp0 : UInt32

/-- The kernel's tables and memory, and the registers of the processor. -/
structure System where
  core : Core
  regs : Regs

/-- `schedule`. The kernel stack of the process in slot `i` is at `kstack i`. -/
def System.schedule (kstack : ℤ → UInt32) (s : System) : Option System :=
  let p := s.core.procs
  (scheduleLoop p.pcb_table p.cur.pcb_index 102 (p.cur.pcb_index + 1)).map fun found =>
    match found with
    | some i =>
      { core := ⟨({ p with current := i }).modify i fun q => { q with status := Running },
          s.core.mem⟩
        regs := { esp0 := kstack i + 4096, cr3 := (p.pcb_table i).cr3 } }
    | none => { s with core := ⟨{ p with current := 0 }, s.core.mem⟩ }

/-- What can happen: the timer, and calls of the running process. -/
inductive SystemCall
  | timer
  | sleep (time : ℤ)
  | fork (garbage : ℤ)
  | createThread (garbage : ℤ)
  | exit
  | semWait (sem : Sem)
  | semPost (sem : Sem)
  | semTrywait (sem : Sem)
  | semDestroy (sem : Sem)

/-- What the scheduler sees of a call; `cr3` is the page directory of a new process. -/
def SystemCall.sched (cr3 : UInt32) : SystemCall → SchedCall
  | timer => .timer
  | sleep time => .sleep time
  | fork garbage => .fork cr3 garbage
  | createThread garbage => .createThread cr3 garbage
  | exit => .exit
  | semWait sem => .semWait sem
  | semPost sem => .semPost sem
  | semTrywait sem => .semTrywait sem
  | semDestroy sem => .semDestroy sem

/-- What a call does before its `schedule`, `none` when `NULL` is dereferenced. -/
def SystemCall.change (k : Core) : SystemCall → Option Core
  | fork garbage => forkCore garbage k
  | createThread garbage => createThreadCore garbage k
  | exit => some (release ⟨SchedCall.exit.change k.procs, k.mem⟩)
  | c => some ⟨(c.sched 0).change k.procs, k.mem⟩

/-- What a call does. Some calls end with `schedule`. -/
def SystemCall.exec (kstack : ℤ → UInt32) (s : System) (c : SystemCall) : Option System :=
  (c.change s.core).bind fun k =>
    if (c.sched 0).Switches s.core.procs then System.schedule kstack { s with core := k }
    else some { s with core := k }

/-- What can happen next: the timer or a call, or the running process stores a byte. -/
inductive Event
  | call (c : SystemCall)
  | store (va : UInt32) (b : UInt8)

/-- The idle process neither calls nor stores, and user code stores to user addresses. -/
def Event.Allowed (p : Procs) : Event → Prop
  | call c => (c.sched 0).Allowed p
  | store va _ => p.current ≠ 0 ∧ va < KOFFSET

/-- What an event does. -/
def Event.exec (kstack : ℤ → UInt32) (s : System) : Event → Option System
  | call c => c.exec kstack s
  | store va b => some { s with core := ⟨s.core.procs, userWrite s.regs.cr3 va b s.core.mem⟩ }

/-- `init_cond`: `init_mm`, the idle process, then `loader`. `esp0` is what the TSS held. -/
def bootSystem (P : KernelPages) (stack : Mem) (d : Disk) (garbage : ℤ) (esp0 : UInt32)
    (t : ℤ → PCB) (m : Memory) : Option System :=
  let t := pcbInit t
  let idle := getPcbOr garbage t
  let kcr3 := cr3Val (page2pa P.kpdir >>> 12)
  let t := Function.update t idle { pcbNew 1 0 idle (t idle) with cr3 := kcr3 }
  (loader P stack d 2 garbage ⟨⟨t, idle⟩, initMm P m⟩).map fun k => ⟨k, ⟨kcr3, esp0⟩⟩

/-! ### What the process table sees -/

section Code

variable {kstack : ℤ → UInt32} {s s' : System} {k k' : Core} {c : SystemCall} {p' : Procs}
  {l : List ℕ} {m : Memory} {cr3 : UInt32}

theorem System.schedule_eq (kstack : ℤ → UInt32) (s : System) :
    (s.schedule kstack).map (fun s' => s'.core.procs) = OsLab.schedule s.core.procs := by
  rw [System.schedule, OsLab.schedule, Option.map_map]
  refine congrFun (congrArg _ (funext fun found => ?_)) _
  cases found <;> rfl

theorem System.schedule_some (h : s.schedule kstack = some s') :
    OsLab.schedule s.core.procs = some s'.core.procs := by
  rw [← System.schedule_eq kstack, h]
  rfl

/-- It leaves memory alone, and loads the registers of the process that it finds. -/
theorem System.schedule_cases (h : s.schedule kstack = some s') :
    s'.core.mem = s.core.mem ∧
      (s'.regs = ⟨s'.core.procs.cur.cr3, kstack s'.core.procs.current + 4096⟩ ∨
        s'.core.procs.current = 0 ∧ s'.regs = s.regs) := by
  rw [System.schedule] at h
  obtain ⟨found, -, rfl⟩ := Option.map_eq_some_iff.mp h
  cases found with
  | none => exact ⟨rfl, .inr ⟨rfl, rfl⟩⟩
  | some i =>
    refine ⟨rfl, .inl ?_⟩
    simp [Procs.cur, Procs.modify]

/-- Whether a call ends with `schedule` is the same for each directory. -/
theorem SystemCall.switches_sched (c : SystemCall) (p : Procs) (cr3 : UInt32) :
    (c.sched cr3).Switches p ↔ (c.sched 0).Switches p := by
  cases c <;> exact Iff.rfl

theorem SystemCall.allowed_sched (c : SystemCall) (p : Procs) (cr3 : UInt32) :
    (c.sched cr3).Allowed p ↔ (c.sched 0).Allowed p := by
  cases c <;> exact Iff.rfl

/-- What the table sees of a change. -/
theorem SystemCall.change_sched (hl : FreeList k.mem l) (h : c.change k = some k') :
    ∃ cr3, k'.procs = (c.sched cr3).change k.procs := by
  cases c with
  | fork garbage =>
    obtain ⟨d, rest, l', -, -, -, hprocs⟩ := forkCore_eq_some hl h
    exact ⟨page2pa d, hprocs⟩
  | createThread garbage =>
    rcases createThreadCore_cases hl garbage with ⟨d, k₁, hk₁, -, -, -, -, hprocs⟩ | ⟨hnone, -⟩
    · obtain rfl : k₁ = k' := Option.some.inj (hk₁.symm.trans h)
      exact ⟨page2pa d, hprocs⟩
    · exact absurd (hnone.symm.trans h).symm (Option.some_ne_none k')
  | exit =>
    obtain rfl := Option.some.inj h
    exact ⟨0, rfl⟩
  | timer | sleep _ | semWait _ | semPost _ | semTrywait _ | semDestroy _ =>
    obtain rfl := Option.some.inj h
    exact ⟨0, rfl⟩

/-- What a call amounts to. -/
theorem SystemCall.exec_cases (h : c.exec kstack s = some s') :
    ∃ k, c.change s.core = some k ∧
      ((c.sched 0).Switches s.core.procs ∧ System.schedule kstack { s with core := k } = some s' ∨
        ¬(c.sched 0).Switches s.core.procs ∧ s' = { s with core := k }) := by
  obtain ⟨k, hk, hrest⟩ := Option.bind_eq_some_iff.mp h
  refine ⟨k, hk, ?_⟩
  split at hrest
  · next hswitches => exact .inl ⟨hswitches, hrest⟩
  · next hstays => exact .inr ⟨hstays, (Option.some.inj hrest).symm⟩

/-- **The scheduler's model is part of this one.** -/
theorem SystemCall.exec_sched (hl : FreeList s.core.mem l) (h : c.exec kstack s = some s') :
    ∃ cr3, (c.sched cr3).exec s.core.procs = some s'.core.procs := by
  obtain ⟨k, hk, hrest⟩ := SystemCall.exec_cases h
  obtain ⟨cr3, hprocs⟩ := SystemCall.change_sched hl hk
  refine ⟨cr3, ?_⟩
  rw [SchedCall.exec_eq, ← hprocs]
  rcases hrest with ⟨hswitches, hsched⟩ | ⟨hstays, rfl⟩
  · rw [if_pos ((c.switches_sched _ cr3).mpr hswitches)]
    exact System.schedule_some hsched
  · rw [if_neg fun hswitches => hstays ((c.switches_sched _ cr3).mp hswitches)]

/-- What `init_cond` leaves. -/
theorem bootSystem_some {P : KernelPages} {stack : Mem} {d : Disk} {garbage : ℤ} {esp0 : UInt32}
    {t : ℤ → PCB} (h : bootSystem P stack d garbage esp0 t m = some s) :
    loadMemory P stack d (initMm P m) = some s.core.mem ∧
      s.core.procs = initCond (page2pa P.kpdir) (page2pa P.updir) garbage t ∧
      s.regs = ⟨page2pa P.kpdir, esp0⟩ := by
  have hu := P.updir_le
  have hk := P.kpdir_le
  rw [bootSystem] at h
  obtain ⟨k, hload, rfl⟩ := Option.map_eq_some_iff.mp h
  obtain ⟨m', hm', rfl⟩ := Option.map_eq_some_iff.mp hload
  rw [cr3Val_page2pa (by omega), cr3Val_page2pa (by omega)]
  exact ⟨hm', rfl, rfl⟩

theorem bootSystem_eq {P : KernelPages} {stack : Mem} {d : Disk} {garbage : ℤ} {esp0 : UInt32}
    {t : ℤ → PCB} {m' : Memory} (h : loadMemory P stack d (initMm P m) = some m') :
    bootSystem P stack d garbage esp0 t m =
      some ⟨⟨initCond (page2pa P.kpdir) (page2pa P.updir) garbage t, m'⟩,
        ⟨page2pa P.kpdir, esp0⟩⟩ := by
  have hu := P.updir_le
  have hk := P.kpdir_le
  rw [bootSystem]
  dsimp only
  rw [loader, h, cr3Val_page2pa (by omega), cr3Val_page2pa (by omega), Option.map_some,
    Option.map_some]
  rfl

end Code

end OsLab

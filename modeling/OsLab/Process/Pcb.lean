import OsLab.Lib.CInt

/-!
# Process control blocks

The process table of `pcb.c`. A C array is a function on `ℤ`: entries inside its bounds are the
array, entries outside are the memory on either side of it, which the kernel reads and writes when
it is given a bad index. In particular `schedule`, run from slot 99, probes `pcb_table[100]`.

The loop of `schedule` is given fuel and yields `none` when the fuel runs out; `schedule_ends` of
the next module shows that it never does when the running process knows its own slot.

## Main definitions

* `PCB` — a PCB
* `Procs` — the process table and the slot `current` points to
* `getPcb` — the slot `getPcb` finds, `none` where it finds none and returns an uninitialised local
* `releaseSem` — `releaseSem`: the first PCB blocked on the semaphore is made ready

The kernel stack and the trap frame, which are in the PCB too, are not in this model. They are the
subject of the modules on trap frames and on kernel stacks.
-/

namespace OsLab

/-- The number of PCBs. -/
def MAX_PCB : ℤ := 100
/-- The number of descriptors of a process, and of FCBs of the system. -/
def NR_FILE : ℤ := 32

/-! ## Process states -/

/-- A process that has not run. -/
def New : ℤ := 0
/-- A process that `schedule` can take. -/
def Ready : ℤ := 1
/-- The process that runs. -/
def Running : ℤ := 2
/-- A process that sleeps or waits for a semaphore. -/
def Blocked : ℤ := 3
/-- What `sleep_time` of a new process is set to. -/
def Sleeptime : ℤ := 5

/-- A PCB. `eax` is the result register in the frame that `tf` points to. -/
structure PCB where
  eax : ℤ
  /-- The descriptors, `fcb[0]` to `fcb[31]`. -/
  fcb : ℤ → ℤ
  pid : ℤ
  ppid : ℤ
  status : ℤ
  time_count : ℤ
  sleep_time : ℤ
  cr3 : UInt32
  pcb_index : ℤ
  block_sem_index : ℤ

/-- `p.fcb[fd]` for any `fd`: the words behind the array are the fields that follow it. -/
def PCB.fcbAt (p : PCB) (fd : ℤ) : ℤ :=
  if fd = 32 then p.pid
  else if fd = 33 then p.ppid
  else if fd = 34 then p.status
  else if fd = 35 then p.time_count
  else if fd = 36 then p.sleep_time
  else if fd = 37 then int32 p.cr3.toNat
  else if fd = 38 then p.pcb_index
  else if fd = 39 then p.block_sem_index
  else p.fcb fd

/-- `p.fcb[fd] = v` for any `fd`. -/
def PCB.setFcbAt (p : PCB) (fd v : ℤ) : PCB :=
  if fd = 32 then { p with pid := v }
  else if fd = 33 then { p with ppid := v }
  else if fd = 34 then { p with status := v }
  else if fd = 35 then { p with time_count := v }
  else if fd = 36 then { p with sleep_time := v }
  else if fd = 37 then { p with cr3 := UInt32.ofNat (uint32 v) }
  else if fd = 38 then { p with pcb_index := v }
  else if fd = 39 then { p with block_sem_index := v }
  else { p with fcb := Function.update p.fcb fd v }

theorem PCB.fcbAt_of_lt {p : PCB} {fd : ℤ} (h : fd < NR_FILE) : p.fcbAt fd = p.fcb fd := by
  simp only [NR_FILE] at h
  simp only [PCB.fcbAt]
  repeat rw [if_neg (by omega)]

theorem PCB.setFcbAt_of_lt {p : PCB} {fd v : ℤ} (h : fd < NR_FILE) :
    p.setFcbAt fd v = { p with fcb := Function.update p.fcb fd v } := by
  simp only [NR_FILE] at h
  simp only [PCB.setFcbAt]
  repeat rw [if_neg (by omega)]

/-- The process table and the slot `current` points to. -/
structure Procs where
  pcb_table : ℤ → PCB
  current : ℤ

/-- `*current`. -/
def Procs.cur (p : Procs) : PCB := p.pcb_table p.current

/-- An assignment to fields of `pcb_table[i]`. -/
def Procs.modify (p : Procs) (i : ℤ) (f : PCB → PCB) : Procs :=
  { p with pcb_table := Function.update p.pcb_table i (f (p.pcb_table i)) }

@[simp] theorem Procs.pcb_table_modify_self (p : Procs) (i : ℤ) (f : PCB → PCB) :
    (p.modify i f).pcb_table i = f (p.pcb_table i) :=
  Function.update_self ..

@[simp] theorem Procs.pcb_table_modify_of_ne (p : Procs) {i j : ℤ} (f : PCB → PCB) (h : j ≠ i) :
    (p.modify i f).pcb_table j = p.pcb_table j :=
  Function.update_of_ne h ..

/-! ## The functions of `pcb.c` -/

/-- The fields that `pcb_init` sets. -/
def PCB.init (p : PCB) : PCB :=
  { p with
    status := -1
    pid := -1
    block_sem_index := -1
    fcb := fun fd => if 0 ≤ fd ∧ fd < NR_FILE then -1 else p.fcb fd }

/-- `pcb_init` -/
def pcbInit (t : ℤ → PCB) : ℤ → PCB :=
  forRange 0 MAX_PCB (fun i t => Function.update t i (t i).init) t

theorem pcbInit_of_lt (t : ℤ → PCB) {i : ℤ} (hi : 0 ≤ i) (hlt : i < MAX_PCB) :
    pcbInit t i = (t i).init := by
  rw [pcbInit, forRange_update _ _ (by decide), if_pos ⟨hi, hlt⟩]

/-- The slot `getPcb` finds, `none` where it finds none and returns an uninitialised local. -/
def getPcb (t : ℤ → PCB) : Option ℤ :=
  findSlot 100 fun i => (t i).status = -1

/-- The fields that `pcbNew` sets. -/
def pcbNew (pid ppid pcb_index : ℤ) (p : PCB) : PCB :=
  { p with
    pid := pid
    ppid := ppid
    status := New
    time_count := 0
    sleep_time := Sleeptime
    pcb_index := pcb_index }

/-- The fields that `processReady` sets. -/
def processReady (p : PCB) : PCB := { p with status := Ready, time_count := 0 }

/-- The loop of `schedule`: the ready slot it stops at, or the end of the loop. -/
def scheduleLoop (t : ℤ → PCB) (home : ℤ) : ℕ → ℤ → Option (Option ℤ)
  | 0, _ => none
  | fuel + 1, i =>
    if i.tmod MAX_PCB ≠ home then
      if (t i).status = Ready then some (some i)
      else scheduleLoop t home fuel ((i + 1).tmod MAX_PCB)
    else some none

/-- `schedule`. The loop comes back to a slot it has seen after at most 101 rounds. -/
def schedule (p : Procs) : Option Procs :=
  (scheduleLoop p.pcb_table p.cur.pcb_index 102 (p.cur.pcb_index + 1)).map fun found =>
    match found with
    | some i => ({ p with current := i }).modify i fun q => { q with status := Running }
    | none => { p with current := 0 }

/-- One PCB's turn in `wakeup`. -/
def wakeupPcb (q : PCB) : PCB :=
  if q.status = Blocked then
    let sleep_time := int32 (q.sleep_time - 1)
    { q with sleep_time := sleep_time, status := if sleep_time = 0 then Ready else q.status }
  else q

/-- `wakeup` -/
def wakeup (t : ℤ → PCB) : ℤ → PCB :=
  forRange 0 MAX_PCB (fun i t => Function.update t i (wakeupPcb (t i))) t

/-- `process_sleep` -/
def processSleep (time : ℤ) (p : Procs) : Option Procs :=
  schedule (p.modify p.current fun q => { q with status := Blocked, sleep_time := time })

/-- `releaseSem`: the first PCB blocked on the semaphore is made ready. -/
def releaseSem (sem_index : ℤ) (t : ℤ → PCB) : ℤ → PCB :=
  match findSlot 100 fun i => (t i).block_sem_index = sem_index with
  | some i => Function.update t i
      { t i with block_sem_index := -1, status := Ready, time_count := 0 }
  | none => t

end OsLab

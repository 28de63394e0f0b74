import OsLab.FileSystem.OpenClose
import OsLab.Process.Boot
import OsLab.Process.WaitTable

/-!
# What a process finds in its slot

`process_exit` sets `status` and `pid`. What the process leaves besides these stays in the slot: its
descriptors, which `process_fork` overwrites and `create_thread` does not, and `block_sem_index`,
which neither of them sets and which `wakeup` leaves alone when it makes a process ready that waits
for a semaphore.

The state of the system is extended by what the last occupant of each slot left when it exited
(`ReuseState.left`). `Leftover` says that nobody touches the slot until it is given away, so what a
new process finds is what `left` says.

## Main definitions

* `ReuseState` — the kernel, and the PCB of the last occupant of each slot as it was when it exited
* `ReuseCall` — the calls of the running process, and the timer
* `ReuseStep` — a call that is allowed and from which the kernel returns
* `ReuseCall.LeftClean` — the last occupant of the slot of the new process, if there was one, was
  not waiting for a semaphore by its `block_sem_index`, and for a thread it left no descriptors but
  those the creator has now
* `StartsClean` — a process that starts clean
* `Leftover` — nobody touches a free slot

## What is left behind

A slot is looked at when it is given away. If its last occupant has exited, what counts is the PCB
at that time, which `left` remembers; a slot that nobody has had yet is as `pcb_init` has left it.
That nothing comes in between is what `Leftover` is for, and all calls keep it, each for its own
reason: they change the running process's PCB only, or only PCBs that are in use.

## Main results

* `newborn_clean_iff` — a new process starts with nothing of the last occupant's, exactly if that
  one left nothing
-/

namespace OsLab

/-! ## The system and its calls -/

/-- The kernel, and the PCB of the last occupant of each slot as it was when it exited. -/
structure ReuseState where
  kernel : Kernel
  left : ℤ → Option PCB

/-- The calls of the running process, and the timer. -/
inductive ReuseCall
  | sched (c : SchedCall)
  | openFile (name : List UInt8) (mode : ℤ)
  | close (fd : ℤ)

/-- The slots' last occupants after a call. -/
def leftAfter (c : SchedCall) (s : ReuseState) : ℤ → Option PCB :=
  match c with
  | .exit => Function.update s.left s.kernel.procs.current (some s.kernel.procs.cur)
  | _ => s.left

/-- What a call does. What a process has when it exits is recorded. -/
def ReuseCall.exec (s : ReuseState) : ReuseCall → Option ReuseState
  | .sched c => (c.exec s.kernel.procs).map fun procs =>
    ⟨{ s.kernel with procs := procs }, leftAfter c s⟩
  | .openFile name mode => some { s with kernel := OsLab.openFile name mode s.kernel }
  | .close fd => some { s with kernel := closeFile fd s.kernel }

/-- The idle process makes no calls. -/
def ReuseCall.Allowed (s : ReuseState) : ReuseCall → Prop
  | .sched .timer => True
  | .close fd => s.kernel.procs.current ≠ 0 ∧ 0 ≤ fd ∧ fd < NR_FILE
  | _ => s.kernel.procs.current ≠ 0

/-- A call that is allowed and from which the kernel returns. -/
def ReuseStep (s : ReuseState) (c : ReuseCall) (s' : ReuseState) : Prop :=
  c.Allowed s ∧ c.exec s = some s'

/-- The slot a call places a process in. -/
def ReuseCall.newSlot (s : ReuseState) : ReuseCall → Option ℤ
  | .sched (.fork _ garbage) => some (forkSlot garbage s.kernel.procs)
  | .sched (.createThread _ garbage) => some (getPcbOr garbage s.kernel.procs.pcb_table)
  | _ => none

/-- The call is a `sem_wait` of the process in slot `i`. -/
def ReuseCall.WaitOf (i : ℤ) (s : ReuseState) : ReuseCall → Prop
  | .sched (.semWait _) => s.kernel.procs.current = i
  | _ => False

/-- What the occupant of slot `i` leaves to the next one: of a slot that is taken away from a living
process, which happens when no slot is free, everything. -/
def ReuseState.leaves (s : ReuseState) (i : ℤ) : Option PCB :=
  if 0 ≤ i ∧ i < MAX_PCB ∧ (s.kernel.procs.pcb_table i).status = -1 then s.left i
  else some (s.kernel.procs.pcb_table i)

/-- No descriptor is in use. -/
def NoFds (q : PCB) : Prop := ∀ fd, 0 ≤ fd → fd < NR_FILE → q.fcb fd = -1

/-- The descriptors are the same. -/
def SameFds (q r : PCB) : Prop := ∀ fd, 0 ≤ fd → fd < NR_FILE → q.fcb fd = r.fcb fd

/-- The last occupant of the slot of the new process, if there was one, was not waiting for a
semaphore by its `block_sem_index`, and for a thread it left no descriptors but those the creator
has now. -/
def ReuseCall.LeftClean (s : ReuseState) (i : ℤ) (c : ReuseCall) : Prop :=
  ∀ q, s.leaves i = some q →
    q.block_sem_index = -1 ∧
      match c with
      | .sched (.createThread _ _) => NoFds q ∨ SameFds q s.kernel.procs.cur
      | _ => True

/-- **A process that starts clean.** The descriptors in slot `i` are none, or those of the creator;
the process is not down as waiting for a semaphore; and as long as it does not wait for one itself,
a `sem_post` on a semaphore somebody waited for does not touch it. -/
structure StartsClean (creator : PCB) (s : ReuseState) (i : ℤ) : Prop where
  fds : NoFds (s.kernel.procs.pcb_table i) ∨ SameFds (s.kernel.procs.pcb_table i) creator
  waits : (s.kernel.procs.pcb_table i).block_sem_index = -1
  posts : ∀ l t, Run (Guarded (fun s c => ¬ReuseCall.WaitOf i s c) ReuseStep) s l t →
    ∀ x, x ≠ -1 → releaseSem x t.kernel.procs.pcb_table i = t.kernel.procs.pcb_table i

/-- A state with no processes that have exited: the free slots are as `pcb_init` leaves them. -/
structure ReuseStart (s : ReuseState) : Prop where
  left : ∀ i, s.left i = none
  free : ∀ i, 0 ≤ i → i < MAX_PCB → (s.kernel.procs.pcb_table i).status = -1 →
    NoFds (s.kernel.procs.pcb_table i) ∧ (s.kernel.procs.pcb_table i).block_sem_index = -1
  idle : (s.kernel.procs.pcb_table 0).status ≠ -1
  current : s.kernel.procs.cur.status ≠ -1

/-! ## What the calls leave alone -/

/-- A free slot of `p'` was free before and its descriptors and its `block_sem_index` are the same,
and the running process is the same, or the idle process, or one that lives. -/
structure Keeps (p p' : Procs) : Prop where
  free : ∀ i, (p'.pcb_table i).status = -1 → (p.pcb_table i).status = -1 ∧
    (p'.pcb_table i).fcb = (p.pcb_table i).fcb ∧
    (p'.pcb_table i).block_sem_index = (p.pcb_table i).block_sem_index
  current : p'.current = p.current ∨ p'.current = 0 ∨ p'.cur.status ≠ -1

section Keeps

variable {p p' p'' : Procs}

theorem Keeps.refl (p : Procs) : Keeps p p := ⟨fun _ h => ⟨h, rfl, rfl⟩, .inl rfl⟩

theorem Keeps.alive (h : Keeps p p') {i : ℤ} (hi : (p.pcb_table i).status ≠ -1) :
    (p'.pcb_table i).status ≠ -1 := fun hfree => hi (h.free i hfree).1

theorem Keeps.trans (h : Keeps p p') (h' : Keeps p' p'') : Keeps p p'' := by
  refine ⟨fun i hi => ?_, ?_⟩
  · obtain ⟨hstatus, hfcb, hblock⟩ := h'.free i hi
    obtain ⟨hstatus', hfcb', hblock'⟩ := h.free i hstatus
    exact ⟨hstatus', hfcb.trans hfcb', hblock.trans hblock'⟩
  · rcases h'.current with hcur | hcur
    · rcases h.current with hcur' | hcur' | hlive
      · exact .inl (hcur.trans hcur')
      · exact .inr (.inl (hcur.trans hcur'))
      · refine .inr (.inr ?_)
        rw [Procs.cur, hcur]
        exact h'.alive hlive
    · exact .inr hcur

/-- An assignment to a PCB that stays as free as it was. -/
theorem Keeps.modify {i : ℤ} {f : PCB → PCB}
    (hf : (f (p.pcb_table i)).status = -1 → (p.pcb_table i).status = -1 ∧
      (f (p.pcb_table i)).fcb = (p.pcb_table i).fcb ∧
      (f (p.pcb_table i)).block_sem_index = (p.pcb_table i).block_sem_index) :
    Keeps p (p.modify i f) := by
  refine ⟨fun j hj => ?_, .inl rfl⟩
  rcases eq_or_ne j i with rfl | hne
  · rw [p.pcb_table_modify_self] at hj ⊢
    exact hf hj
  · rw [p.pcb_table_modify_of_ne f hne] at hj ⊢
    exact ⟨hj, rfl, rfl⟩

/-- An assignment to a process that lives afterwards. -/
theorem Keeps.modify_alive {i : ℤ} {f : PCB → PCB} (hf : (f (p.pcb_table i)).status ≠ -1) :
    Keeps p (p.modify i f) := .modify fun h => absurd h hf

theorem Keeps.schedule (h : schedule p = some p') : Keeps p p' := by
  have hfcb := schedule_frame (g := PCB.fcb) (fun q s => rfl) h
  have hblock := schedule_frame (g := PCB.block_sem_index) (fun q s => rfl) h
  refine ⟨fun i hi => ⟨?_, hfcb i, hblock i⟩, ?_⟩
  · rcases schedule_status h i with hsame | ⟨-, hrun⟩
    · rw [← hsame]
      exact hi
    · rw [hrun] at hi
      exact absurd hi (by decide : Running ≠ -1)
  · rcases schedule_current h with ⟨-, hrun⟩ | ⟨h0, -⟩
    · refine .inr (.inr ?_)
      rw [hrun]
      exact (by decide : Running ≠ -1)
    · exact .inr (.inl h0)

/-- A table in which fewer slots are free and nothing else changes. -/
theorem Keeps.table {t : ℤ → PCB}
    (ht : ∀ i, (t i).status = -1 → t i = p.pcb_table i) : Keeps p { p with pcb_table := t } := by
  refine ⟨fun i hi => ?_, .inl rfl⟩
  have hsame := ht i hi
  simp only at hi ⊢
  rw [hsame] at hi ⊢
  exact ⟨hi, rfl, rfl⟩

theorem wakeup_free (t : ℤ → PCB) (i : ℤ) (h : (wakeup t i).status = -1) : wakeup t i = t i := by
  rcases wakeup_cases t i with hsame | ⟨-, hwoken⟩
  · exact hsame
  · rw [hwoken] at h
    dsimp only at h
    split at h
    · exact absurd h (by decide : Ready ≠ -1)
    · exact absurd h (by decide : Blocked ≠ -1)

theorem releaseSem_free (x : ℤ) (t : ℤ → PCB) (i : ℤ) (h : (releaseSem x t i).status = -1) :
    releaseSem x t i = t i := by
  rcases releaseSem_cases x t with ⟨hsame, -⟩ | ⟨j, -, -, -, hset⟩
  · rw [hsame]
  · rw [hset] at h ⊢
    rcases eq_or_ne i j with rfl | hne
    · rw [Function.update_self] at h
      exact absurd h (by decide : Ready ≠ -1)
    · exact Function.update_of_ne hne ..

end Keeps

section Calls

variable {p p' : Procs}

theorem Keeps.timerTick (h : timerTick p = some p') : Keeps p p' := by
  rw [OsLab.timerTick] at h
  have hwake : Keeps p { p with pcb_table := wakeup p.pcb_table } :=
    .table fun i hi => wakeup_free p.pcb_table i hi
  dsimp only at h
  split at h
  · refine (hwake.trans (.modify_alive ?_)).trans (.schedule h)
    exact (by decide : Ready ≠ -1)
  · obtain rfl := Option.some.inj h
    exact hwake.trans (.modify fun hfree => ⟨hfree, rfl, rfl⟩)

theorem Keeps.semDestroy (sem : Sem) (p : Procs) : Keeps p (semDestroy sem p) :=
  .table fun i hi => releaseSem_free sem.sem_index p.pcb_table i hi

theorem Keeps.newProcess (pid c : ℤ) (cr3 : UInt32) (p : Procs) :
    Keeps p (newProcess pid c cr3 p) :=
  .modify_alive (by decide : Ready ≠ -1)

theorem Keeps.forkCaller (p : Procs) : Keeps p (forkCaller p) :=
  .modify_alive (by decide : Ready ≠ -1)

theorem Keeps.processFork {cr3 : UInt32} {garbage : ℤ} (h : processFork cr3 garbage p = some p') :
    Keeps p p' := by
  refine .trans ?_ (.schedule h)
  refine ((Keeps.forkCaller p).trans (.newProcess (-1) (forkSlot garbage p) cr3 _)).trans ?_
  rw [forkChild]
  refine .modify_alive ?_
  rw [OsLab.newProcess, Procs.pcb_table_modify_self]
  exact (by decide : Ready ≠ -1)

/-- **Only `process_exit` frees a slot**, and what else is in a free slot nobody touches. -/
theorem Keeps.exec {c : SchedCall} (hexit : c ≠ .exit) (h : c.exec p = some p') : Keeps p p' := by
  cases c with
  | timer => exact .timerTick h
  | sleep time =>
    refine .trans (.modify_alive ?_) (.schedule h)
    exact (by decide : Blocked ≠ -1)
  | fork cr3 garbage => exact .processFork h
  | createThread cr3 garbage =>
    obtain rfl := Option.some.inj h
    exact .newProcess ..
  | exit => exact absurd rfl hexit
  | semWait sem =>
    have h : (semWait sem p).map Prod.snd = some p' := h
    rcases semWait_cases sem p with hsame | hblock
    · obtain rfl := Option.some.inj (hsame.symm.trans h)
      exact .refl p
    · refine .trans (.modify_alive ?_) (.schedule (hblock.symm.trans h))
      exact (by decide : Blocked ≠ -1)
  | semPost sem =>
    obtain rfl := Option.some.inj h
    rcases semPost_cases sem p with hsame | hrelease
    · rw [hsame]
      exact .refl p
    · rw [hrelease]
      exact .semDestroy sem p
  | semTrywait sem =>
    obtain rfl := Option.some.inj h
    exact .modify fun hfree => ⟨hfree, rfl, rfl⟩
  | semDestroy sem =>
    obtain rfl := Option.some.inj h
    exact .semDestroy sem p

theorem block_sem_index_processFork {cr3 : UInt32} {garbage : ℤ}
    (h : processFork cr3 garbage p = some p') (i : ℤ) :
    (p'.pcb_table i).block_sem_index = (p.pcb_table i).block_sem_index := by
  have hmodify : ∀ (p : Procs) (j : ℤ) (f : PCB → PCB),
      (∀ q, (f q).block_sem_index = q.block_sem_index) →
        ((p.modify j f).pcb_table i).block_sem_index = (p.pcb_table i).block_sem_index :=
    fun p j f hf => Procs.modify_frame (g := PCB.block_sem_index) hf i
  have hcaller : ((forkCaller p).pcb_table i).block_sem_index = (p.pcb_table i).block_sem_index :=
    hmodify _ _ _ fun q => by rfl
  have hnew : ∀ c, ((newProcess (-1) c cr3 (forkCaller p)).pcb_table i).block_sem_index =
      ((forkCaller p).pcb_table i).block_sem_index := fun c => hmodify _ _ _ fun q => by rfl
  have hchild : ((forkChild cr3 garbage p).pcb_table i).block_sem_index =
      ((newProcess (-1) (forkSlot garbage p) cr3 (forkCaller p)).pcb_table i).block_sem_index := by
    rw [forkChild]
    exact hmodify _ _ _ fun q => by rfl
  rw [schedule_frame (g := PCB.block_sem_index) (fun q s => rfl) h, hchild, hnew, hcaller]

@[simp] theorem block_sem_index_createThread (cr3 : UInt32) (garbage : ℤ) (p : Procs) (i : ℤ) :
    ((createThread cr3 garbage p).pcb_table i).block_sem_index =
      (p.pcb_table i).block_sem_index := by
  rw [createThread, newProcess]
  exact Procs.modify_frame (g := PCB.block_sem_index) (fun q => by rfl) i

/-- **Where `block_sem_index` comes from.** Of the calls only `sem_wait` sets it to something else
than `-1`. -/
theorem block_sem_index_exec {c : SchedCall} {i : ℤ} (h : c.exec p = some p')
    (hwait : ∀ sem, c = .semWait sem → p.current ≠ i)
    (hi : (p.pcb_table i).block_sem_index = -1) : (p'.pcb_table i).block_sem_index = -1 := by
  have hsched : ∀ {p p' : Procs}, schedule p = some p' →
      (p'.pcb_table i).block_sem_index = (p.pcb_table i).block_sem_index :=
    fun hs => schedule_frame (g := PCB.block_sem_index) (fun q s => rfl) hs i
  have hrelease : ∀ x, (releaseSem x p.pcb_table i).block_sem_index = -1 := fun x => by
    rcases releaseSem_cases x p.pcb_table with ⟨hsame, -⟩ | ⟨j, -, -, -, hset⟩
    · rw [hsame, hi]
    · rw [hset]
      rcases eq_or_ne i j with rfl | hne
      · rw [Function.update_self]
      · rw [Function.update_of_ne hne, hi]
  have hmodify : ∀ (p : Procs) (j : ℤ) (f : PCB → PCB),
      (∀ q, (f q).block_sem_index = q.block_sem_index) →
        ((p.modify j f).pcb_table i).block_sem_index = (p.pcb_table i).block_sem_index :=
    fun p j f hf => Procs.modify_frame (g := PCB.block_sem_index) hf i
  cases c with
  | timer =>
    have h : timerTick p = some p' := h
    rw [timerTick] at h
    dsimp only at h
    have hwake := (wakeup_block_sem_index p.pcb_table i).trans hi
    split at h
    · exact ((hsched h).trans (hmodify _ _ _ fun q => by rfl)).trans hwake
    · obtain rfl := Option.some.inj h
      exact (hmodify _ _ _ fun q => by rfl).trans hwake
  | sleep time =>
    exact ((hsched h).trans (hmodify _ _ _ fun q => by rfl)).trans hi
  | fork cr3 garbage =>
    rw [block_sem_index_processFork h, hi]
  | createThread cr3 garbage =>
    obtain rfl := Option.some.inj h
    rw [block_sem_index_createThread, hi]
  | exit =>
    exact ((hsched h).trans (hmodify _ _ _ fun q => by rfl)).trans hi
  | semWait sem =>
    have hcur := hwait sem rfl
    have h : (semWait sem p).map Prod.snd = some p' := h
    rcases semWait_cases sem p with hsame | hblock
    · obtain rfl := Option.some.inj (hsame.symm.trans h)
      exact hi
    · rw [hsched (hblock.symm.trans h), blockOn, Procs.pcb_table_modify_of_ne _ _ hcur.symm, hi]
  | semPost sem =>
    obtain rfl := Option.some.inj h
    rcases semPost_cases sem p with hsame | hpost
    · rw [hsame, hi]
    · rw [hpost]
      exact hrelease _
  | semTrywait sem =>
    obtain rfl := Option.some.inj h
    exact (hmodify _ _ _ fun q => by rfl).trans hi
  | semDestroy sem =>
    obtain rfl := Option.some.inj h
    exact hrelease _

end Calls

/-! ### `open` and `close` -/

/-- Only the running process's PCB changes, and of that not `status` or `block_sem_index`. -/
def CurOnly (p p' : Procs) : Prop :=
  ∃ f : PCB → PCB, p' = p.modify p.current f ∧
    ∀ q, (f q).status = q.status ∧ (f q).block_sem_index = q.block_sem_index

theorem CurOnly.trans {p p' p'' : Procs} (h : CurOnly p p') (h' : CurOnly p' p'') :
    CurOnly p p'' := by
  obtain ⟨f, rfl, hf⟩ := h
  obtain ⟨g, rfl, hg⟩ := h'
  refine ⟨g ∘ f, ?_, fun q => ⟨(hg _).1.trans (hf q).1, (hg _).2.trans (hf q).2⟩⟩
  simp [Procs.modify]

theorem CurOnly.modifyCur (k : Kernel) {f : PCB → PCB}
    (hf : ∀ q, (f q).status = q.status ∧ (f q).block_sem_index = q.block_sem_index) :
    CurOnly k.procs (k.modifyCur f).procs :=
  ⟨f, rfl, hf⟩

theorem CurOnly.setEax (k : Kernel) (v : ℤ) : CurOnly k.procs (k.setEax v).procs :=
  .modifyCur k fun _ => ⟨rfl, rfl⟩

theorem CurOnly.refl (p : Procs) : CurOnly p p := by
  refine ⟨id, ?_, fun _ => ⟨rfl, rfl⟩⟩
  rw [Procs.modify, id, Function.update_eq_self_iff.mpr rfl]

theorem CurOnly.installFd (i : ℤ) (k : Kernel) : CurOnly k.procs (installFd i k).procs := by
  rw [OsLab.installFd]
  split
  · next fd _ =>
      exact .modifyCur (f := fun p => { p with fcb := Function.update p.fcb fd i, eax := fd }) k
        fun _ => ⟨rfl, rfl⟩
  · exact .refl k.procs

theorem CurOnly.openFile (name : List UInt8) (mode : ℤ) (k : Kernel) :
    CurOnly k.procs (openFile name mode k).procs := by
  refine (CurOnly.setEax k FILE_OPEN).trans ?_
  rw [OsLab.openFile]
  generalize k.setEax FILE_OPEN = k
  dsimp only
  split
  · exact .setEax k (-1)
  · split
    · rename_i inode _ _ _
      exact .installFd _ (Kernel.modifyFcb { k with fcb_table := (fileAlloc k.fcb_table).1 }
        (fileAlloc k.fcb_table).2 fun f =>
          { f with f_state := mode, inode := inode, offset := 0, count := int32 (f.count + 1) })
    · split
      · exact .setEax k _
      · exact .installFd _ k

theorem CurOnly.closeFile {fd : ℤ} (hlt : fd < NR_FILE) (k : Kernel) :
    CurOnly k.procs (closeFile fd k).procs := by
  rw [OsLab.closeFile]
  split
  · exact .setEax k (-1)
  · refine (CurOnly.modifyCur k fun q => ?_).trans
      (.setEax ((k.modifyCur fun p => p.setFcbAt fd (-1)).modifyFcb (k.procs.cur.fcbAt fd)
        FCB.release) 1)
    rw [PCB.setFcbAt_of_lt hlt]
    exact ⟨rfl, rfl⟩

theorem CurOnly.keeps {p p' : Procs} (h : CurOnly p p') (hcur : p.cur.status ≠ -1) :
    Keeps p p' := by
  obtain ⟨f, rfl, hf⟩ := h
  refine .modify_alive ?_
  rw [(hf _).1]
  exact hcur

theorem CurOnly.block_sem_index {p p' : Procs} (h : CurOnly p p') (i : ℤ) :
    (p'.pcb_table i).block_sem_index = (p.pcb_table i).block_sem_index := by
  obtain ⟨f, rfl, hf⟩ := h
  exact Procs.modify_frame (g := PCB.block_sem_index) (fun q => (hf q).2) i

/-! ## What is left in a slot -/

/-- **Nobody touches a free slot.** Its descriptors and its `block_sem_index` are what the last
occupant left, or what `pcb_init` has put there. -/
structure Leftover (s : ReuseState) : Prop where
  slots : ∀ i, 0 ≤ i → i < MAX_PCB → (s.kernel.procs.pcb_table i).status = -1 →
    match s.left i with
    | none => NoFds (s.kernel.procs.pcb_table i) ∧
        (s.kernel.procs.pcb_table i).block_sem_index = -1
    | some q => (s.kernel.procs.pcb_table i).fcb = q.fcb ∧
        (s.kernel.procs.pcb_table i).block_sem_index = q.block_sem_index
  idle : (s.kernel.procs.pcb_table 0).status ≠ -1
  current : s.kernel.procs.cur.status ≠ -1

theorem ReuseStart.leftover {s : ReuseState} (h : ReuseStart s) : Leftover s :=
  ⟨fun i hi hlt hfree => by rw [h.left i]; exact h.free i hi hlt hfree, h.idle, h.current⟩

/-- A call that frees no slot. -/
theorem Leftover.keeps {s : ReuseState} {k : Kernel} (h : Leftover s)
    (hk : Keeps s.kernel.procs k.procs) : Leftover { s with kernel := k } := by
  refine ⟨fun i hi hlt hfree => ?_, hk.alive h.idle, ?_⟩
  · obtain ⟨hstatus, hfcb, hblock⟩ := hk.free i hfree
    have hslot := h.slots i hi hlt hstatus
    simp only [NoFds, hfcb, hblock]
    exact hslot
  · rcases hk.current with hcur | hcur | hlive
    · rw [Procs.cur, hcur]
      exact hk.alive h.current
    · rw [Procs.cur, hcur]
      exact hk.alive h.idle
    · exact hlive

/-- `process_exit` leaves its caller's descriptors and `block_sem_index` in the slot. -/
theorem Leftover.exit {s : ReuseState} {p : Procs} (h : Leftover s)
    (hcur : s.kernel.procs.current ≠ 0) (hexit : processExit s.kernel.procs = some p) :
    Leftover ⟨{ s.kernel with procs := p }, leftAfter .exit s⟩ := by
  have hk := Keeps.schedule hexit
  have hidle : ((s.kernel.procs.modify s.kernel.procs.current fun q =>
      { q with status := -1, pid := -1 }).pcb_table 0).status ≠ -1 := by
    rw [Procs.pcb_table_modify_of_ne _ _ hcur.symm]
    exact h.idle
  refine ⟨fun i hi hlt hfree => ?_, hk.alive hidle, ?_⟩
  · obtain ⟨hstatus, hfcb, hblock⟩ := hk.free i hfree
    simp only [leftAfter, NoFds, hfcb, hblock]
    rcases eq_or_ne i s.kernel.procs.current with rfl | hne
    · rw [Function.update_self, Procs.pcb_table_modify_self]
      exact ⟨rfl, rfl⟩
    · rw [Procs.pcb_table_modify_of_ne _ _ hne] at hstatus ⊢
      rw [Function.update_of_ne hne]
      exact h.slots i hi hlt hstatus
  · rcases schedule_current hexit with ⟨-, hrun⟩ | ⟨h0, -⟩
    · rw [hrun]
      exact (by decide : Running ≠ -1)
    · rw [Procs.cur, h0]
      exact hk.alive hidle

theorem Leftover.step {s s' : ReuseState} {c : ReuseCall} (h : Leftover s)
    (hstep : ReuseStep s c s') : Leftover s' := by
  obtain ⟨hallowed, hexec⟩ := hstep
  cases c with
  | sched c =>
    obtain ⟨p, hp, rfl⟩ := Option.map_eq_some_iff.mp hexec
    by_cases hexit : c = .exit
    · subst hexit
      exact h.exit hallowed hp
    · have hleft : leftAfter c s = s.left := by
        cases c with
        | exit => exact absurd rfl hexit
        | _ => rfl
      rw [hleft]
      exact h.keeps (.exec hexit hp)
  | openFile name mode =>
    obtain rfl := Option.some.inj hexec
    exact h.keeps ((CurOnly.openFile name mode s.kernel).keeps h.current)
  | close fd =>
    obtain rfl := Option.some.inj hexec
    exact h.keeps ((CurOnly.closeFile hallowed.2.2 s.kernel).keeps h.current)

/-- A process that does not wait for a semaphore is not set down as waiting. -/
theorem block_sem_index_step {s s' : ReuseState} {c : ReuseCall} {i : ℤ} (hstep : ReuseStep s c s')
    (hwait : ¬ReuseCall.WaitOf i s c) (hi : (s.kernel.procs.pcb_table i).block_sem_index = -1) :
    (s'.kernel.procs.pcb_table i).block_sem_index = -1 := by
  obtain ⟨hallowed, hexec⟩ := hstep
  cases c with
  | sched c =>
    obtain ⟨p, hp, rfl⟩ := Option.map_eq_some_iff.mp hexec
    exact block_sem_index_exec hp (fun sem hc hcur => hwait (by rw [hc]; exact hcur)) hi
  | openFile name mode =>
    obtain rfl := Option.some.inj hexec
    exact ((CurOnly.openFile name mode s.kernel).block_sem_index i).trans hi
  | close fd =>
    obtain rfl := Option.some.inj hexec
    exact ((CurOnly.closeFile hallowed.2.2 s.kernel).block_sem_index i).trans hi

/-- A semaphore somebody waited for is not the one that nobody waits for. -/
theorem releaseSem_of_not_waiting {t : ℤ → PCB} {i x : ℤ} (hi : (t i).block_sem_index = -1)
    (hx : x ≠ -1) : releaseSem x t i = t i := by
  rcases releaseSem_cases x t with ⟨hsame, -⟩ | ⟨j, -, -, hj, hset⟩
  · rw [hsame]
  · rw [hset]
    refine Function.update_of_ne (fun h => hx ?_) ..
    rw [← hj, ← h, hi]

/-- That the posts do not touch the process follows from what its slot holds at the start. -/
theorem startsClean_iff {creator : PCB} {s : ReuseState} {i : ℤ} :
    StartsClean creator s i ↔
      (NoFds (s.kernel.procs.pcb_table i) ∨ SameFds (s.kernel.procs.pcb_table i) creator) ∧
        (s.kernel.procs.pcb_table i).block_sem_index = -1 := by
  refine ⟨fun h => ⟨h.fds, h.waits⟩, fun h => ⟨h.1, h.2, fun l t hrun x hx => ?_⟩⟩
  refine releaseSem_of_not_waiting ?_ hx
  exact hrun.invariant (I := fun t => (t.kernel.procs.pcb_table i).block_sem_index = -1)
    (fun _ _ _ hi hstep => block_sem_index_step hstep.2 hstep.1 hi) h.2

/-! ## The new process -/

theorem leaves_free {s : ReuseState} {i : ℤ} (h : Leftover s) :
    (∀ q, s.leaves i = some q → (s.kernel.procs.pcb_table i).fcb = q.fcb ∧
      (s.kernel.procs.pcb_table i).block_sem_index = q.block_sem_index) ∧
    (s.leaves i = none → NoFds (s.kernel.procs.pcb_table i) ∧
      (s.kernel.procs.pcb_table i).block_sem_index = -1) := by
  rw [ReuseState.leaves]
  split
  · next hfree =>
    have hslot := h.slots i hfree.1 hfree.2.1 hfree.2.2
    refine ⟨fun q hq => ?_, fun hnone => ?_⟩
    · rw [hq] at hslot
      exact hslot
    · rw [hnone] at hslot
      exact hslot
  · refine ⟨fun q hq => ?_, fun hnone => absurd hnone (Option.some_ne_none _)⟩
    obtain rfl := Option.some.inj hq
    exact ⟨rfl, rfl⟩

/-- What the new process finds: the slot's `block_sem_index`, and the creator's descriptors if it is
forked, or else the slot's. -/
theorem newSlot_pcb {s s' : ReuseState} {c : ReuseCall} {i : ℤ} (hexec : c.exec s = some s')
    (hslot : c.newSlot s = some i) :
    (s'.kernel.procs.pcb_table i).block_sem_index = (s.kernel.procs.pcb_table i).block_sem_index ∧
      match c with
      | .sched (.createThread _ _) =>
        (s'.kernel.procs.pcb_table i).fcb = (s.kernel.procs.pcb_table i).fcb
      | _ => SameFds (s'.kernel.procs.pcb_table i) s.kernel.procs.cur := by
  cases c with
  | sched c =>
    obtain ⟨p, hp, rfl⟩ := Option.map_eq_some_iff.mp hexec
    cases c with
    | fork cr3 garbage =>
      obtain rfl := Option.some.inj hslot
      refine ⟨block_sem_index_processFork hp _, fun fd hfd hlt => ?_⟩
      exact (fcb_processFork hp hfd hlt).trans (if_pos rfl)
    | createThread cr3 garbage =>
      obtain rfl := Option.some.inj hp
      exact ⟨block_sem_index_createThread .., fcb_createThread⟩
    | timer | sleep _ | exit | semWait _ | semPost _ | semTrywait _ | semDestroy _ => cases hslot
  | openFile name mode => cases hslot
  | close fd => cases hslot

theorem leftClean_some {s : ReuseState} {i : ℤ} {c : ReuseCall} {q : PCB}
    (h : s.leaves i = some q) :
    c.LeftClean s i ↔ q.block_sem_index = -1 ∧
      match c with
      | .sched (.createThread _ _) => NoFds q ∨ SameFds q s.kernel.procs.cur
      | _ => True := by
  refine ⟨fun hclean => hclean q h, fun hclean r hr => ?_⟩
  obtain rfl := Option.some.inj (h.symm.trans hr)
  exact hclean

/-- **A new process starts clean exactly if the last occupant of its slot left nothing.** In every
run, whatever the calls before. -/
theorem newborn_clean_iff {s₀ s s' : ReuseState} {l : List ReuseCall} {c : ReuseCall} {i : ℤ}
    (hstart : ReuseStart s₀) (hrun : Run ReuseStep s₀ l s) (hstep : ReuseStep s c s')
    (hslot : c.newSlot s = some i) :
    StartsClean s.kernel.procs.cur s' i ↔ c.LeftClean s i := by
  have hleft : Leftover s := hrun.invariant (fun _ _ _ h hstep => h.step hstep) hstart.leftover
  obtain ⟨hused, hunused⟩ := @leaves_free s i hleft
  obtain ⟨hblock, hfds⟩ := newSlot_pcb hstep.2 hslot
  rw [startsClean_iff, hblock]
  cases hl : s.leaves i with
  | none =>
    obtain ⟨hnone, hwaits⟩ := hunused hl
    refine iff_of_true ⟨?_, hwaits⟩ fun q hq => ?_
    · cases c with
      | sched c =>
        cases c with
        | createThread _ _ =>
          simp only at hfds
          exact .inl fun fd hfd hlt => by rw [hfds, hnone fd hfd hlt]
        | _ => exact .inr hfds
      | _ => exact .inr hfds
    · rw [hl] at hq
      cases hq
  | some q =>
    obtain ⟨hfcb, hwaits⟩ := hused q hl
    rw [leftClean_some hl, hwaits, and_comm]
    refine and_congr_right fun _ => ?_
    cases c with
    | sched c =>
      cases c with
      | createThread _ _ =>
        simp only [NoFds, SameFds, hfcb] at hfds ⊢
        rw [hfds]
      | _ => exact iff_of_true (.inr hfds) trivial
    | _ => exact iff_of_true (.inr hfds) trivial

/-! ## A thread with the descriptors of a dead process -/

/-- A kernel with one file on its disk and the given processes. -/
def oneFileSystem (l : List PCB) (current : ℤ) (t : ℤ → FCB) (left : ℤ → Option PCB) : ReuseState :=
  ⟨⟨⟨slotTable l, current⟩, t, oneFileDir, fun _ => oneFileInode⟩, left⟩

/-- The idle process's time is over and the game runs. -/
theorem run_to_game {q g : PCB} {l : List PCB} (t : ℤ → FCB) (left : ℤ → Option PCB)
    (hl : (g :: l).length < 100) (hq : q.pcb_index = 0)
    (hawake : ∀ r ∈ q :: g :: l, r.status ≠ Blocked) (hready : g.status = Ready) :
    Run ReuseStep (oneFileSystem (q.ran 0 :: g :: l) 0 t left) (List.replicate 11 (.sched .timer))
      (oneFileSystem (processReady q :: { g with status := Running } :: l) 1 t left) :=
  run_game (fun p => (⟨⟨p, t, oneFileDir, fun _ => oneFileInode⟩, left⟩ : ReuseState))
    (fun _ _ htick => ⟨trivial, congrArg (Option.map _) htick⟩) hl hq hawake hready

/-- The game while its child lives. -/
def forkedGame : PCB := { gamePcb with eax := 2 }

/-- The child of the game. -/
def childPcb : PCB :=
  { processReady (pcbNew (-1) 2 2 freePcb) with fcb := copyFcb gamePcb.fcb freePcb.fcb, eax := -1 }

/-- The child when it has opened the file. -/
def childOpens : PCB :=
  { childPcb with fcb := Function.update childPcb.fcb 0 0, eax := 0, status := Running }

/-- A call of a function of `pcb.c` or `semaphore.c`. -/
theorem exec_oneFileSystem {c : SchedCall} {l l' : List PCB} {i i' : ℤ} (t : ℤ → FCB)
    (left : ℤ → Option PCB) (h : c.exec ⟨slotTable l, i⟩ = some ⟨slotTable l', i'⟩) :
    (ReuseCall.sched c).exec (oneFileSystem l i t left) =
      some (oneFileSystem l' i' t (leftAfter c (oneFileSystem l i t left))) :=
  congrArg (Option.map fun procs => (⟨⟨procs, t, oneFileDir, fun _ => oneFileInode⟩,
    leftAfter c (oneFileSystem l i t left)⟩ : ReuseState)) h

theorem run_fork (t : ℤ → FCB) (left : ℤ → Option PCB) :
    ReuseStep (oneFileSystem [processReady idlePcb, { gamePcb with status := Running }, freePcb] 1 t
        left) (.sched (.fork 0 0))
      (oneFileSystem [processReady idlePcb, forkedGame, { childPcb with status := Running }] 2 t
        left) := by
  refine ⟨(by decide : (1 : ℤ) ≠ 0), ?_⟩
  have hcaller : forkCaller
      ⟨slotTable [processReady idlePcb, { gamePcb with status := Running }, freePcb], 1⟩ =
        ⟨slotTable [processReady idlePcb, forkedGame, freePcb], 1⟩ :=
    modify_slotTable (n := 1) _ (by simp)
  have hslot : forkSlot 0
      ⟨slotTable [processReady idlePcb, { gamePcb with status := Running }, freePcb], 1⟩ = 2 := by
    rw [forkSlot, hcaller]
    decide
  have hnew : newProcess (-1) (2 : ℕ) 0 ⟨slotTable [processReady idlePcb, forkedGame, freePcb], 1⟩ =
      ⟨slotTable [processReady idlePcb, forkedGame, processReady (pcbNew (-1) 2 2 freePcb)], 1⟩ :=
    modify_slotTable (n := 2) _ (by simp)
  have hchild : forkChild 0 0
      ⟨slotTable [processReady idlePcb, { gamePcb with status := Running }, freePcb], 1⟩ =
        ⟨slotTable [processReady idlePcb, forkedGame, childPcb], 1⟩ := by
    rw [forkChild, hslot, hcaller]
    refine (congrArg (fun p : Procs => p.modify 2 _) hnew).trans ?_
    exact modify_slotTable (n := 2) _ (by simp)
  have hfork : processFork 0 0
      ⟨slotTable [processReady idlePcb, { gamePcb with status := Running }, freePcb], 1⟩ =
        some ⟨slotTable [processReady idlePcb, forkedGame, { childPcb with status := Running }],
        2⟩ := by
    rw [processFork, hchild]
    exact schedule_slotTable (n := 2) (by simp) (by decide)
  exact exec_oneFileSystem t left hfork

theorem run_open :
    ∃ t, ReuseStep (oneFileSystem [processReady idlePcb, forkedGame,
        { childPcb with status := Running }] 2 (fun _ => ⟨s_close, zeroSector, 0, 0⟩) fun _ => none)
      (.openFile [97] s_r) (oneFileSystem [processReady idlePcb, forkedGame, childOpens] 2 t
        fun _ => none) := by
  have hcall : (⟨slotTable [processReady idlePcb, forkedGame,
      { childPcb with status := Running }], 2⟩ : Procs).modify (2 : ℕ)
        (fun q => { q with eax := FILE_OPEN }) =
      ⟨slotTable [processReady idlePcb, forkedGame,
        { childPcb with status := Running, eax := FILE_OPEN }], 2⟩ :=
    modify_slotTable _ (by simp)
  have hfd : (⟨slotTable [processReady idlePcb, forkedGame,
      { childPcb with status := Running, eax := FILE_OPEN }], 2⟩ : Procs).modify (2 : ℕ)
        (fun q => { q with fcb := Function.update q.fcb 0 0, eax := 0 }) =
      ⟨slotTable [processReady idlePcb, forkedGame, childOpens], 2⟩ :=
    modify_slotTable _ (by simp)
  have hopen : openFile [97] s_r (oneFileSystem [processReady idlePcb, forkedGame,
      { childPcb with status := Running }] 2 (fun _ => ⟨s_close, zeroSector, 0, 0⟩) fun _ =>
        none).kernel =
        (oneFileSystem [processReady idlePcb, forkedGame, childOpens] 2
          (Function.update (Function.update (fun _ => ⟨s_close, zeroSector, 0, 0⟩) 0
            ⟨s_r, oneFileInode, 0, 1⟩) 0 ⟨s_r, oneFileInode, 0, 2⟩) fun _ => none).kernel := by
    rw [openFile_fresh (fileInode_oneFile rfl rfl) (by decide) (i := 0) (by decide),
      @installFd_free _ _ 0 (by decide)]
    have hprocs := (congrArg (fun p : Procs => p.modify (2 : ℕ) fun q =>
      { q with fcb := Function.update q.fcb 0 0, eax := 0 }) hcall).trans hfd
    exact congrArg (fun p => (⟨p, _, oneFileDir, fun _ => oneFileInode⟩ : Kernel)) hprocs
  exact ⟨_, (by decide : (2 : ℤ) ≠ 0), congrArg some (congrArg (ReuseState.mk · _) hopen)⟩

/-- The child exits. From its slot `schedule` comes back to the idle process. -/
theorem run_exit {q : PCB} (t : ℤ → FCB) (left : ℤ → Option PCB)
    (hloop : scheduleLoop (slotTable [processReady idlePcb, forkedGame,
      { q with status := -1, pid := -1 }]) q.pcb_index 102 (q.pcb_index + 1) = some (some 0)) :
    ReuseStep (oneFileSystem [processReady idlePcb, forkedGame, q] 2 t left) (.sched .exit)
      (oneFileSystem [{ processReady idlePcb with status := Running }, forkedGame,
        { q with status := -1, pid := -1 }] 0 t (Function.update left 2 (some q))) := by
  refine ⟨(by decide : (2 : ℤ) ≠ 0), ?_⟩
  have hfree : (⟨slotTable [processReady idlePcb, forkedGame, q], 2⟩ : Procs).modify
      (2 : ℕ) (fun q => { q with status := -1, pid := -1 }) =
        ⟨slotTable [processReady idlePcb, forkedGame, { q with status := -1, pid := -1 }], 2⟩ :=
    modify_slotTable _ (by simp)
  have hexit : processExit ⟨slotTable [processReady idlePcb, forkedGame, q], 2⟩ =
      some ⟨slotTable [{ processReady idlePcb with status := Running }, forkedGame,
        { q with status := -1, pid := -1 }], 0⟩ := by
    refine (congrArg schedule hfree).trans ?_
    exact schedule_slotTable (n := 0) (by simp) hloop
  exact exec_oneFileSystem t left hexit

/-- A table in which all processes there are live. -/
theorem reuseStart_oneFileSystem {l : List PCB} {c : ℤ} {t : ℤ → FCB}
    (hl : ∀ q ∈ l, q = freePcb ∨ q.status ≠ -1) (hidle : (slotTable l 0).status ≠ -1)
    (hcur : (slotTable l c).status ≠ -1) : ReuseStart (oneFileSystem l c t fun _ => none) := by
  refine ⟨fun i => rfl, fun i _ _ hfree => ?_, hidle, hcur⟩
  have hslot : slotTable l i = freePcb := by
    rcases slotTable_mem l i with hmem | hfree
    · exact (hl _ hmem).resolve_right fun hlive => hlive hfree
    · exact hfree
  show NoFds (slotTable l i) ∧ (slotTable l i).block_sem_index = -1
  rw [hslot]
  exact ⟨fun fd _ _ => rfl, rfl⟩

/-- The system when its first processes have been made. -/
theorem reuseStart_boot : ReuseStart (oneFileSystem [idlePcb, gamePcb, freePcb] 0
    (fun _ => ⟨s_close, zeroSector, 0, 0⟩) fun _ => none) := by
  refine reuseStart_oneFileSystem (fun q hq => ?_) (by decide : New ≠ -1) (by decide : New ≠ -1)
  simp only [List.mem_cons, List.not_mem_nil, or_false] at hq
  rcases hq with rfl | rfl | rfl
  · exact .inr (by decide : New ≠ -1)
  · exact .inr (by decide : Ready ≠ -1)
  · exact .inl rfl

/-- The game gets the processor for the first time. -/
theorem run_boot : Run ReuseStep (oneFileSystem [idlePcb, gamePcb, freePcb] 0
    (fun _ => ⟨s_close, zeroSector, 0, 0⟩) fun _ => none) (List.replicate 11 (.sched .timer))
      (oneFileSystem [processReady idlePcb, { gamePcb with status := Running }, freePcb] 1
        (fun _ => ⟨s_close, zeroSector, 0, 0⟩) fun _ => none) :=
  run_to_game (q := idlePcb) (g := gamePcb) (l := [freePcb]) _ _ (by simp) rfl (by decide) rfl

/-- The game gets the processor again when its child has exited. -/
theorem run_again {q : PCB} (t : ℤ → FCB) (left : ℤ → Option PCB) :
    Run ReuseStep (oneFileSystem [{ processReady idlePcb with status := Running }, forkedGame,
        { q with status := -1, pid := -1 }] 0 t left) (List.replicate 11 (.sched .timer))
      (oneFileSystem [processReady { processReady idlePcb with status := Running },
        { forkedGame with status := Running }, { q with status := -1, pid := -1 }] 1 t left) := by
  refine run_to_game (q := { processReady idlePcb with status := Running }) (g := forkedGame)
    (l := [{ q with status := -1, pid := -1 }]) t left (by simp) rfl (fun r hr => ?_) rfl
  simp only [List.mem_cons, List.not_mem_nil, or_false] at hr
  rcases hr with rfl | rfl | rfl
  · exact (by decide : Running ≠ Blocked)
  · exact (by decide : Ready ≠ Blocked)
  · exact (by decide : (-1 : ℤ) ≠ Blocked)

/-- The next slot is that of the child. -/
theorem newSlot_again {q : PCB} (t : ℤ → FCB) (left : ℤ → Option PCB) :
    ReuseCall.newSlot (oneFileSystem [processReady { processReady idlePcb with status := Running },
      { forkedGame with status := Running }, { q with status := -1, pid := -1 }] 1 t left)
      (.sched (.createThread 0 0)) = some 2 := by
  have hget : getPcbOr 0 (slotTable [processReady { processReady idlePcb with status := Running },
      { forkedGame with status := Running }, { q with status := -1, pid := -1 }]) = 2 := by
    refine getPcbOr_eq (by decide) (by decide) rfl fun j hj hlt => ?_
    rcases (by omega : j = 0 ∨ j = 1) with rfl | rfl
    · exact (by decide : Ready ≠ -1)
    · exact (by decide : Running ≠ -1)
  exact congrArg some hget

theorem noFds_childPcb : NoFds childPcb :=
  fun _ hfd hlt => if_pos ⟨hfd, hlt⟩

/-- The child of the game exits without a descriptor, and the game creates a thread in its slot. -/
theorem newborn_clean_thread :
    ∃ s₀ l s s', ReuseStart s₀ ∧ Run ReuseStep s₀ l s ∧
      ReuseStep s (.sched (.createThread 0 0)) s' ∧
      ReuseCall.newSlot s (.sched (.createThread 0 0)) = some 2 ∧
      s.leaves 2 = some { childPcb with status := Running } ∧
      StartsClean s.kernel.procs.cur s' 2 := by
  have hrun := run_boot.append (.cons (run_fork _ _) (.cons (run_exit _ _ (by decide +kernel))
    (run_again _ _)))
  have hslot := newSlot_again (q := { childPcb with status := Running })
    (fun _ => ⟨s_close, zeroSector, 0, 0⟩)
    (Function.update (fun _ => none) 2 (some { childPcb with status := Running }))
  have hleaves : ReuseState.leaves (oneFileSystem
      [processReady { processReady idlePcb with status := Running },
        { forkedGame with status := Running },
        { { childPcb with status := Running } with status := -1, pid := -1 }] 1
      (fun _ => ⟨s_close, zeroSector, 0, 0⟩)
      (Function.update (fun _ => none) 2 (some { childPcb with status := Running }))) 2 =
        some { childPcb with status := Running } :=
    if_pos ⟨by decide, by decide, rfl⟩
  have hstep : ∃ s', ReuseStep (oneFileSystem
      [processReady { processReady idlePcb with status := Running },
        { forkedGame with status := Running },
        { { childPcb with status := Running } with status := -1, pid := -1 }] 1
      (fun _ => ⟨s_close, zeroSector, 0, 0⟩)
      (Function.update (fun _ => none) 2 (some { childPcb with status := Running })))
      (.sched (.createThread 0 0)) s' := ⟨_, (by decide : (1 : ℤ) ≠ 0), rfl⟩
  obtain ⟨s', hstep⟩ := hstep
  refine ⟨_, _, _, s', reuseStart_boot, hrun, hstep, hslot, hleaves, ?_⟩
  refine (newborn_clean_iff reuseStart_boot hrun hstep hslot).mpr ?_
  exact (leftClean_some hleaves).mpr ⟨rfl, .inl noFds_childPcb⟩

/-- The child of the game opens a file and exits, and the game creates a thread: the thread can read
the file. -/
theorem thread_has_dead_fds :
    ∃ s₀ l s s', ReuseStart s₀ ∧ Run ReuseStep s₀ l s ∧
      ReuseStep s (.sched (.createThread 0 0)) s' ∧
      ReuseCall.newSlot s (.sched (.createThread 0 0)) = some 2 ∧
      (s'.kernel.procs.pcb_table 2).fcb 0 = 0 ∧ s.kernel.procs.cur.fcb 0 = -1 ∧
      ¬StartsClean s.kernel.procs.cur s' 2 := by
  obtain ⟨t, hopen⟩ := run_open
  have hrun := run_boot.append (.cons (run_fork _ _) (.cons hopen
    (.cons (run_exit t _ (by decide +kernel)) (run_again t _))))
  have hthread := congrFun (@fcb_createThread
    ⟨slotTable [processReady { processReady idlePcb with status := Running },
      { forkedGame with status := Running }, { childOpens with status := -1, pid := -1 }], 1⟩
    0 0 2) 0
  refine ⟨_, _, _, _, reuseStart_boot, hrun, ⟨(by decide : (1 : ℤ) ≠ 0), rfl⟩,
    newSlot_again t _, hthread, rfl, fun hclean => ?_⟩
  rcases hclean.fds with hnone | hsame
  · exact absurd (hthread.symm.trans (hnone 0 (by decide) (by decide))) (by decide : (0 : ℤ) ≠ -1)
  · exact absurd (hthread.symm.trans (hsame 0 (by decide) (by decide))) (by decide : (0 : ℤ) ≠ -1)

end OsLab

import OsLab.Game.BoundedBuffer
import OsLab.Process.Scheduler
import OsLab.Process.SemCount

/-!
# The producer and the consumer

`pc_main` clears the buffer, sets up the three semaphores and creates the two threads. A step of the
system is the next statement of the thread that runs, a `create_thread` of `pc_main`, the end of a
time slice, or a tick of the timer that wakes up nobody who waits for a semaphore. The threads may
be switched between any two statements, and there may be any other processes.

A thread that calls `sem_wait` and finds the semaphore taken is at its next statement, and waits as
long as its `block_sem_index` is the number of the semaphore. What the threads do to the semaphores'
tokens is what `BufferInv` is about, and `PcInv` connects the two.

## Main definitions

* `PcState` — the kernel's state, the buffer, and the slots of the threads
* `PcStep` — a step is taken if the timer wakes up nobody who waits, and a slot is free after it
* `PcStart` — the state in which `pc_main` is called: any state between two system calls of a
  process that is not the idle process
* `PcSafe` — what the program is meant to do
* `PcInv` — the state of the system, with who of the threads waits

## Two layers

The module before knows the two threads and nothing of the kernel. Here a statement that is a call
is taken in both layers at once: the kernel does what `sem_wait` or `sem_post` does to the semaphore
and to the process table, and the thread goes on to its next statement. The invariant says that the
two agree on who waits and on what the semaphores have to give.

## Main results

* `boundedBuffer` — the buffer is what it is meant to be, in every state that can be reached
-/

namespace OsLab

/-! ## The system -/

/-- Where `pc_main` is. -/
inductive PcMain
  | createProducer
  | createConsumer
  | loop
  deriving DecidableEq

/-- The kernel's state, the buffer, and the slots of the threads. -/
structure PcState where
  sys : SemState PcSem
  buffer : Buffer
  mainSlot : ℤ
  main : PcMain
  producer : Option ℤ
  consumer : Option ℤ

/-- `pc_main` up to its `create_thread`s, run by the current process. `items` and `load` are what
was in memory and in the consumer's register before. -/
def pcMain (sem_count : ℤ) (p : Procs) (items : ℤ → ℤ) (load : ℤ) : PcState :=
  let mutex := semInit 1 true sem_count
  let empty := semInit item_num false mutex.2
  let full := semInit 0 false empty.2
  { sys := ⟨p, fun k => match k with
      | .mutex => mutex.1
      | .empty => empty.1
      | .full => full.1⟩
    buffer := ⟨.waitEmpty, .waitFull, 0, 0,
      fun j => if 0 ≤ j ∧ j < item_num then 0 else items j, load, 0, 0⟩
    mainSlot := p.current
    main := .createProducer
    producer := none
    consumer := none }

/-- A call of a thread. -/
def PcCall.exec (s : SemState PcSem) : PcCall → Option (SemState PcSem)
  | .wait k => semStep s (.semWait k)
  | .post k => semStep s (.semPost k)
  | .local => some s

/-- What can happen. `cr3` is the page directory of the new thread. -/
inductive PcEvent
  | statement
  | create (cr3 : UInt32) (garbage : ℤ)
  | timeSlice
  | timer

/-- `create_thread` of `pc_main`. -/
def PcState.create (s : PcState) (cr3 : UInt32) (garbage : ℤ) : Option PcState :=
  let slot := getPcbOr garbage s.sys.procs.pcb_table
  let sys := { s.sys with procs := createThread cr3 garbage s.sys.procs }
  match s.main with
  | .createProducer => some { s with sys := sys, producer := some slot, main := .createConsumer }
  | .createConsumer => some { s with sys := sys, consumer := some slot, main := .loop }
  | .loop => none

/-- What an event does. A statement is one of the thread that runs. -/
def pcStep (s : PcState) : PcEvent → Option PcState
  | .statement =>
    if s.producer = some s.sys.procs.current then
      (s.buffer.producer.call.exec s.sys).map fun sys =>
        { s with sys := sys, buffer := s.buffer.producerStep }
    else if s.consumer = some s.sys.procs.current then
      (s.buffer.consumer.call.exec s.sys).map fun sys =>
        { s with sys := sys, buffer := s.buffer.consumerStep }
    else none
  | .create cr3 garbage =>
    if s.sys.procs.current = s.mainSlot then s.create cr3 garbage else none
  | .timeSlice => (semStep s.sys .timeSlice).map fun sys => { s with sys := sys }
  | .timer => (semStep s.sys .timer).map fun sys => { s with sys := sys }

/-- A step is taken if the timer wakes up nobody who waits, and a slot is free after it. -/
def PcStep (s : PcState) (e : PcEvent) (s' : PcState) : Prop :=
  (e = .timer → NoWakeup s.sys.index s.sys.procs.pcb_table) ∧ pcStep s e = some s' ∧
    SlotFree s'.sys.procs

/-- The state in which `pc_main` is called: any state between two system calls of a process that is
not the idle process. The semaphores get numbers that nobody has used. -/
structure PcStart (sem_count : ℤ) (p : Procs) : Prop where
  sched : SchedInv p
  current : p.current ≠ 0
  range : 0 ≤ sem_count ∧ sem_count + 2 < 2 ^ 31
  unused : ∀ i, 0 ≤ i → i < MAX_PCB → (p.pcb_table i).block_sem_index < sem_count

/-- The thread in the slot waits for a semaphore. -/
def PcState.Waits (s : PcState) (slot : Option ℤ) : Prop :=
  ∃ i, slot = some i ∧ s.sys.index (s.sys.who i)

/-- **What the program is meant to do.** -/
def PcSafe (s : PcState) : Prop :=
  ∃ pw cw : Bool, (pw = true ↔ s.Waits s.producer) ∧ (cw = true ↔ s.Waits s.consumer) ∧
    BufferOk pw cw s.buffer

/-! ## Who waits -/

/-- A thread: its slot, whether it waits, and for which semaphore if it does. -/
structure ThreadAt where
  slot : Option ℤ
  waits : Bool
  waitsFor : Option PcSem

/-- **Who waits for one of the semaphores.** Nobody but the two threads, and they for the semaphore
they have called `sem_wait` for. `who` is the `block_sem_index` of every process, and `idx` are the
numbers of the semaphores. -/
structure Coupled (idx : PcSem → ℤ) (who : ℤ → ℤ) (a b : ThreadAt) : Prop where
  distinct : ∀ i, a.slot = some i → b.slot ≠ some i
  first : a.waits = true ↔ ∃ i, a.slot = some i ∧ ∃ k, idx k = who i
  second : b.waits = true ↔ ∃ i, b.slot = some i ∧ ∃ k, idx k = who i
  waits : ∀ i k, 0 ≤ i → i < MAX_PCB → who i = idx k →
    (a.slot = some i ∧ a.waitsFor = some k) ∨ (b.slot = some i ∧ b.waitsFor = some k)

section Coupled

variable {idx : PcSem → ℤ} {who who' : ℤ → ℤ} {a b : ThreadAt} {c i : ℤ} {k : PcSem}

theorem Coupled.symm (h : Coupled idx who a b) : Coupled idx who b a :=
  ⟨fun i hb ha => h.distinct i ha hb, h.second, h.first,
    fun i k hi hlt hik => (h.waits i k hi hlt hik).symm⟩

/-- A thread that runs does not wait. -/
theorem Coupled.runs (h : Coupled idx who a b) (ha : a.slot = some c)
    (hawake : ¬∃ k, idx k = who c) : a.waits = false := by
  rw [← Bool.not_eq_true, h.first]
  rintro ⟨i, hi, hk⟩
  obtain rfl : c = i := Option.some.inj (ha.symm.trans hi)
  exact hawake hk

/-- A thread that runs goes on. -/
theorem Coupled.advance (h : Coupled idx who a b) (ha : a.slot = some c)
    (hawake : ¬∃ k, idx k = who c) (f : Option PcSem) :
    Coupled idx who ⟨a.slot, false, f⟩ b := by
  refine ⟨h.distinct, ?_, h.second, fun i k hi hlt hik => ?_⟩
  · rw [← h.runs ha hawake]
    exact h.first
  · rcases h.waits i k hi hlt hik with ⟨hai, -⟩ | hb
    · obtain rfl : c = i := Option.some.inj (ha.symm.trans hai)
      exact absurd ⟨k, hik.symm⟩ hawake
    · exact .inr hb

/-- A thread that runs is blocked. -/
theorem Coupled.block (h : Coupled idx who a b) (hinj : Function.Injective idx)
    (ha : a.slot = some c) (hawake : ¬∃ k, idx k = who c) :
    Coupled idx (Function.update who c (idx k)) ⟨a.slot, true, some k⟩ b := by
  have hself : idx k = Function.update who c (idx k) c := (Function.update_self c (idx k) who).symm
  refine ⟨h.distinct, iff_of_true rfl ⟨c, ha, k, hself⟩, ?_,
    fun i k' hi hlt hik => ?_⟩
  · refine h.second.trans (exists_congr fun i => and_congr_right fun hbi => ?_)
    have hne : i ≠ c := fun hic => h.distinct i (hic ▸ ha) hbi
    rw [Function.update_of_ne hne]
  · rcases eq_or_ne i c with rfl | hne
    · rw [Function.update_self] at hik
      exact .inl ⟨ha, congrArg some (hinj hik)⟩
    · rw [Function.update_of_ne hne] at hik
      rcases h.waits i k' hi hlt hik with ⟨hai, -⟩ | hb
      · exact absurd (Option.some.inj (hai.symm.trans ha)) hne
      · exact .inr hb

/-- A thread that runs releases the other one, if any. -/
theorem Coupled.release (h : Coupled idx who a b) (hneg : ¬∃ k, idx k = -1) (ha : a.slot = some c)
    (hawake : ¬∃ k, idx k = who c) (hi : 0 ≤ i) (hlt : i < MAX_PCB) (hik : who i = idx k)
    (f : Option PcSem) :
    b.waits = true ∧ b.waitsFor = some k ∧
      Coupled idx (Function.update who i (-1)) ⟨a.slot, false, f⟩ ⟨b.slot, false, b.waitsFor⟩ := by
  have hadv := h.advance ha hawake f
  have hb : b.slot = some i ∧ b.waitsFor = some k := by
    rcases h.waits i k hi hlt hik with ⟨hai, -⟩ | hb
    · obtain rfl : c = i := Option.some.inj (ha.symm.trans hai)
      exact absurd ⟨k, hik.symm⟩ hawake
    · exact hb
  have hupdate : ∀ j, (∃ k, idx k = Function.update who i (-1) j) → j ≠ i ∧ ∃ k, idx k = who j := by
    rintro j ⟨k', hk'⟩
    rcases eq_or_ne j i with rfl | hne
    · rw [Function.update_self] at hk'
      exact absurd ⟨k', hk'⟩ hneg
    · rw [Function.update_of_ne hne] at hk'
      exact ⟨hne, k', hk'⟩
  refine ⟨h.second.mpr ⟨i, hb.1, k, hik.symm⟩, hb.2, h.distinct, ?_, ?_, fun j k' hj hjlt hjk => ?_⟩
  · refine iff_of_false nofun ?_
    rintro ⟨j, hj, hk⟩
    obtain rfl : c = j := Option.some.inj (ha.symm.trans hj)
    exact hawake (hupdate c hk).2
  · refine iff_of_false nofun ?_
    rintro ⟨j, hj, hk⟩
    exact (hupdate j hk).1 (Option.some.inj (hj.symm.trans hb.1))
  · obtain ⟨hne, -⟩ := hupdate j ⟨k', hjk.symm⟩
    rw [Function.update_of_ne hne] at hjk
    exact hadv.waits j k' hj hjlt hjk

/-- A thread is created, in a slot whose process waits for nothing. -/
theorem Coupled.create (h : Coupled idx who a b) (ha : a.slot = none) (hb : b.slot ≠ some c)
    (hc : ¬∃ k, idx k = who c) : Coupled idx who ⟨some c, a.waits, a.waitsFor⟩ b := by
  refine ⟨fun i hi => Option.some.inj hi ▸ hb, ?_, h.second, fun i k hi hlt hik => ?_⟩
  · refine iff_of_false ?_ ?_
    · rw [h.first, ha]
      rintro ⟨i, hi, -⟩
      exact nomatch hi
    · rintro ⟨i, hi, hk⟩
      exact hc (Option.some.inj hi ▸ hk)
  · rcases h.waits i k hi hlt hik with ⟨hai, -⟩ | hb
    · rw [ha] at hai
      exact nomatch hai
    · exact .inr hb

end Coupled

/-! ## The invariant -/

/-- A thread is in a slot of the table that is in use. -/
def Slot (p : Procs) (slot : Option ℤ) : Prop :=
  ∀ i, slot = some i → i ≠ 0 ∧ (p.pcb_table i).status ≠ -1

/-- The numbers of the semaphores. -/
def SemState.numbers (s : SemState PcSem) (k : PcSem) : ℤ := (s.sems k).sem_index

/-- The state of the system, with who of the threads waits. -/
structure PcInv (pw cw : Bool) (s : PcState) : Prop where
  sched : SchedInv s.sys.procs
  sems : SemInv s.sys
  kinds : ∀ k, (s.sys.sems k).mutex = true ↔ k = .mutex
  producer : Slot s.sys.procs s.producer
  consumer : Slot s.sys.procs s.consumer
  main : (s.main = .createProducer → s.producer = none) ∧
    (s.main = .createProducer ∨ s.main = .createConsumer → s.consumer = none)
  coupled : Coupled s.sys.numbers s.sys.who ⟨s.producer, pw, s.buffer.producer.waitsFor⟩
    ⟨s.consumer, cw, s.buffer.consumer.waitsFor⟩
  buffer : BufferInv s.sys.free pw cw s.buffer

/-! ### The kernel's part -/

section Kernel

variable {s s' : SemState PcSem} {e : SemEvent PcSem} {p p' : Procs}

@[simp] theorem block_sem_index_newProcess (pid c : ℤ) (cr3 : UInt32) (p : Procs) (j : ℤ) :
    ((newProcess pid c cr3 p).pcb_table j).block_sem_index = (p.pcb_table j).block_sem_index :=
  Procs.modify_frame (g := PCB.block_sem_index) (fun q => by rfl) j

/-- The end of a time slice. -/
theorem SchedInv.timeSlice (h : SchedInv p) (hs : OsLab.timeSlice p = some p') : SchedInv p' := by
  rw [OsLab.timeSlice, h.cur_home] at hs
  have hlt := h.lt
  have hswitch : Switching (p.modify p.current processReady) :=
    h.switching ⟨fun _ => h.cur_home, fun _ => ⟨Int.le_refl 0, (by decide : (0 : ℤ) ≤ 10)⟩,
      fun h0 => ⟨(by decide : Ready ≠ -1), (by decide : Ready ≠ Blocked), (h.cur.idle h0).2.2⟩,
      fun h99 => absurd h99 (by omega)⟩ rfl (show Ready ≠ Running by decide)
  exact hswitch.schedule hs

/-- What the events leave alone: the numbers and kinds of the semaphores, and which slots are in
use. -/
structure Kept (s s' : SemState PcSem) : Prop where
  numbers : s'.numbers = s.numbers
  mutex : ∀ k, (s'.sems k).mutex = (s.sems k).mutex
  live : ∀ i, (s.procs.pcb_table i).status ≠ -1 → (s'.procs.pcb_table i).status ≠ -1

theorem live_modify {f : PCB → PCB} {c : ℤ} (hf : (f (p.pcb_table c)).status ≠ -1) {i : ℤ}
    (h : (p.pcb_table i).status ≠ -1) : ((p.modify c f).pcb_table i).status ≠ -1 := by
  simp only [Procs.modify]
  rcases eq_or_ne i c with rfl | hne
  · rwa [Function.update_self]
  · rwa [Function.update_of_ne hne]

theorem live_schedule (hs : OsLab.schedule p = some p') {i : ℤ}
    (h : (p.pcb_table i).status ≠ -1) : (p'.pcb_table i).status ≠ -1 := by
  rcases schedule_status hs i with heq | ⟨-, hrunning⟩
  · rwa [heq]
  · rw [hrunning]
    decide

theorem Kept.set {k : PcSem} {x : Sem × Procs} (hindex : x.1.sem_index = (s.sems k).sem_index)
    (hmutex : x.1.mutex = (s.sems k).mutex)
    (hlive : ∀ i, (s.procs.pcb_table i).status ≠ -1 → (x.2.pcb_table i).status ≠ -1) :
    Kept s (s.set k x) := by
  refine ⟨?_, fun k' => ?_, hlive⟩
  · funext k'
    exact sem_index_set hindex k'
  · simp only [SemState.set]
    rcases eq_or_ne k' k with rfl | hne
    · rw [Function.update_self, hmutex]
    · rw [Function.update_of_ne hne]

theorem live_timeSlice (hs : OsLab.timeSlice p = some p') {i : ℤ}
    (h : (p.pcb_table i).status ≠ -1) : (p'.pcb_table i).status ≠ -1 :=
  live_schedule hs (live_modify (show Ready ≠ -1 by decide) h)

/-- **One event.** -/
theorem SemInv.kept (h : SemInv s) (hsafe : SemSafe s e) (hs : semStep s e = some s') :
    Kept s s' := by
  cases e with
  | semWait k =>
    obtain ⟨x, hx, rfl⟩ := Option.map_eq_some_iff.mp hs
    rw [semWait_spec (h.records k) (waiters_le _ _) (h.range k)] at hx
    split at hx
    · obtain rfl := Option.some.inj hx
      exact Kept.set rfl rfl fun i hi => hi
    · obtain ⟨p', hp', rfl⟩ := Option.map_eq_some_iff.mp hx
      exact Kept.set rfl rfl fun i hi =>
        live_schedule hp' (live_modify (show Blocked ≠ -1 by decide) hi)
  | semPost k =>
    obtain rfl := Option.some.inj hs
    rw [semPost_spec (h.records k) (waiters_le _ _) (hsafe.1 k rfl)]
    split
    · exact Kept.set rfl rfl fun i hi => hi
    · refine Kept.set rfl rfl fun i hi => ?_
      rcases releaseSem_cases (s.sems k).sem_index s.procs.pcb_table with
        ⟨heq, -⟩ | ⟨j, -, -, -, heq⟩
      · simpa only [heq] using hi
      · simp only [heq]
        rcases eq_or_ne i j with rfl | hne
        · rw [Function.update_self]
          exact (by decide : Ready ≠ -1)
        · rwa [Function.update_of_ne hne]
  | timeSlice =>
    obtain ⟨p', hp', rfl⟩ := Option.map_eq_some_iff.mp hs
    exact ⟨rfl, fun k => rfl, fun i hi => live_timeSlice hp' hi⟩
  | timer =>
    obtain ⟨p', hp', rfl⟩ := Option.map_eq_some_iff.mp hs
    refine ⟨rfl, fun k => rfl, fun i hi => ?_⟩
    have hw : ((⟨wakeup s.procs.pcb_table, s.procs.current⟩ : Procs).pcb_table i).status ≠ -1 :=
      fun heq => hi ((wakeup_live _ i).mp heq)
    rw [timerTick] at hp'
    split at hp'
    · exact live_timeSlice hp' hw
    · obtain rfl := Option.some.inj hp'
      simp only [Procs.modify]
      rcases eq_or_ne i s.procs.current with rfl | hne
      · rwa [Function.update_self]
      · rwa [Function.update_of_ne hne]

/-- **A call of a thread.** The thread that runs is `a`, in front of `call`, with `f` what it waits
for if the call does not return; `B` holds, for the tokens the semaphores have and who of the two
threads waits, whatever the call does. -/
theorem SemInv.call {call : PcCall} {a b : ThreadAt} {f : Option PcSem}
    {B : (PcSem → ℤ) → Bool → Bool → Prop} (h : SemInv s) (hsched : SchedInv s.procs)
    (hc : Coupled s.numbers s.who a b) (ha : a.slot = some s.procs.current)
    (hidle : s.procs.current ≠ 0) (hfree : SlotFree s'.procs)
    (hlocal : call = .local → B s.free false b.waits)
    (hwait : ∀ k, call = .wait k → f = some k ∧
      (0 < s.free k → B (Function.update s.free k (s.free k - 1)) false b.waits) ∧
        B s.free true b.waits)
    (hpost : ∀ k, call = .post k → PostSafe (s.sems k) ∧
      ((s.sems k).mutex = true → s.free k = 0) ∧
        B (Function.update s.free k (s.free k + 1)) false b.waits ∧
          (b.waits = true → b.waitsFor = some k → B s.free false false))
    (hs : call.exec s = some s') :
    SchedInv s'.procs ∧ SemInv s' ∧ Kept s s' ∧ ∃ wa wb, B s'.free wa wb ∧
      Coupled s'.numbers s'.who ⟨a.slot, wa, f⟩ ⟨b.slot, wb, b.waitsFor⟩ := by
  have hend : EndOfTable s.procs := by
    have := hsched.lt
    exact fun h99 => absurd h99 (by omega)
  have hawake := h.awake.2
  cases call with
  | «local» =>
    obtain rfl := Option.some.inj hs
    exact ⟨hsched, h, ⟨rfl, fun k => rfl, fun i hi => hi⟩, false, b.waits, hlocal rfl,
      hc.advance ha hawake f⟩
  | wait k =>
    have hsafe : SemSafe s (.semWait k) := ⟨fun _ hk => (by cases hk), fun _ => hend⟩
    have hkept := h.kept hsafe hs
    have hsems := h.step hsafe ⟨hidle, hs⟩
    obtain ⟨hf, htake, hblock⟩ := hwait k rfl
    obtain ⟨x, hx, rfl⟩ := Option.map_eq_some_iff.mp hs
    have hsched' : SchedInv x.2 := hsched.step (c := .semWait (s.sems k))
      ⟨⟨hidle, h.nonneg k⟩, by rw [SchedCall.exec, hx]; rfl, hfree⟩
    refine ⟨hsched', hsems, hkept, ?_⟩
    rw [hkept.numbers]
    obtain ⟨hpos, hwho, hfree'⟩ | ⟨hwho, hfree'⟩ := h.wait_tokens hx
    · rw [hwho, hfree']
      exact ⟨false, b.waits, htake hpos, hc.advance ha hawake f⟩
    · rw [hwho, hfree', hf]
      exact ⟨true, b.waits, hblock, hc.block h.inj ha hawake⟩
  | post k =>
    obtain ⟨hpsafe, hmutex, hgive, hpass⟩ := hpost k rfl
    have hsafe : SemSafe s (.semPost k) := by
      refine ⟨fun k' hk => ?_, False.elim⟩
      obtain rfl := SemEvent.semPost.inj hk
      exact hpsafe
    have hkept := h.kept hsafe hs
    have hsems := h.step hsafe ⟨trivial, hs⟩
    obtain rfl := Option.some.inj hs
    have hsched' : SchedInv (OsLab.semPost (s.sems k) s.procs).2 :=
      hsched.step (c := .semPost (s.sems k)) ⟨⟨hidle, h.nonneg k⟩, rfl, hfree⟩
    refine ⟨hsched', hsems, hkept, ?_⟩
    rw [hkept.numbers]
    obtain ⟨hwho, hfree'⟩ | ⟨i, hi, hlt, hik, hwho, hfree'⟩ := h.post_tokens hpsafe hmutex
    · rw [hwho, hfree']
      exact ⟨false, b.waits, hgive, hc.advance ha hawake f⟩
    · rw [hwho, hfree']
      obtain ⟨hbw, hbf, hrel⟩ := hc.release h.not_index ha hawake hi hlt hik f
      exact ⟨false, false, hpass hbw hbf, hrel⟩

end Kernel

/-! ### The program's part -/

section Program

variable {pw cw : Bool} {s s' : PcState}

@[simp] theorem Buffer.consumer_producerStep (b : Buffer) :
    b.producerStep.consumer = b.consumer := by
  rw [Buffer.producerStep]
  split <;> rfl

@[simp] theorem Buffer.producer_consumerStep (b : Buffer) :
    b.consumerStep.producer = b.producer := by
  rw [Buffer.consumerStep]
  split <;> rfl

/-- No semaphore has more than ten tokens. -/
theorem PcInv.postSafe (h : PcInv pw cw s) (k : PcSem) : PostSafe (s.sys.sems k) := by
  cases hk : (s.sys.sems k).mutex with
  | true => exact .inl hk
  | false =>
    have htok := h.buffer.tokens k
    have hp := s.buffer.producer.holds_nonneg pw k
    have hc := s.buffer.consumer.holds_nonneg cw k
    have hb := h.buffer.between
    have hle : s.buffer.tokens k ≤ 10 := by
      cases k <;> simp only [Buffer.tokens, item_num] <;> omega
    have hfree : (s.sys.sems k).value ≤ s.sys.free k := le_max_right ..
    exact .inr (by omega)

/-- The one who posts the mutex has had it. -/
theorem PcInv.mutex_free (h : PcInv pw cw s) {k : PcSem}
    (hholds : s.buffer.producer.holds pw .mutex = 1 ∨ s.buffer.consumer.holds cw .mutex = 1)
    (hk : k = .mutex) : s.sys.free k = 0 := by
  have htok := h.buffer.tokens .mutex
  have hp := s.buffer.producer.holds_nonneg pw .mutex
  have hc := s.buffer.consumer.holds_nonneg cw .mutex
  have hnonneg := h.buffer.free_nonneg .mutex
  rw [hk]
  simp only [Buffer.tokens] at htok
  omega

/-- **The producer's next statement.** -/
theorem PcInv.producerStatement (h : PcInv pw cw s) {sys : SemState PcSem}
    (hcur : s.producer = some s.sys.procs.current) (hfree : SlotFree sys.procs)
    (hs : s.buffer.producer.call.exec s.sys = some sys) :
    ∃ pw' cw', PcInv pw' cw' { s with sys := sys, buffer := s.buffer.producerStep } := by
  obtain rfl : pw = false := h.coupled.runs hcur h.sems.awake.2
  have hidle : s.sys.procs.current ≠ 0 := (h.producer _ hcur).1
  have hf :
      ∀ k, s.buffer.producer.call = .wait k → s.buffer.producerStep.producer.waitsFor = some k := by
    intro k hk
    obtain ⟨a, heq, -, hf, -⟩ := Buffer.producerStep_wait hk
    rw [heq]
    exact hf
  have hm : ∀ k, s.buffer.producer.call = .post k → (s.sys.sems k).mutex = true →
      s.sys.free k = 0 := by
    intro k hk hm
    obtain rfl := (h.kinds k).mp hm
    refine h.mutex_free (.inl ?_) rfl
    cases hp : s.buffer.producer <;> rw [hp] at hk <;> first | rfl | exact nomatch hk
  obtain ⟨hwait, hpost⟩ := h.buffer.producerCall
  obtain ⟨hsched, hsems, hkept, pw', cw', hbuffer, hcoupled⟩ := h.sems.call
    (f := s.buffer.producerStep.producer.waitsFor)
    (B := fun free pw cw => BufferInv free pw cw s.buffer.producerStep) h.sched h.coupled hcur hidle
    hfree h.buffer.producerLocal (fun k hk => ⟨hf k hk, hwait k hk⟩)
    (fun k hk => ⟨h.postSafe k, hm k hk, hpost k hk⟩) hs
  refine ⟨pw', cw', hsched, hsems, fun k => ?_, fun i hi => ?_, fun i hi => ?_, h.main, ?_, hbuffer⟩
  · rw [hkept.mutex]
    exact h.kinds k
  · obtain ⟨h0, hlive⟩ := h.producer i hi
    exact ⟨h0, hkept.live i hlive⟩
  · obtain ⟨h0, hlive⟩ := h.consumer i hi
    exact ⟨h0, hkept.live i hlive⟩
  · simp only [Buffer.consumer_producerStep]
    exact hcoupled

/-- **The consumer's next statement.** -/
theorem PcInv.consumerStatement (h : PcInv pw cw s) {sys : SemState PcSem}
    (hcur : s.consumer = some s.sys.procs.current) (hfree : SlotFree sys.procs)
    (hs : s.buffer.consumer.call.exec s.sys = some sys) :
    ∃ pw' cw', PcInv pw' cw' { s with sys := sys, buffer := s.buffer.consumerStep } := by
  obtain rfl : cw = false := h.coupled.symm.runs hcur h.sems.awake.2
  have hidle : s.sys.procs.current ≠ 0 := (h.consumer _ hcur).1
  have hf :
      ∀ k, s.buffer.consumer.call = .wait k → s.buffer.consumerStep.consumer.waitsFor = some k := by
    intro k hk
    obtain ⟨a, heq, -, -, hf, -⟩ := Buffer.consumerStep_wait hk
    rw [heq]
    exact hf
  have hm : ∀ k, s.buffer.consumer.call = .post k → (s.sys.sems k).mutex = true →
      s.sys.free k = 0 := by
    intro k hk hm
    obtain rfl := (h.kinds k).mp hm
    refine h.mutex_free (.inr ?_) rfl
    cases hp : s.buffer.consumer <;> rw [hp] at hk <;> first | rfl | exact nomatch hk
  obtain ⟨hwait, hpost⟩ := h.buffer.consumerCall
  obtain ⟨hsched, hsems, hkept, cw', pw', hbuffer, hcoupled⟩ := h.sems.call
    (f := s.buffer.consumerStep.consumer.waitsFor)
    (B := fun free cw pw => BufferInv free pw cw s.buffer.consumerStep) h.sched h.coupled.symm hcur
    hidle hfree h.buffer.consumerLocal (fun k hk => ⟨hf k hk, hwait k hk⟩)
    (fun k hk => ⟨h.postSafe k, hm k hk, hpost k hk⟩) hs
  refine ⟨pw', cw', hsched, hsems, fun k => ?_, fun i hi => ?_, fun i hi => ?_, h.main, ?_, hbuffer⟩
  · rw [hkept.mutex]
    exact h.kinds k
  · obtain ⟨h0, hlive⟩ := h.producer i hi
    exact ⟨h0, hkept.live i hlive⟩
  · obtain ⟨h0, hlive⟩ := h.consumer i hi
    exact ⟨h0, hkept.live i hlive⟩
  · simp only [Buffer.producer_consumerStep]
    exact hcoupled.symm

/-- The processes change, and who waits for what stays. -/
theorem PcInv.procs (h : PcInv pw cw s) {p : Procs} (hsched : SchedInv p)
    (hsems : SemInv { s.sys with procs := p })
    (hwho : ∀ i, (p.pcb_table i).block_sem_index = s.sys.who i)
    (hlive : ∀ i, (s.sys.procs.pcb_table i).status ≠ -1 → (p.pcb_table i).status ≠ -1) :
    PcInv pw cw { s with sys := { s.sys with procs := p } } := by
  refine ⟨hsched, hsems, h.kinds, fun i hi => ?_, fun i hi => ?_, h.main, ?_, h.buffer⟩
  · obtain ⟨h0, hi'⟩ := h.producer i hi
    exact ⟨h0, hlive i hi'⟩
  · obtain ⟨h0, hi'⟩ := h.consumer i hi
    exact ⟨h0, hlive i hi'⟩
  · have heq : SemState.who { s.sys with procs := p } = s.sys.who := funext hwho
    rw [heq]
    exact h.coupled

/-- A time slice ends, or the timer ticks. -/
theorem PcInv.tick (h : PcInv pw cw s) {e : SemEvent PcSem} {sys : SemState PcSem}
    (he : e = .timeSlice ∨ e = .timer ∧ NoWakeup s.sys.index s.sys.procs.pcb_table)
    (hs : semStep s.sys e = some sys) : PcInv pw cw { s with sys := sys } := by
  have hend : EndOfTable s.sys.procs := by
    have := h.sched.lt
    exact fun h99 => absurd h99 (by omega)
  have hsafe : SemSafe s.sys e := by
    refine ⟨?_, fun _ => hend⟩
    rcases he with rfl | ⟨rfl, -⟩ <;> exact nofun
  have hkept := h.sems.kept hsafe hs
  have hallowed : e.Allowed s.sys := by
    rcases he with rfl | ⟨rfl, hwake⟩
    · exact trivial
    · exact hwake
  have hsems := h.sems.step hsafe ⟨hallowed, hs⟩
  rcases he with rfl | ⟨rfl, hwake⟩
  · obtain ⟨p, hp, rfl⟩ := Option.map_eq_some_iff.mp hs
    obtain ⟨-, -, hwho⟩ := h.sems.table.timeSlice h.sems.awake hend hp
    exact h.procs (h.sched.timeSlice hp) hsems hwho hkept.live
  · obtain ⟨p, hp, rfl⟩ := Option.map_eq_some_iff.mp hs
    obtain ⟨-, -, hwho⟩ := h.sems.table.timerTick h.sems.awake (fun _ => hend) hwake hp
    exact h.procs (h.sched.timer.2 p hp) hsems hwho hkept.live

/-- The slot that `create_thread` takes, and the process table after it. -/
theorem PcInv.newThread (h : PcInv pw cw s) {cr3 : UInt32} {garbage : ℤ}
    (hfree : SlotFree (createThread cr3 garbage s.sys.procs)) :
    ∃ c, getPcbOr garbage s.sys.procs.pcb_table = c ∧ c ≠ 0 ∧
      (s.sys.procs.pcb_table c).status = -1 ∧
      ((createThread cr3 garbage s.sys.procs).pcb_table c).status ≠ -1 ∧
      (¬∃ k, s.sys.numbers k =
        ((createThread cr3 garbage s.sys.procs).pcb_table c).block_sem_index) ∧
      PcInv pw cw { s with sys :=
        { s.sys with procs := createThread cr3 garbage s.sys.procs } } := by
  have hsched := h.sched.createThread hfree
  obtain ⟨i, hi, hlt, hi'⟩ := h.sched.slotFree
  obtain ⟨c, hc⟩ := exists_getPcb hi hlt hi'
  obtain ⟨hc0, hclt, hcfree, -⟩ := getPcb_eq_some hc
  have hslot : getPcbOr garbage s.sys.procs.pcb_table = c := by rw [getPcbOr, hc]; rfl
  obtain ⟨q, hready, hown, -, heq⟩ := @createThread_eq s.sys.procs cr3 garbage c hc
  have hwho : ∀ i, ((createThread cr3 garbage s.sys.procs).pcb_table i).block_sem_index =
      s.sys.who i := block_sem_index_newProcess _ _ cr3 s.sys.procs
  have hself : (createThread cr3 garbage s.sys.procs).pcb_table c = q := by
    rw [heq]
    exact Function.update_self ..
  have hother : ∀ i, i ≠ c →
      (createThread cr3 garbage s.sys.procs).pcb_table i = s.sys.procs.pcb_table i := by
    intro i hic
    rw [heq]
    exact Function.update_of_ne hic ..
  obtain ⟨hnot, htable⟩ := h.sems.table.newProcess hc0 hclt hcfree hown
    ((congrArg PCB.block_sem_index hself).symm.trans (hwho c))
  have hne : s.sys.procs.current ≠ c := by
    rintro rfl
    exact h.sched.runs.2 hcfree
  have hlive : ((createThread cr3 garbage s.sys.procs).pcb_table c).status ≠ -1 := by
    rw [hself, hready]
    decide
  refine ⟨c, hslot, ?_, hcfree, hlive, ?_, ?_⟩
  · rintro rfl
    exact h.sems.table.idle.1 hcfree
  · rw [hwho]
    exact hnot
  · refine h.procs hsched (h.sems.procs ?_ ?_ hwho) hwho fun i hi => ?_
    · rw [heq]
      exact htable
    · have hcurrent : (createThread cr3 garbage s.sys.procs).current = s.sys.procs.current := by
        rw [heq]
      have hcur : (createThread cr3 garbage s.sys.procs).cur = s.sys.procs.cur := by
        rw [Procs.cur, hcurrent]
        exact hother _ hne
      obtain ⟨⟨hnonneg, hlt, hlive⟩, hawake⟩ := h.sems.awake
      exact ⟨⟨hcurrent ▸ hnonneg, hcurrent ▸ hlt, hcur ▸ hlive⟩, hcur ▸ hawake⟩
    · rcases eq_or_ne i c with rfl | hic
      · exact hlive
      · rwa [hother i hic]

/-- **`create_thread`** -/
theorem PcInv.create (h : PcInv pw cw s) {cr3 : UInt32} {garbage : ℤ}
    (hs : s.create cr3 garbage = some s') (hfree : SlotFree s'.sys.procs) : PcInv pw cw s' := by
  rw [PcState.create] at hs
  cases hm : s.main with
  | createProducer =>
    rw [hm] at hs
    obtain rfl := Option.some.inj hs
    obtain ⟨c, hslot, hc0, -, hlive, hnot, hnew⟩ := h.newThread hfree
    have hnone := h.main.1 hm
    have hnone' := h.main.2 (.inl hm)
    have hcoupled := hnew.coupled.create (c := c) hnone (by rw [hnone']; exact nofun) hnot
    refine ⟨hnew.sched, hnew.sems, h.kinds, fun i hi => ?_, hnew.consumer, ⟨nofun, fun _ => hnone'⟩,
      ?_, h.buffer⟩
    · obtain rfl : c = i := hslot.symm.trans (Option.some.inj hi)
      exact ⟨hc0, hlive⟩
    · simp only [hslot]
      exact hcoupled
  | createConsumer =>
    rw [hm] at hs
    obtain rfl := Option.some.inj hs
    obtain ⟨c, hslot, hc0, hcfree, hlive, hnot, hnew⟩ := h.newThread hfree
    have hnone := h.main.2 (.inr hm)
    have hne : s.producer ≠ some c := fun hp => (h.producer c hp).2 hcfree
    have hcoupled := (hnew.coupled.symm.create (c := c) hnone hne hnot).symm
    refine ⟨hnew.sched, hnew.sems, h.kinds, hnew.producer, fun i hi => ?_, ⟨nofun, ?_⟩, ?_,
      h.buffer⟩
    · obtain rfl : c = i := hslot.symm.trans (Option.some.inj hi)
      exact ⟨hc0, hlive⟩
    · rintro (hm | hm) <;> exact nomatch hm
    · simp only [hslot]
      exact hcoupled
  | loop =>
    rw [hm] at hs
    exact absurd hs nofun

/-- **One step.** -/
theorem PcInv.step (h : PcInv pw cw s) {e : PcEvent} (hstep : PcStep s e s') :
    ∃ pw' cw', PcInv pw' cw' s' := by
  obtain ⟨hwake, hs, hfree⟩ := hstep
  cases e with
  | statement =>
    rw [pcStep] at hs
    split at hs
    · next hcur =>
      obtain ⟨sys, hsys, rfl⟩ := Option.map_eq_some_iff.mp hs
      exact h.producerStatement hcur hfree hsys
    · split at hs
      · next hcur =>
        obtain ⟨sys, hsys, rfl⟩ := Option.map_eq_some_iff.mp hs
        exact h.consumerStatement hcur hfree hsys
      · exact absurd hs nofun
  | create cr3 garbage =>
    rw [pcStep] at hs
    split at hs
    · exact ⟨pw, cw, h.create hs hfree⟩
    · exact absurd hs nofun
  | timeSlice =>
    obtain ⟨sys, hsys, rfl⟩ := Option.map_eq_some_iff.mp hs
    exact ⟨pw, cw, h.tick (.inl rfl) hsys⟩
  | timer =>
    obtain ⟨sys, hsys, rfl⟩ := Option.map_eq_some_iff.mp hs
    exact ⟨pw, cw, h.tick (.inr ⟨rfl, hwake rfl⟩) hsys⟩

end Program

/-! ## All runs -/

section Start

variable {sem_count : ℤ} {p : Procs}

/-- The order in which `pc_main` sets the semaphores up. -/
def PcSem.offset : PcSem → ℤ
  | .mutex => 0
  | .empty => 1
  | .full => 2

/-- The values that `pc_main` gives them. -/
def PcSem.initial : PcSem → ℤ
  | .mutex => 1
  | .empty => item_num
  | .full => 0

theorem numbers_pcMain (h : PcStart sem_count p) (items : ℤ → ℤ) (load : ℤ) (k : PcSem) :
    (pcMain sem_count p items load).sys.numbers k = sem_count + k.offset := by
  obtain ⟨hlo, hhi⟩ := h.range
  have h1 : int32 (sem_count + 1) = sem_count + 1 := int32_eq (by omega) (by omega)
  have h2 : int32 (sem_count + 1 + 1) = sem_count + 2 := by
    rw [int32_eq (by omega) (by omega)]
    omega
  cases k
  · exact (add_zero sem_count).symm
  · exact h1
  · show int32 (int32 (sem_count + 1) + 1) = sem_count + 2
    rw [h1, h2]

theorem PcStart.semStart (h : PcStart sem_count p) (items : ℤ → ℤ) (load : ℤ) :
    SemStart (pcMain sem_count p items load).sys := by
  have hnumbers := numbers_pcMain h items load
  obtain ⟨hlo, hhi⟩ := h.range
  have hnonneg : ∀ k, sem_count ≤ (pcMain sem_count p items load).sys.numbers k := fun k => by
    rw [hnumbers]
    cases k <;> simp only [PcSem.offset] <;> omega
  refine ⟨⟨PcSem.initial, fun k => decide (k = .mutex),
    (pcMain sem_count p items load).sys.numbers, ?_, fun k => ?_⟩, fun k i hi hlt heq => ?_, ?_, ?_,
    ?_⟩
  · intro k k' hkk
    rw [hnumbers, hnumbers] at hkk
    cases k <;> cases k' <;> first | rfl | (simp only [PcSem.offset] at hkk; omega)
  · have := hnonneg k
    refine ⟨by omega, ?_, ?_⟩
    · cases k <;> decide
    · cases k <;> rfl
  · have hlt' := h.unused i hi hlt
    have hge := hnonneg k
    have heq : (p.pcb_table i).block_sem_index = (pcMain sem_count p items load).sys.numbers k :=
      heq
    omega
  · exact fun i hi hlt hlive => (h.sched.slots i hi hlt).home (.inl hlive)
  · exact ((h.sched.slots 0 (Int.le_refl 0) (by decide)).idle rfl).1
  · exact ⟨h.sched.inTable.1, h.sched.inTable.2, h.sched.runs.2⟩

/-- **The state in which the first thread is created.** -/
theorem PcStart.inv (h : PcStart sem_count p) (items : ℤ → ℤ) (load : ℤ) :
    PcInv false false (pcMain sem_count p items load) := by
  have hstart := h.semStart items load
  have hnobody : ¬∃ i, (none : Option ℤ) = some i ∧ (pcMain sem_count p items load).sys.index
      ((pcMain sem_count p items load).sys.who i) := by
    rintro ⟨i, hi, -⟩
    exact Option.some_ne_none i hi.symm
  have hnone : Slot (pcMain sem_count p items load).sys.procs none := fun i hi =>
    absurd hi.symm (Option.some_ne_none i)
  refine ⟨h.sched, hstart.inv, fun k => ?_, hnone, hnone, ⟨fun _ => rfl, fun _ => rfl⟩,
    ⟨fun i hi => absurd hi.symm (Option.some_ne_none i), ?_, ?_, fun i k hi hlt hik =>
      absurd hik (hstart.unused k i hi hlt)⟩, ?_⟩
  · cases k <;> simp [pcMain, semInit]
  · exact iff_of_false Bool.false_ne_true hnobody
  · exact iff_of_false Bool.false_ne_true hnobody
  · have hclear : ∀ j : ℤ, 0 ≤ j → j < 10 →
        (pcMain sem_count p items load).buffer.items j = 0 := fun j hj hlt => if_pos ⟨hj, hlt⟩
    refine ⟨fun k => le_max_left _ _, fun k => ?_,
      ⟨Int.le_refl 0, (by decide : (0 : ℤ) ≤ item_num), rfl⟩,
      ⟨Int.le_refl 0, (by decide : (0 : ℤ) ≤ item_num), rfl⟩, fun hl => (by cases hl),
      fun n _ _ => ?_, ?_⟩
    · cases k <;> rfl
    · exact hclear _ (slotOf_bounds n).1 (slotOf_bounds n).2
    · have hzero : ones (pcMain sem_count p items load).buffer.items = 0 := by
        rw [ones, refs_eq_zero]
        intro n hn
        rw [Finset.mem_range] at hn
        rw [hclear n (by omega) (by omega)]
        decide
      rw [hzero]
      rfl

end Start

/-- **The bounded buffer.** In every state that is reached by the threads that `pc_main` starts, in
whatever order they run, at most one of them is between `sem_wait(&mutex)` and `sem_post(&mutex)`;
while none is, every slot holds 0 or 1 and there are as many ones as items produced and not yet
consumed; and the producer stores into a slot that holds 0, and the consumer takes from one that
holds 1. -/
theorem boundedBuffer (sem_count : ℤ) (p : Procs) (items : ℤ → ℤ) (load : ℤ) (l : List PcEvent)
    (s : PcState) (h : PcStart sem_count p)
    (hrun : Run PcStep (pcMain sem_count p items load) l s) : PcSafe s := by
  have hinv : ∃ pw cw, PcInv pw cw s := by
    refine Run.invariant (I := fun s => ∃ pw cw, PcInv pw cw s) (fun s e s' hinv hstep => ?_) hrun
      ⟨false, false, h.inv items load⟩
    obtain ⟨pw, cw, hinv⟩ := hinv
    exact hinv.step hstep
  obtain ⟨pw, cw, hinv⟩ := hinv
  exact ⟨pw, cw, hinv.coupled.first, hinv.coupled.second, hinv.buffer.safe⟩

/-! ### The first item -/

/-- The game runs, and there are no other processes. -/
def gameRuns : Procs := ⟨slotTable [idlePcb, { gamePcb with status := Running }], 1⟩

theorem gameRuns_slot (i : ℤ) : i = 0 ∨ i = 1 ∨ gameRuns.pcb_table i = freePcb := by
  by_cases hi : 0 ≤ i ∧ i < 2
  · omega
  · exact .inr (.inr (slotTable_free hi))

theorem schedInv_gameRuns : SchedInv gameRuns := by
  refine ⟨by decide, by decide, fun i hi hlt => ?_, fun i hi hlt hrun => ?_, by decide⟩
  · rcases gameRuns_slot i with rfl | rfl | hfree
    · exact ⟨fun _ => rfl, fun _ => ⟨Int.le_refl 0, (by decide : (0 : ℤ) ≤ 10)⟩,
        fun _ => ⟨(by decide : New ≠ -1), (by decide : New ≠ Blocked), rfl⟩, nofun⟩
    · exact ⟨fun _ => rfl, fun _ => ⟨Int.le_refl 0, (by decide : (0 : ℤ) ≤ 10)⟩, nofun, nofun⟩
    · rw [hfree]
      refine ⟨fun h => absurd h (by decide), fun h => absurd rfl h, fun h0 => ?_,
        fun _ => ⟨rfl, rfl⟩⟩
      rw [h0] at hfree
      exact absurd (congrArg PCB.status hfree) (by decide : New ≠ -1)
  · rcases gameRuns_slot i with rfl | rfl | hfree
    · exact absurd hrun (by decide : New ≠ Running)
    · rfl
    · rw [hfree] at hrun
      exact absurd hrun (by decide : (-1 : ℤ) ≠ Running)

theorem pcStart_gameRuns : PcStart 0 gameRuns := by
  refine ⟨schedInv_gameRuns, by decide, by decide, fun i _ _ => ?_⟩
  rcases gameRuns_slot i with rfl | rfl | hfree
  · exact (by decide : (-1 : ℤ) < 0)
  · exact (by decide : (-1 : ℤ) < 0)
  · rw [hfree]
    exact (by decide : (-1 : ℤ) < 0)

/-- A step without the timer, after which slot 99 is free. -/
def pcStepFree (s : PcState) : PcEvent → Option PcState
  | .timer => none
  | e => (pcStep s e).filter fun s' => (s'.sys.procs.pcb_table 99).status = -1

theorem PcStep.of_pcStepFree {s s' : PcState} {e : PcEvent} (h : pcStepFree s e = some s') :
    PcStep s e s' := by
  have htimer : e ≠ .timer := by
    rintro rfl
    exact Option.some_ne_none s' h.symm
  have hfilter : (pcStep s e).filter (fun s' => (s'.sys.procs.pcb_table 99).status = -1) =
      some s' := by
    cases e <;> first | exact h | exact absurd rfl htimer
  obtain ⟨hstep, hfree⟩ := Option.filter_eq_some_iff.mp hfilter
  exact ⟨fun he => absurd he htimer, hstep, 99, by decide, by decide, of_decide_eq_true hfree⟩

/-- Both threads are created, the consumer finds no item and is blocked, the producer stores one,
and the consumer takes it. -/
def itemEvents : List PcEvent :=
  [.create 0 0, .create 0 0, .timeSlice, .timeSlice, .statement, .timeSlice] ++
    List.replicate 7 .statement ++ [.timeSlice] ++ List.replicate 7 .statement

/-- One item goes through the buffer. -/
theorem boundedBuffer_item :
    ∃ s, PcStart 0 gameRuns ∧ Run PcStep (pcMain 0 gameRuns (fun _ => 0) 0) itemEvents s ∧
      s.buffer.produced = 1 ∧ s.buffer.consumed = 1 ∧ PcSafe s := by
  have heval : ((itemEvents.foldlM pcStepFree (pcMain 0 gameRuns (fun _ => 0) 0)).map fun s =>
      (s.buffer.produced, s.buffer.consumed)) = some (1, 1) := by decide +kernel
  obtain ⟨s, hs, hcount⟩ := Option.map_eq_some_iff.mp heval
  obtain ⟨hproduced, hconsumed⟩ := Prod.mk.inj hcount
  have hrun : Run PcStep (pcMain 0 gameRuns (fun _ => 0) 0) itemEvents s :=
    (Run.of_foldlM hs).mono fun _ _ _ => PcStep.of_pcStepFree
  exact ⟨s, pcStart_gameRuns, hrun, hproduced, hconsumed,
    boundedBuffer 0 gameRuns _ 0 _ _ pcStart_gameRuns hrun⟩

end OsLab

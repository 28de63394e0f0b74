import Mathlib.Data.Int.Interval
import OsLab.Memory.GameSpace
import OsLab.Process.System

/-!
# Who owns the address spaces

What the calls do to the processes and their address spaces together (`SpacesInv`). The invariant is
relative to a set of processes that have made a thread (`creators`), which nothing in the kernel
looks at: `process_exit` gives back the memory of a process that shares it with a thread like that
of any other.

A process takes more than 1024 pages, so that there are never more than 32 besides the idle process,
and `get_pcb` always finds a slot.

## Main definitions

* `Procs.live` — the slots of processes that have pages of their own: all but the idle process
* `Procs.dir` — the page of a process's directory
* `soleSlots` — the slots whose process may exit
* `SpacesInv` — the address spaces of the processes that live, and the pages on the free list
* `SameProcs` — nobody was born, exited or got another address space
* `NewIn` — a process has been made in slot `c`, which was free

## Main results

* `SameProcs.change` — the calls that neither make nor end a process
* `SpacesInv.fork`, `SpacesInv.createThread`, `SpacesInv.exit` — those that do
* `SpacesInv.slotFree` — the process table is never full
-/

namespace OsLab

/-- `release_sem` readies a process that is there, if any. -/
def ReadiesLive (sem : Sem) (p : Procs) : Prop :=
  ∀ i, 0 ≤ i → i < MAX_PCB → (p.pcb_table i).status = -1 →
    (releaseSem sem.sem_index p.pcb_table i).status = -1

/-- A semaphore call readies a process that is there. -/
def SystemCall.ReadiesLive (p : Procs) : SystemCall → Prop
  | semPost sem => sem.Releases → OsLab.ReadiesLive sem p
  | semDestroy sem => OsLab.ReadiesLive sem p
  | _ => True

/-! ## Address spaces -/

/-- The slots of processes that have pages of their own: all but the idle process. -/
def Procs.live (p : Procs) : Set ℤ := {i | 0 < i ∧ i < MAX_PCB ∧ (p.pcb_table i).status ≠ -1}

/-- The page of a process's directory. -/
def Procs.dir (p : Procs) (i : ℤ) : ℕ := PGNUM (p.pcb_table i).cr3

/-- The slots whose process may exit. -/
def soleSlots (Q : ℤ → Prop) (creators : Finset ℤ) (p : Procs) : Set ℤ :=
  {i | Q (p.pcb_table i).pid ∧ i ∉ creators}

/-- **The address spaces of the processes** that live, and the pages on the free list. -/
structure SpacesInv (Q : ℤ → Prop) (R : Reserve) (creators : Finset ℤ) (k : Core) : Prop where
  idle : (k.procs.pcb_table 0).cr3 = page2pa R.kpdir
  aligned : ∀ i ∈ k.procs.live, PTE_ADDR (k.procs.pcb_table i).cr3 = (k.procs.pcb_table i).cr3
  owned : ∃ l, Owned R k.mem l k.procs.live (soleSlots Q creators k.procs) k.procs.dir

/-! ## The same processes -/

/-- The PCB is that of the same process, with the same address space. -/
structure SamePcb (q r : PCB) : Prop where
  cr3 : r.cr3 = q.cr3
  pid : r.pid = q.pid
  free : r.status = -1 ↔ q.status = -1

/-- Nobody was born, exited or got another address space. -/
def SameProcs (p p' : Procs) : Prop := ∀ i, SamePcb (p.pcb_table i) (p'.pcb_table i)

section Same

variable {Q : ℤ → Prop} {R : Reserve} {creators : Finset ℤ} {p p' p'' : Procs} {m : Memory}
  {i : ℤ} {f : PCB → PCB} {c : SystemCall} {q r : PCB}

theorem SamePcb.refl (q : PCB) : SamePcb q q := ⟨rfl, rfl, Iff.rfl⟩

theorem SameProcs.refl (p : Procs) : SameProcs p p := fun _ => .refl _

theorem SameProcs.trans (h : SameProcs p p') (h' : SameProcs p' p'') : SameProcs p p'' := fun i =>
  ⟨(h' i).cr3.trans (h i).cr3, (h' i).pid.trans (h i).pid, (h' i).free.trans (h i).free⟩

theorem SameProcs.modify (h : SamePcb (p.pcb_table i) (f (p.pcb_table i))) :
    SameProcs p (p.modify i f) := fun j => by
  rcases eq_or_ne j i with rfl | hne
  · rw [p.pcb_table_modify_self]
    exact h
  · rw [p.pcb_table_modify_of_ne f hne]
    exact .refl _

/-- A process that is there gets another status, which does not say that it is gone. -/
theorem SamePcb.of_live (hq : q.status ≠ -1) (hr : r.status ≠ -1) (hcr3 : r.cr3 = q.cr3)
    (hpid : r.pid = q.pid) : SamePcb q r :=
  ⟨hcr3, hpid, iff_of_false hr hq⟩

theorem SameProcs.schedule (h : schedule p = some p') : SameProcs p p' := fun i => by
  refine ⟨schedule_frame (g := PCB.cr3) (fun q s => rfl) h i,
    schedule_frame (g := PCB.pid) (fun q s => rfl) h i, ?_⟩
  rcases schedule_status h i with heq | ⟨hready, hrun⟩
  · rw [heq]
  · rw [hready, hrun]
    exact iff_of_false (by decide) (by decide)

theorem SameProcs.wakeup (p : Procs) :
    SameProcs p { p with pcb_table := wakeup p.pcb_table } := fun i => by
  show SamePcb (p.pcb_table i) (OsLab.wakeup p.pcb_table i)
  rcases wakeup_cases p.pcb_table i with heq | ⟨hblocked, heq⟩ <;> rw [heq]
  · exact .refl _
  · refine .of_live (by rw [hblocked]; decide) ?_ rfl rfl
    dsimp only
    split <;> decide

theorem SameProcs.semDestroy {sem : Sem} (h : ReadiesLive sem p) :
    SameProcs p (semDestroy sem p) := fun i => by
  have hready := h i
  rw [OsLab.semDestroy]
  dsimp only
  rcases releaseSem_cases sem.sem_index p.pcb_table with ⟨heq, -⟩ | ⟨j, hj, hlt, -, heq⟩ <;>
    rw [heq] at hready ⊢
  · exact .refl _
  · rcases eq_or_ne i j with rfl | hne
    · rw [Function.update_self] at hready ⊢
      refine .of_live (fun hdead => ?_) (by decide : Ready ≠ -1) rfl rfl
      exact absurd (hready hj hlt hdead) (by decide : Ready ≠ -1)
    · rw [Function.update_of_ne hne]
      exact .refl _

/-- The calls that neither make nor end a process. -/
theorem SameProcs.change (h : SchedInv p) (hready : c.ReadiesLive p)
    (hfork : ∀ garbage, c ≠ .fork garbage) (hthread : ∀ garbage, c ≠ .createThread garbage)
    (hexit : c ≠ .exit) : SameProcs p ((c.sched 0).change p) := by
  have hcur := h.runs.2
  cases c with
  | fork garbage => exact absurd rfl (hfork garbage)
  | createThread garbage => exact absurd rfl (hthread garbage)
  | exit => exact absurd rfl hexit
  | timer =>
    have hw := SameProcs.wakeup p
    have hlive := h.wakeup.runs.2
    have hhome := h.wakeup.cur_home
    show SameProcs p (SchedCall.timer.change p)
    rw [SchedCall.change]
    dsimp only
    split
    · rw [hhome]
      exact hw.trans (.modify (.of_live hlive (by decide : Ready ≠ -1) rfl rfl))
    · exact hw.trans (.modify ⟨rfl, rfl, Iff.rfl⟩)
  | sleep time =>
    exact .modify (f := fun q => { q with status := Blocked, sleep_time := time }) <|
      .of_live hcur (by decide : Blocked ≠ -1) rfl rfl
  | semTrywait sem =>
    exact .modify (f := fun q => { q with eax := (OsLab.semTrywait sem).2 }) ⟨rfl, rfl, Iff.rfl⟩
  | semWait sem =>
    show SameProcs p (if sem.Blocks then blockOn sem.sem_index p else p)
    split
    · exact .modify (.of_live hcur (by decide : Blocked ≠ -1) rfl rfl)
    · exact .refl _
  | semPost sem =>
    show SameProcs p (if sem.Releases then OsLab.semDestroy sem p else p)
    split
    · next hreleases => exact .semDestroy (hready hreleases)
    · exact .refl _
  | semDestroy sem => exact .semDestroy hready

/-- What a call comes to when its `schedule` is left out. -/
theorem SystemCall.exec_same {kstack : ℤ → UInt32} {s s' : System}
    (h : c.exec kstack s = some s') :
    ∃ k, c.change s.core = some k ∧ s'.core.mem = k.mem ∧ SameProcs k.procs s'.core.procs := by
  obtain ⟨k, hk, hrest⟩ := SystemCall.exec_cases h
  refine ⟨k, hk, ?_⟩
  rcases hrest with ⟨-, hsched⟩ | ⟨-, rfl⟩
  · exact ⟨(System.schedule_cases hsched).1, .schedule (System.schedule_some hsched)⟩
  · exact ⟨rfl, .refl _⟩

theorem SameProcs.live (h : SameProcs p p') : p'.live = p.live := by
  ext i
  exact and_congr_right fun _ => and_congr_right fun _ => not_congr (h i).free

/-- What the invariant says is about processes, not about who runs. -/
theorem SpacesInv.same (h : SpacesInv Q R creators ⟨p, m⟩) (hsame : SameProcs p p') :
    SpacesInv Q R creators ⟨p', m⟩ := by
  obtain ⟨l, howned⟩ := h.owned
  dsimp only at howned
  refine ⟨(hsame 0).cr3.trans h.idle, fun i hi => ?_, l,
    howned.mono hsame.live.le (fun i hi hs => ?_) fun i hi => ?_⟩
  · dsimp only at hi ⊢
    rw [hsame.live] at hi
    rw [(hsame i).cr3]
    exact h.aligned i hi
  · exact ⟨(hsame i).pid ▸ hs.1, hs.2⟩
  · exact congrArg PGNUM (hsame i).cr3

end Same

/-! ## Calls -/

section Calls

variable {Q : ℤ → Prop} {R : Reserve} {creators creators' : Finset ℤ} {k k' : Core} {l : List ℕ}
  {garbage c pid : ℤ} {p p' : Procs} {u : UInt32}

/-- A process has been made in slot `c`, which was free. -/
structure NewIn (c pid : ℤ) (cr3 : UInt32) (p p' : Procs) : Prop where
  inTable : 0 < c ∧ c < MAX_PCB
  free : (p.pcb_table c).status = -1
  status : (p'.pcb_table c).status ≠ -1
  pid : (p'.pcb_table c).pid = pid
  cr3 : (p'.pcb_table c).cr3 = cr3
  other : ∀ i, i ≠ c → SamePcb (p.pcb_table i) (p'.pcb_table i)

theorem NewIn.notMem (h : NewIn c pid u p p') : c ∉ p.live := fun hc => hc.2.2 h.free

theorem NewIn.live (h : NewIn c pid u p p') : p'.live = insert c p.live := by
  ext i
  rw [Set.mem_insert_iff]
  rcases eq_or_ne i c with rfl | hne
  · exact iff_of_true ⟨h.inTable.1, h.inTable.2, h.status⟩ (.inl rfl)
  · rw [or_iff_right hne]
    exact and_congr_right fun _ => and_congr_right fun _ => not_congr (h.other i hne).free

theorem NewIn.dir (h : NewIn c pid u p p') :
    ∀ i ∈ p'.live, p'.dir i = Function.update p.dir c (PGNUM u) i := fun i _ => by
  rcases eq_or_ne i c with rfl | hne
  · rw [Function.update_self, Procs.dir, h.cr3]
  · rw [Function.update_of_ne hne, Procs.dir, (h.other i hne).cr3, Procs.dir]

/-- Only the new process and the creator may have become another's. -/
theorem NewIn.sole (h : NewIn c pid u p p') (hcreators : creators.erase c ⊆ creators') :
    ∀ i ∈ soleSlots Q creators' p', i ≠ c → i ∈ soleSlots Q creators p := fun i hi hne => by
  refine ⟨(h.other i hne).pid ▸ hi.1, fun hmem => hi.2 (hcreators ?_)⟩
  exact Finset.mem_erase.mpr ⟨hne, hmem⟩

theorem NewIn.spaces {m m' : Memory} {d : ℕ} (h : NewIn c pid (page2pa d) p p')
    (hinv : SpacesInv Q R creators ⟨p, m⟩) (hd : d < npages) {l' : List ℕ}
    (howned : Owned R m' l' (insert c p.live) (soleSlots Q creators' p')
      (Function.update p.dir c d)) : SpacesInv Q R creators' ⟨p', m'⟩ := by
  have hd20 : d < 2 ^ 20 := Nat.lt_trans hd (by decide)
  refine ⟨(h.other 0 h.inTable.1.ne).cr3.trans hinv.idle, fun i hi => ?_, l',
    howned.mono h.live.le (fun _ _ hs => hs) fun i hi => ?_⟩
  · dsimp only at hi ⊢
    rw [h.live] at hi
    rcases hi with rfl | hi
    · rw [h.cr3, PTE_ADDR_eq, PGNUM_page2pa hd20]
    · have hne : i ≠ c := fun heq => h.notMem (heq ▸ hi)
      rw [(h.other i hne).cr3]
      exact hinv.aligned i hi
  · rw [h.dir i hi, PGNUM_page2pa hd20]

/-- The running process is one of those that have an address space. -/
theorem SchedInv.current_mem (h : SchedInv p) (hcur : p.current ≠ 0) : p.current ∈ p.live := by
  have hnonneg := h.nonneg
  exact ⟨by omega, h.inTable.2, h.runs.2⟩

theorem SchedInv.idle_live (h : SchedInv p) : (p.pcb_table 0).status ≠ -1 :=
  ((h.slots 0 (Int.le_refl 0) (by decide)).idle rfl).1

/-- **The slot of a child.** -/
theorem SchedInv.forkChild_new (h : SchedInv p) (garbage : ℤ) (cr3 : UInt32) :
    NewIn (forkSlot garbage p) (-1) cr3 p (forkChild cr3 garbage p) ∧
      forkSlot garbage p ≠ p.current := by
  have hcaller : SameProcs p (forkCaller p) :=
    .modify (.of_live h.runs.2 (by decide : Ready ≠ -1) rfl rfl)
  obtain ⟨i, hi, hlt, hfree⟩ := h.slotFree
  obtain ⟨c, hc⟩ := exists_getPcb hi hlt ((hcaller i).free.mpr hfree)
  obtain ⟨hc0, hclt, hcfree, -⟩ := getPcb_eq_some hc
  have hcfree := (hcaller c).free.mp hcfree
  have hslot : forkSlot garbage p = c := by rw [forkSlot, getPcbOr, hc]; rfl
  have hne0 : c ≠ 0 := by
    rintro rfl
    exact h.idle_live hcfree
  rw [forkChild, hslot]
  refine ⟨⟨⟨by omega, hclt⟩, hcfree, ?_, ?_, ?_, fun j hj => ?_⟩, ?_⟩
  · rw [Procs.pcb_table_modify_self, newProcess, Procs.pcb_table_modify_self]
    exact (by decide : Ready ≠ -1)
  · rw [Procs.pcb_table_modify_self, newProcess, Procs.pcb_table_modify_self]
    rfl
  · rw [Procs.pcb_table_modify_self, newProcess, Procs.pcb_table_modify_self]
  · rw [Procs.pcb_table_modify_of_ne _ _ hj, newProcess, Procs.pcb_table_modify_of_ne _ _ hj]
    exact hcaller j
  · rintro rfl
    exact h.runs.2 hcfree

/-- **The slot of a thread.** -/
theorem SchedInv.createThread_new (h : SchedInv p) (garbage : ℤ) (cr3 : UInt32) :
    NewIn (getPcbOr garbage p.pcb_table) (-2) cr3 p (OsLab.createThread cr3 garbage p) ∧
      getPcbOr garbage p.pcb_table ≠ p.current := by
  obtain ⟨i, hi, hlt, hfree⟩ := h.slotFree
  obtain ⟨c, hc⟩ := exists_getPcb hi hlt hfree
  obtain ⟨hc0, hclt, hcfree, -⟩ := getPcb_eq_some hc
  have hslot : getPcbOr garbage p.pcb_table = c := by rw [getPcbOr, hc]; rfl
  have hne0 : c ≠ 0 := by
    rintro rfl
    exact h.idle_live hcfree
  rw [OsLab.createThread, hslot, newProcess]
  refine ⟨⟨⟨by omega, hclt⟩, hcfree, ?_, ?_, ?_, fun j hj => ?_⟩, ?_⟩
  · rw [Procs.pcb_table_modify_self]
    exact (by decide : Ready ≠ -1)
  · rw [Procs.pcb_table_modify_self]
    rfl
  · rw [Procs.pcb_table_modify_self]
  · rw [Procs.pcb_table_modify_of_ne _ _ hj]
    exact .refl _
  · rintro rfl
    exact h.runs.2 hcfree

/-- What the invariant says of the running process. -/
theorem SpacesInv.space (h : SpacesInv Q R creators k) (hcur : k.procs.current ∈ k.procs.live)
    {l : List ℕ} (hl : Owned R k.mem l k.procs.live (soleSlots Q creators k.procs)
      k.procs.dir) :
    Space k.mem k.procs.cur.cr3 ∧
      ∀ x p, pageAt k.mem (PGNUM k.procs.cur.cr3) x = some p → p ∉ l :=
  ⟨⟨h.aligned _ hcur, hl.lt _ hcur⟩, fun _ _ hx => hl.notMem hcur hx⟩

/-- **`process_fork`** -/
theorem SpacesInv.fork (h : SpacesInv Q R creators k) (hs : SchedInv k.procs)
    (hcur : k.procs.current ≠ 0) (hfork : forkCore garbage k = some k') :
    SpacesInv Q R (creators.erase (forkSlot garbage k.procs)) k' := by
  obtain ⟨l, howned⟩ := h.owned
  have hmem := hs.current_mem hcur
  obtain ⟨hspace, hapart⟩ := h.space hmem howned
  have hslot := (hs.forkChild_new garbage 0).2
  rcases forkCore_cases hspace howned.free hapart hslot with
    ⟨d, m, l', hsome, hd, hg⟩ | ⟨hnone, -⟩
  · obtain rfl := Option.some.inj (hsome.symm.trans hfork)
    have hnew := (hs.forkChild_new garbage (page2pa d)).1
    refine hnew.spaces h hd (howned.fork hmem hnew.notMem hg ?_)
    exact hnew.sole subset_rfl
  · exact absurd (hnone.symm.trans hfork).symm (Option.some_ne_none k')

/-- **`create_thread`** -/
theorem SpacesInv.createThread (h : SpacesInv Q R creators k) (hs : SchedInv k.procs)
    (hcur : k.procs.current ≠ 0) (hQ : ¬Q (-2)) (hthread : createThreadCore garbage k = some k') :
    SpacesInv Q R (insert k.procs.current
      (creators.erase (getPcbOr garbage k.procs.pcb_table))) k' := by
  obtain ⟨l, howned⟩ := h.owned
  have hmem := hs.current_mem hcur
  obtain ⟨hspace, hapart⟩ := h.space hmem howned
  have hslot := (hs.createThread_new garbage 0).2
  obtain ⟨d, t, stack, l', hprocs, hfree, htaken, hmade⟩ :=
    createThreadCore_made hspace.aligned hspace.dir_lt howned.free (hapart .dir _ rfl) hslot hthread
  obtain ⟨p', m'⟩ := k'
  dsimp only at hprocs hfree hmade
  subst hprocs
  have hnew := (hs.createThread_new garbage (page2pa d)).1
  have hd : d < npages := howned.free.lt d htaken.dir.1
  refine hnew.spaces h hd (howned.thread hmem hnew.notMem hfree htaken hmade ?_ ?_ ?_)
  · exact hnew.sole (Finset.subset_insert _ _)
  · exact fun hsole => hsole.2 (Finset.mem_insert_self _ _)
  · exact fun hsole => hQ (hnew.pid ▸ hsole.1)

/-- **`process_exit`**, by a process that shares nothing. -/
theorem SpacesInv.exit (h : SpacesInv Q R creators k) (hs : SchedInv k.procs)
    (hcur : k.procs.current ≠ 0) (hQ : Q k.procs.cur.pid) (hsole : k.procs.current ∉ creators) :
    SpacesInv Q R creators (release ⟨SchedCall.exit.change k.procs, k.mem⟩) := by
  obtain ⟨l, howned⟩ := h.owned
  have hmem := hs.current_mem hcur
  obtain ⟨hspace, hapart⟩ := h.space hmem howned
  have hcr3 : ∀ i, ((SchedCall.exit.change k.procs).pcb_table i).cr3 =
      (k.procs.pcb_table i).cr3 :=
    Procs.modify_frame (p := k.procs) (f := PCB.exits) (g := PCB.cr3) fun q => rfl
  have hself : (SchedCall.exit.change k.procs).cur.cr3 = k.procs.cur.cr3 := hcr3 _
  have htree := howned.ownTree hmem ⟨hQ, hsole⟩
  obtain ⟨l', hr⟩ := release_spec (k := ⟨SchedCall.exit.change k.procs, k.mem⟩) howned.free
    (by rw [hself]; exact hspace.aligned) (by rw [hself]; exact htree)
  rw [hself] at hr
  -- the slot is free now, and the other slots are as they were
  have hother : ∀ i, i ≠ k.procs.current →
      (SchedCall.exit.change k.procs).pcb_table i = k.procs.pcb_table i := fun i hne =>
    k.procs.pcb_table_modify_of_ne PCB.exits hne
  have hlive : (SchedCall.exit.change k.procs).live ⊆ k.procs.live \ {k.procs.current} :=
    fun i hi => by
      have hne : i ≠ k.procs.current := by
        rintro rfl
        refine hi.2.2 ?_
        rw [SchedCall.change, Procs.pcb_table_modify_self]
      refine ⟨⟨hi.1, hi.2.1, ?_⟩, hne⟩
      rw [← hother i hne]
      exact hi.2.2
  refine ⟨(hcr3 0).trans h.idle, fun i hi => ?_, l',
    (howned.exit hmem ⟨hQ, hsole⟩ hr).mono hlive (fun i hi hs => ?_)
      fun i _ => congrArg PGNUM (hcr3 i)⟩
  · have haligned := h.aligned i (hlive hi).1
    rwa [← hcr3 i] at haligned
  · exact ⟨hother i (hlive hi).2 ▸ hs.1, hs.2⟩

/-- **The process table is never full.** -/
theorem SpacesInv.slotFree (h : SpacesInv Q R creators k) : SlotFree k.procs := by
  by_contra hfull
  obtain ⟨l, howned⟩ := h.owned
  have hcard := howned.card_le (s := Finset.Ioo 0 100) fun i hi => by
    obtain ⟨hpos, hlt⟩ := Finset.mem_Ioo.mp hi
    exact ⟨hpos, hlt, fun hfree => hfull ⟨i, hpos.le, hlt, hfree⟩⟩
  rw [Int.card_Ioo] at hcard
  omega

end Calls

end OsLab

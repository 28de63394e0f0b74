import OsLab.Process.Boot

/-!
# Whom a semaphore wakes up

`release_sem` takes the first slot that has the number of the semaphore in `block_sem_index`. It
clears the number there, and nobody else does: a process that the timer wakes up while it waits for
a semaphore keeps it, goes on, and may run, sleep or be gone when the semaphore finds it.

The state is extended by the semaphore that each process was blocked on when it was blocked last
(`WaitState.blockedIn`), which is none if it went to sleep. As long as no tick ends the sleeping
time of a process that is blocked in `sem_wait` the numbers in the table are right (`WaitInv`), and
`release_sem` finds the processes that wait.

## Main definitions

* `WaitState` — the processes, and the semaphore whose `sem_wait` has blocked the process in each
  slot
* `WaitState.Waits` — the process in slot `i` is blocked inside `sem_wait` on semaphore `x`
* `NoEarlyWake` — a tick does not end the sleeping time of a process that waits for a semaphore
* `PostsExactly` — `sem_post` changes the status of at most one PCB, and of one that waits for the
  semaphore
* `DestroysExactly` — `sem_destroy` makes every process ready that waits for the semaphore, and
  changes the status of no other
* `WaitInv` — the numbers in the table are right, and the running process is not blocked

## Main results

* `wakesExactly` — in every state that such a run reaches, `sem_post` wakes only a process that
  waits for the semaphore, and `sem_destroy` wakes all of them exactly if there is at most one
-/

namespace OsLab

/-! ## Who is blocked, and where -/

/-- The processes, and the semaphore whose `sem_wait` has blocked the process in each slot. -/
structure WaitState where
  procs : Procs
  blockedIn : ℤ → Option ℤ

/-- The semaphores after a call. -/
def blockedAfter (c : SchedCall) (s : WaitState) : ℤ → Option ℤ :=
  match c with
  | .semWait sem =>
    if sem.Blocks then Function.update s.blockedIn s.procs.current (some sem.sem_index)
    else s.blockedIn
  | .sleep _ => Function.update s.blockedIn s.procs.current none
  | _ => s.blockedIn

/-- A call, and who is blocked in which semaphore after it. -/
def WaitStep (s : WaitState) (c : SchedCall) (s' : WaitState) : Prop :=
  CallStep s.procs c s'.procs ∧ s'.blockedIn = blockedAfter c s

/-- The kernel has started, and nobody has waited yet. -/
def waitStart (kcr3 ucr3 : UInt32) (garbage : ℤ) (t : ℤ → PCB) : WaitState :=
  ⟨initCond kcr3 ucr3 garbage t, fun _ => none⟩

/-- The process in slot `i` is blocked inside `sem_wait` on semaphore `x`. -/
def WaitState.Waits (s : WaitState) (i x : ℤ) : Prop :=
  0 ≤ i ∧ i < MAX_PCB ∧ (s.procs.pcb_table i).status = Blocked ∧ s.blockedIn i = some x

/-- A tick does not end the sleeping time of a process that waits for a semaphore. -/
def NoEarlyWake (s : WaitState) (c : SchedCall) : Prop :=
  c = .timer → ∀ i x, s.Waits i x → int32 ((s.procs.pcb_table i).sleep_time - 1) ≠ 0

/-- The status of slot `i` is another one in `p'`. -/
def StatusChanges (p p' : Procs) (i : ℤ) : Prop := (p'.pcb_table i).status ≠ (p.pcb_table i).status

/-- **`sem_post` changes the status of at most one PCB**, and of one that waits for the
semaphore. -/
def PostsExactly (s : WaitState) (sem : Sem) : Prop :=
  (∀ i j, StatusChanges s.procs (semPost sem s.procs).2 i →
    StatusChanges s.procs (semPost sem s.procs).2 j → i = j) ∧
  ∀ i, StatusChanges s.procs (semPost sem s.procs).2 i → s.Waits i sem.sem_index

/-- **`sem_destroy` makes every process ready that waits for the semaphore**, and changes the status
of no other. -/
def DestroysExactly (s : WaitState) (sem : Sem) : Prop :=
  ∀ i, (s.Waits i sem.sem_index → ((semDestroy sem s.procs).pcb_table i).status = Ready) ∧
    (¬s.Waits i sem.sem_index → ¬StatusChanges s.procs (semDestroy sem s.procs) i)

/-- At most one process waits for semaphore `x`. -/
def WaitState.OneWaits (s : WaitState) (x : ℤ) : Prop := ∀ i j, s.Waits i x → s.Waits j x → i = j

/-! ## The invariant -/

/-- The number in a PCB is that of the semaphore that the process waits for. -/
def NumberOk (o : Option ℤ) (q : PCB) : Prop :=
  ∀ x, 0 ≤ x → (q.block_sem_index = x ↔ q.status = Blocked ∧ o = some x)

/-- All numbers in the table are right. -/
def NumbersOk (blockedIn : ℤ → Option ℤ) (p : Procs) : Prop :=
  ∀ i, 0 ≤ i → i < MAX_PCB → NumberOk (blockedIn i) (p.pcb_table i)

/-- **The numbers in the table are right**, and the running process is not blocked. -/
structure WaitInv (s : WaitState) : Prop where
  calls : CallInv s.procs
  awake : s.procs.cur.status ≠ Blocked
  numbers : NumbersOk s.blockedIn s.procs

section Numbers

variable {o o' : Option ℤ} {b b' : ℤ → Option ℤ} {p p' : Procs} {q q' : PCB} {c : SchedCall} {i : ℤ}
  {f : PCB → PCB}

/-- A process that is not blocked waits for nothing. -/
theorem NumberOk.neg (h : NumberOk o q) (hawake : q.status ≠ Blocked) : q.block_sem_index < 0 := by
  by_contra hge
  exact hawake ((h _ (not_lt.mp hge)).mp rfl).1

/-- A process that is not blocked and has no number. -/
theorem numberOk_of_awake (hneg : q.block_sem_index < 0) (hawake : q.status ≠ Blocked) :
    NumberOk o q := fun x hx =>
  ⟨fun heq => absurd hx (by omega), fun hblocked => absurd hblocked.1 hawake⟩

/-- The status changes, and not from or to being blocked. -/
theorem NumberOk.awake (h : NumberOk o q) (hawake : q.status ≠ Blocked)
    (hindex : q'.block_sem_index = q.block_sem_index) (hawake' : q'.status ≠ Blocked) :
    NumberOk o' q' :=
  numberOk_of_awake (hindex ▸ h.neg hawake) hawake'

/-- One PCB changes. -/
theorem NumbersOk.modify (h : NumbersOk b p) (hother : ∀ j, j ≠ i → b' j = b j)
    (hi : 0 ≤ i → i < MAX_PCB → NumberOk (b' i) (f (p.pcb_table i))) : NumbersOk b'
      (p.modify i f) := by
  intro j hj hlt
  rcases eq_or_ne j i with rfl | hne
  · rw [p.pcb_table_modify_self]
    exact hi hj hlt
  · rw [p.pcb_table_modify_of_ne f hne, hother j hne]
    exact h j hj hlt

/-- The running process changes, and is not blocked. -/
theorem NumbersOk.modifyCur (h : NumbersOk b p) (hawake : p.cur.status ≠ Blocked)
    (hindex : (f p.cur).block_sem_index = p.cur.block_sem_index)
    (hawake' : (f p.cur).status ≠ Blocked) : NumbersOk b (p.modify p.current f) :=
  h.modify (fun _ _ => rfl) fun hi hlt => (h _ hi hlt).awake hawake hindex hawake'

/-- **A tick** that wakes up nobody who waits. -/
theorem NumbersOk.wakeup (h : NumbersOk b p)
    (hno : ∀ i x, (⟨p, b⟩ : WaitState).Waits i x → int32 ((p.pcb_table i).sleep_time - 1) ≠ 0) :
    NumbersOk b { p with pcb_table := OsLab.wakeup p.pcb_table } := by
  intro i hi hlt
  simp only
  rcases wakeup_cases p.pcb_table i with heq | ⟨hblocked, heq⟩ <;> rw [heq]
  · exact h i hi hlt
  · intro x hx
    refine (h i hi hlt x hx).trans (and_congr_left fun hbx => ?_)
    have hne := hno i x ⟨hi, hlt, hblocked, hbx⟩
    simp only [hblocked, if_neg hne]

/-- A release finds a process that waits. -/
theorem NumbersOk.semDestroy (h : NumbersOk b p) (sem : Sem) :
    NumbersOk b (OsLab.semDestroy sem p) := by
  rw [OsLab.semDestroy]
  rcases releaseSem_cases sem.sem_index p.pcb_table with ⟨heq, -⟩ | ⟨i, -, -, -, heq⟩ <;> rw [heq]
  · exact h
  · exact h.modify (f := fun q =>
      { q with block_sem_index := -1, status := Ready, time_count := 0 })
      (fun _ _ => rfl) fun _ _ => numberOk_of_awake (show (-1 : ℤ) < 0 by decide)
        (show Ready ≠ Blocked by decide)

/-- A process is created in a free slot. -/
theorem NumbersOk.newProcess {pid c : ℤ} {cr3 : UInt32} (h : NumbersOk b p)
    (hfree : (p.pcb_table c).status = -1) : NumbersOk b (OsLab.newProcess pid c cr3 p) :=
  h.modify (fun _ _ => rfl) fun hi hlt =>
    (h c hi hlt).awake (by rw [hfree]; decide) rfl (show Ready ≠ Blocked by decide)

/-- **`schedule`** -/
theorem NumbersOk.schedule (h : NumbersOk b p) (hs : OsLab.schedule p = some p') :
    NumbersOk b p' := by
  have hblock := schedule_frame (g := PCB.block_sem_index) (fun q s => rfl) hs
  intro i hi hlt
  rcases schedule_status hs i with hsame | ⟨hready, hrun⟩
  · intro x hx
    rw [hblock, hsame]
    exact h i hi hlt x hx
  · exact (h i hi hlt).awake (by rw [hready]; decide) (hblock i) (by rw [hrun]; decide)

/-- The process that `schedule` picks is not blocked. -/
theorem schedule_awake (hidle : (p.pcb_table 0).status ≠ Blocked)
    (hs : OsLab.schedule p = some p') :
    p'.cur.status ≠ Blocked := by
  rcases schedule_current hs with ⟨-, hrun⟩ | ⟨h0, htable⟩
  · rw [hrun]
    decide
  · rw [Procs.cur, h0, htable]
    exact hidle

end Numbers

section Step

variable {s s' : WaitState} {p : Procs} {c : SchedCall}

/-- **What a call does before its `schedule`.** -/
theorem NumbersOk.change (h : WaitInv s) (hfinds : c.FindsSlot s.procs)
    (hno : NoEarlyWake s c) : NumbersOk (blockedAfter c s) (c.change s.procs) := by
  have hn := h.numbers
  cases c with
  | timer =>
    have hw := h.calls.wakeup
    have hnw := hn.wakeup (hno rfl)
    have hcur : (⟨OsLab.wakeup s.procs.pcb_table, s.procs.current⟩ : Procs).cur = s.procs.cur := by
      rcases wakeup_cases s.procs.pcb_table s.procs.current with heq | ⟨hblocked, -⟩
      · exact heq
      · exact absurd hblocked h.awake
    have hawake :
        (⟨OsLab.wakeup s.procs.pcb_table, s.procs.current⟩ : Procs).cur.status ≠ Blocked :=
      hcur ▸ h.awake
    show NumbersOk s.blockedIn _
    rw [SchedCall.change]
    dsimp only
    split
    · rw [hw.cur_home]
      exact hnw.modifyCur hawake rfl (show Ready ≠ Blocked by decide)
    · exact hnw.modifyCur hawake rfl hawake
  | sleep time =>
    rw [SchedCall.change]
    refine hn.modify (fun j hj => Function.update_of_ne hj ..) fun hi hlt x hx => ?_
    rw [blockedAfter, Function.update_self]
    have hneg := (hn _ hi hlt).neg h.awake
    refine ⟨fun heq => absurd hneg ?_, fun hnone => absurd hnone.2.symm (Option.some_ne_none x)⟩
    rw [not_lt, show (s.procs.pcb_table s.procs.current).block_sem_index = x from heq]
    exact hx
  | exit =>
    rw [SchedCall.change]
    exact hn.modifyCur h.awake rfl (show (-1 : ℤ) ≠ Blocked by decide)
  | semTrywait sem =>
    rw [SchedCall.change]
    exact hn.modifyCur h.awake rfl h.awake
  | fork cr3 garbage =>
    obtain ⟨c, hc⟩ := Option.ne_none_iff_exists'.mp hfinds
    have hslot : forkSlot garbage s.procs = c := by rw [forkSlot, getPcbOr, hc]; rfl
    show NumbersOk s.blockedIn (forkChild cr3 garbage s.procs)
    have hcaller : NumbersOk s.blockedIn (forkCaller s.procs) :=
      hn.modifyCur h.awake rfl (show Ready ≠ Blocked by decide)
    have hnew : NumbersOk s.blockedIn (OsLab.newProcess (-1) c cr3 (forkCaller s.procs)) :=
      hcaller.newProcess (getPcb_eq_some hc).2.2.1
    rw [forkChild, hslot]
    refine hnew.modify (fun _ _ => rfl) fun hi hlt => (hnew c hi hlt).awake ?_ rfl ?_ <;>
    · rw [OsLab.newProcess, Procs.pcb_table_modify_self]
      exact (by decide : Ready ≠ Blocked)
  | createThread cr3 garbage =>
    obtain ⟨c, hc⟩ := Option.ne_none_iff_exists'.mp hfinds
    show NumbersOk s.blockedIn (createThread cr3 garbage s.procs)
    rw [createThread, getPcbOr, hc]
    exact hn.newProcess (getPcb_eq_some hc).2.2.1
  | semWait sem =>
    rw [SchedCall.change, blockedAfter]
    split
    · refine hn.modify (fun j hj => Function.update_of_ne hj ..) fun hi hlt x hx => ?_
      rw [Function.update_self]
      exact ⟨fun heq => ⟨rfl, congrArg some heq⟩, fun heq => Option.some.inj heq.2⟩
    · exact hn
  | semPost sem =>
    show NumbersOk s.blockedIn (if sem.Releases then OsLab.semDestroy sem s.procs else s.procs)
    split
    · exact hn.semDestroy sem
    · exact hn
  | semDestroy sem => exact hn.semDestroy sem

theorem semDestroy_awake (h : p.cur.status ≠ Blocked) (sem : Sem) :
    (semDestroy sem p).cur.status ≠ Blocked := by
  show (releaseSem sem.sem_index p.pcb_table p.current).status ≠ Blocked
  rcases releaseSem_cases sem.sem_index p.pcb_table with ⟨heq, -⟩ | ⟨i, -, -, -, heq⟩ <;> rw [heq]
  · exact h
  · rcases eq_or_ne p.current i with rfl | hne
    · rw [Function.update_self]
      exact (by decide : Ready ≠ Blocked)
    · rw [Function.update_of_ne hne]
      exact h

/-- The running process goes on. -/
theorem SchedCall.change_awake (h : p.cur.status ≠ Blocked) (hgoes : ¬c.Switches p) :
    (c.change p).cur.status ≠ Blocked := by
  cases c with
  | timer =>
    have hcur : OsLab.wakeup p.pcb_table p.current = p.cur := by
      rcases wakeup_cases p.pcb_table p.current with heq | ⟨hblocked, -⟩
      · exact heq
      · exact absurd hblocked h
    have hcount : ¬(⟨OsLab.wakeup p.pcb_table, p.current⟩ : Procs).cur.time_count = 10 := fun h10 =>
      hgoes ((time_count_wakeup p.pcb_table p.current).symm.trans h10)
    rw [change]
    dsimp only
    rw [if_neg hcount, Procs.cur]
    show ((Procs.modify _ p.current _).pcb_table p.current).status ≠ Blocked
    rw [Procs.pcb_table_modify_self]
    show (OsLab.wakeup p.pcb_table p.current).status ≠ Blocked
    rw [hcur]
    exact h
  | sleep _ | fork _ _ | exit => exact absurd trivial hgoes
  | createThread cr3 garbage =>
    show ((OsLab.createThread cr3 garbage p).pcb_table p.current).status ≠ Blocked
    rw [OsLab.createThread, newProcess]
    rcases eq_or_ne p.current (getPcbOr garbage p.pcb_table) with heq | hne
    · rw [← heq, Procs.pcb_table_modify_self]
      exact (by decide : Ready ≠ Blocked)
    · rw [Procs.pcb_table_modify_of_ne _ _ hne]
      exact h
  | semTrywait sem =>
    rw [change, Procs.cur]
    show ((Procs.modify _ p.current _).pcb_table p.current).status ≠ Blocked
    rw [Procs.pcb_table_modify_self]
    exact h
  | semWait sem =>
    rw [change, if_neg (show ¬sem.Blocks from hgoes)]
    exact h
  | semPost sem =>
    rw [change]
    split
    · exact semDestroy_awake h sem
    · exact h
  | semDestroy sem => exact semDestroy_awake h sem

/-- **One call.** -/
theorem WaitInv.step (h : WaitInv s) (hstep : Guarded NoEarlyWake WaitStep s c s') :
    WaitInv s' := by
  obtain ⟨hno, hcall, hblocked⟩ := hstep
  have hcalls := h.calls.step hcall
  obtain ⟨hallowed, ⟨hfinds, -⟩, hexec⟩ := hcall
  have hchange := NumbersOk.change h hfinds hno
  rw [SchedCall.exec_eq] at hexec
  split at hexec
  · refine ⟨hcalls, ?_, ?_⟩
    · exact schedule_awake (h.calls.change hallowed hfinds).idle.2.1 hexec
    · rw [hblocked]
      exact hchange.schedule hexec
  · next hgoes =>
    have hsame := Option.some.inj hexec
    refine ⟨hcalls, ?_, ?_⟩
    · rw [← hsame]
      exact SchedCall.change_awake h.awake hgoes
    · rw [hblocked, ← hsame]
      exact hchange

theorem WaitInv.start (kcr3 ucr3 : UInt32) (garbage : ℤ) (t : ℤ → PCB) :
    WaitInv (waitStart kcr3 ucr3 garbage t) := by
  refine ⟨CallInv.initCond kcr3 ucr3 garbage t, ?_, fun i hi hlt => ?_⟩
  · show (initCond kcr3 ucr3 garbage t).cur.status ≠ Blocked
    rw [Procs.cur, initCond_current, initCond_idle]
    exact (by decide : New ≠ Blocked)
  · show NumberOk none ((initCond kcr3 ucr3 garbage t).pcb_table i)
    by_cases h0 : i = 0
    · rw [h0, initCond_idle]
      exact numberOk_of_awake (show (-1 : ℤ) < 0 by decide) (by decide : New ≠ Blocked)
    by_cases h1 : i = 1
    · rw [h1, initCond_game]
      exact numberOk_of_awake (show (-1 : ℤ) < 0 by decide) (by decide : Ready ≠ Blocked)
    rw [initCond_slot kcr3 ucr3 garbage t hi hlt h0 h1]
    exact numberOk_of_awake (show (-1 : ℤ) < 0 by decide) (show (-1 : ℤ) ≠ Blocked by decide)

/-! ## The calls that wake -/

variable {i x : ℤ} {sem : Sem}

theorem WaitInv.waits_iff (h : WaitInv s) (hx : 0 ≤ x) :
    s.Waits i x ↔ 0 ≤ i ∧ i < MAX_PCB ∧ (s.procs.pcb_table i).block_sem_index = x :=
  ⟨fun ⟨hi, hlt, hwaits⟩ => ⟨hi, hlt, (h.numbers i hi hlt x hx).mpr hwaits⟩,
    fun ⟨hi, hlt, hindex⟩ => ⟨hi, hlt, (h.numbers i hi hlt x hx).mp hindex⟩⟩

/-- **`release_sem`** makes one of the processes ready that wait, if there are any. -/
theorem WaitInv.release (h : WaitInv s) (hsem : 0 ≤ sem.sem_index) :
    (semDestroy sem s.procs = s.procs ∧ ∀ i, ¬s.Waits i sem.sem_index) ∨
      ∃ i, s.Waits i sem.sem_index ∧ ((semDestroy sem s.procs).pcb_table i).status = Ready ∧
        ∀ j, j ≠ i → (semDestroy sem s.procs).pcb_table j = s.procs.pcb_table j := by
  rw [semDestroy]
  rcases releaseSem_cases sem.sem_index s.procs.pcb_table with
    ⟨heq, hnone⟩ | ⟨i, hi, hlt, hindex, heq⟩
  · rw [heq]
    refine .inl ⟨rfl, fun i hwaits => ?_⟩
    obtain ⟨hi, hlt, hindex⟩ := (h.waits_iff hsem).mp hwaits
    exact hnone i hi hlt hindex
  · rw [heq]
    refine .inr ⟨i, (h.waits_iff hsem).mpr ⟨hi, hlt, hindex⟩, ?_, fun j hj => ?_⟩
    · show ((Function.update s.procs.pcb_table i _ : ℤ → PCB) i).status = Ready
      rw [Function.update_self]
    · exact Function.update_of_ne hj ..

theorem WaitInv.postsExactly (h : WaitInv s) (hsem : 0 ≤ sem.sem_index) : PostsExactly s sem := by
  rw [PostsExactly, semPost_snd]
  split
  · rcases h.release hsem with ⟨heq, -⟩ | ⟨k, hwaits, -, hother⟩
    · rw [heq]
      exact ⟨fun i j hi => absurd rfl hi, fun i hi => absurd rfl hi⟩
    · have honly : ∀ i, StatusChanges s.procs (semDestroy sem s.procs) i → i = k := fun i hi => by
        by_contra hne
        exact hi (congrArg PCB.status (hother i hne))
      exact ⟨fun i j hi hj => (honly i hi).trans (honly j hj).symm, fun i hi => honly i hi ▸ hwaits⟩
  · exact ⟨fun i j hi => absurd rfl hi, fun i hi => absurd rfl hi⟩

/-- **When `sem_destroy` wakes all of them.** -/
theorem WaitInv.destroysExactly_iff (h : WaitInv s) (hsem : 0 ≤ sem.sem_index) :
    DestroysExactly s sem ↔ s.OneWaits sem.sem_index := by
  rcases h.release hsem with ⟨heq, hnone⟩ | ⟨k, hwaits, hready, hother⟩
  · exact ⟨fun _ i j hi => absurd hi (hnone i), fun _ i =>
      ⟨fun hi => absurd hi (hnone i), fun _ hchange => hchange (by rw [heq])⟩⟩
  · refine ⟨fun hall i j hi hj => ?_, fun hone i => ⟨fun hi => ?_, fun hi hchange => ?_⟩⟩
    · -- only the slot that is released becomes ready
      have honly : ∀ i, s.Waits i sem.sem_index → i = k := fun i hi => by
        by_contra hne
        have hready' := (hall i).1 hi
        rw [hother i hne, hi.2.2.1] at hready'
        exact absurd hready' (by decide)
      exact (honly i hi).trans (honly j hj).symm
    · rw [hone i k hi hwaits]
      exact hready
    · have hne : i ≠ k := fun heq => hi (heq ▸ hwaits)
      exact hchange (congrArg PCB.status (hother i hne))

end Step

/-- **Whom the semaphores wake up.** In every state that is reached by calls and ticks none of which
ends the sleeping time of a process that waits for a semaphore, `sem_post` changes the status of at
most one PCB, and of one that waits for that semaphore; and `sem_destroy` makes ready all those that
wait for it and changes no other status, exactly if at most one waits. -/
theorem wakesExactly (kcr3 ucr3 : UInt32) (garbage : ℤ) (t : ℤ → PCB) {l : List SchedCall}
    {s : WaitState} (hrun : Run (Guarded NoEarlyWake WaitStep) (waitStart kcr3 ucr3 garbage t) l s)
    {sem : Sem} (hsem : 0 ≤ sem.sem_index) :
    PostsExactly s sem ∧ (DestroysExactly s sem ↔ s.OneWaits sem.sem_index) := by
  have hinv : WaitInv s := hrun.invariant (fun _ _ _ h hstep => h.step hstep)
    (WaitInv.start kcr3 ucr3 garbage t)
  exact ⟨hinv.postsExactly hsem, hinv.destroysExactly_iff hsem⟩

/-! ### The game's child waits -/

/-- The game's child, blocked in `sem_wait` on semaphore 0. -/
def childWaits : PCB := { childRunning with status := Blocked, block_sem_index := 0 }

/-- The game's child waits, and the idle process runs. -/
def waitsState : WaitState :=
  ⟨⟨slotTable [{ processReady idlePcb with status := Running }, gameRunning.forks, childWaits], 0⟩,
    Function.update (fun _ => none) 2 (some 0)⟩

/-- The child calls `sem_wait` on a semaphore with value 0. -/
theorem semWait_childRunning :
    CallStep ⟨slotTable [processReady idlePcb, gameRunning.forks, childRunning], 2⟩
      (.semWait ⟨0, false, 0, 0⟩) waitsState.procs := by
  refine callStep_switch (c := 2) (k := 0)
    (r := [processReady idlePcb, gameRunning.forks, childWaits]) (by decide) ⟨by decide, by decide⟩
    trivial (by decide) ?_ (by decide) (by decide +kernel)
  rw [SchedCall.change, if_pos (by decide)]
  exact modify_slotTable (fun q => { q with status := Blocked, block_sem_index := 0 }) (by decide)

/-- Until then no tick finds anybody who waits. -/
theorem run_waitsState :
    Run (Guarded NoEarlyWake WaitStep) (waitStart 0 0 0 fun _ => freePcb)
      (List.replicate 11 .timer ++ [.fork 0 0, .semWait ⟨0, false, 0, 0⟩]) waitsState := by
  have hnone : ∀ p c, NoEarlyWake ⟨p, fun _ => none⟩ c := fun p c _ i x hwaits =>
    absurd hwaits.2.2.2 (Option.some_ne_none x).symm
  have hboot : Run (Guarded NoEarlyWake WaitStep) (waitStart 0 0 0 fun _ => freePcb)
      (List.replicate 11 .timer)
      ⟨⟨slotTable [processReady idlePcb, gameRunning], 1⟩, fun _ => none⟩ := by
    rw [waitStart, initCond_slotTable]
    exact run_game (fun p => (⟨p, fun _ => none⟩ : WaitState)) (q := idlePcb) (g := gamePcb)
      (fun t _ htick => ⟨hnone _ _, callStep_timer htick, rfl⟩) (by decide) rfl (by decide) rfl
  exact hboot.append (.cons (t := ⟨⟨slotTable [processReady idlePcb, gameRunning.forks,
    childRunning], 2⟩, fun _ => none⟩) ⟨hnone _ _, fork_gameRunning, rfl⟩
    (.single ⟨hnone _ _, semWait_childRunning, rfl⟩))

theorem wakesExactly_child :
    PostsExactly waitsState ⟨-1, false, 0, 1⟩ ∧
      (DestroysExactly waitsState ⟨-1, false, 0, 1⟩ ↔ waitsState.OneWaits 0) :=
  wakesExactly 0 0 0 _ run_waitsState (Int.le_refl 0)

/-- The timer has woken up the child while it waited, and the game runs. -/
def wokenState : WaitState :=
  ⟨⟨slotTable [processReady { processReady idlePcb with status := Running },
    { gameRunning.forks with status := Running },
    { childWaits with sleep_time := 0, status := Ready }], 1⟩, waitsState.blockedIn⟩

/-- The game has gone to sleep, and the child runs with the number of the semaphore. -/
def staleState : WaitState :=
  ⟨⟨slotTable [processReady { processReady idlePcb with status := Running },
    { gameRunning.forks with status := Blocked, sleep_time := 1 },
    { childWaits with sleep_time := 0, status := Running }], 2⟩,
    Function.update waitsState.blockedIn 1 none⟩

theorem run_staleState :
    Run WaitStep waitsState (List.replicate 11 .timer ++ [.sleep 1]) staleState := by
  have hticks : Run WaitStep waitsState (List.replicate 11 .timer) wokenState :=
    run_slice (fun p => (⟨p, waitsState.blockedIn⟩ : WaitState)) (k := 1)
      (q := { processReady idlePcb with status := Running }) (l := [gameRunning.forks, childWaits])
      (r := [gameRunning.forks, { childWaits with sleep_time := 0, status := Ready }])
      (fun _ _ htick => ⟨callStep_timer htick, rfl⟩) (by decide) rfl (by decide) rfl (by decide)
      (by decide +kernel)
  have hsleep : CallStep wokenState.procs (.sleep 1) staleState.procs :=
    callStep_sleep (c := 1) (k := 2) (by decide) (by decide) (by decide) 1 rfl (by decide)
      (by decide +kernel)
  exact hticks.snoc ⟨hsleep, rfl⟩

/-- The timer wakes up the child while it waits. The child goes on and posts, which makes the child
itself ready while it is running. -/
theorem post_wakes_running :
    ∃ l s, Run WaitStep (waitStart 0 0 0 fun _ => freePcb) l s ∧ s.procs.cur.status = Running ∧
      ((semPost ⟨-1, false, 0, 1⟩ s.procs).2.pcb_table s.procs.current).status = Ready ∧
      ¬PostsExactly s ⟨-1, false, 0, 1⟩ := by
  have hrun := (run_waitsState.mono fun _ _ _ h => h.2).append run_staleState
  have hready : ((semPost ⟨-1, false, 0, 1⟩ staleState.procs).2.pcb_table 2).status = Ready := by
    decide +kernel
  have hchange : StatusChanges staleState.procs (semPost ⟨-1, false, 0, 1⟩ staleState.procs).2 2 :=
    fun hsame => absurd (hready.symm.trans hsame) (by decide : Ready ≠ Running)
  exact ⟨_, _, hrun, rfl, hready, fun hposts =>
    absurd (hposts.2 2 hchange).2.2.1 (by decide : Running ≠ Blocked)⟩

end OsLab

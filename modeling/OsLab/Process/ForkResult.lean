import OsLab.Process.Boot
import OsLab.Process.WaitTable

/-!
# What `fork` returns

`process_fork` gives its caller the caller's own `pid`, and the child always −1. The two are told
apart by that as long as the caller's own `pid` is not −1, and −1 is the `pid` of every process that
was made by `fork` itself.

The state is extended by how the occupant of each slot came to be (`FamilyState.origin`), from which
its `pid` follows (`FamilyInv`). A process that has exited is made ready again by a `sem_post` when
its slot still says that it waits for the semaphore, and it has `pid` −1, too.

## Main definitions

* `Origin` — how the occupant of a slot came to be; `exited` is an occupant that is gone
* `FamilyState` — the processes, and where the occupant of each slot comes from
* `FamilyStep` — a call, and who comes from whom after it
* `RunsNext` — calls and ticks until the process in slot `i` runs
* `PidsOk` — the `pid` of a process says where it comes from, also of one that is gone while a
  semaphore still refers to it
* `FamilyInv` — the state between two calls

## Main results

* `forkResults_ne_iff` — the parent and the child read different results, exactly if the parent was
  not made by `fork` and had not exited
-/

namespace OsLab

/-! ## Where a process comes from -/

/-- How the occupant of a slot came to be; `exited` is an occupant that is gone. -/
inductive Origin
  | idle
  | game
  | fork
  | thread
  | exited
  deriving DecidableEq

/-- The `pid` that `pcb_new` and `process_exit` give. -/
def Origin.pid : Origin → ℤ
  | idle => 1
  | game => 2
  | fork => -1
  | thread => -2
  | exited => -1

/-- The processes, and where the occupant of each slot comes from. -/
structure FamilyState where
  procs : Procs
  origin : ℤ → Origin

/-- The origins after a call. -/
def originAfter (c : SchedCall) (s : FamilyState) : ℤ → Origin :=
  match c with
  | .fork _ garbage => Function.update s.origin (forkSlot garbage s.procs) .fork
  | .createThread _ garbage => Function.update s.origin (getPcbOr garbage s.procs.pcb_table) .thread
  | .exit => Function.update s.origin s.procs.current .exited
  | _ => s.origin

/-- A call, and who comes from whom after it. -/
def FamilyStep (s : FamilyState) (c : SchedCall) (s' : FamilyState) : Prop :=
  CallStep s.procs c s'.procs ∧ s'.origin = originAfter c s

/-- The processes that `init_cond` creates. -/
def familyStart (kcr3 ucr3 : UInt32) (garbage : ℤ) (t : ℤ → PCB) : FamilyState :=
  ⟨initCond kcr3 ucr3 garbage t, fun i => if i = 0 then .idle else .game⟩

/-- Calls and ticks until the process in slot `i` runs. -/
def RunsNext (i : ℤ) (s : FamilyState) (l : List SchedCall) (s' : FamilyState) : Prop :=
  Run (Guarded (fun s _ => s.procs.current ≠ i) FamilyStep) s l s' ∧ s'.procs.current = i

/-- **The `pid` of a process says where it comes from**, also of one that is gone while a semaphore
still refers to it. -/
def PidsOk (origin : ℤ → Origin) (p : Procs) : Prop :=
  ∀ i, 0 ≤ i → i < MAX_PCB →
    (p.pcb_table i).status ≠ -1 ∨ (p.pcb_table i).block_sem_index ≠ -1 ∨ i = p.current →
      (p.pcb_table i).pid = (origin i).pid

/-- The state between two calls. -/
def FamilyInv (s : FamilyState) : Prop := CallInv s.procs ∧ PidsOk s.origin s.procs

section Pids

variable {origin origin' : ℤ → Origin} {p p' : Procs} {c : SchedCall} {i : ℤ} {f : PCB → PCB}

/-- One PCB changes. -/
theorem PidsOk.modify (h : PidsOk origin p) (hother : ∀ j, j ≠ i → origin' j = origin j)
    (hpid : (f (p.pcb_table i)).status ≠ -1 ∨ (f (p.pcb_table i)).block_sem_index ≠ -1 ∨
      i = p.current → (f (p.pcb_table i)).pid = (origin' i).pid) : PidsOk origin'
        (p.modify i f) := by
  intro j hj hlt hlive
  rcases eq_or_ne j i with rfl | hne
  · rw [p.pcb_table_modify_self] at hlive ⊢
    exact hpid hlive
  · rw [p.pcb_table_modify_of_ne f hne] at hlive ⊢
    rw [hother j hne]
    exact h j hj hlt hlive

/-- The running process changes, and keeps its `pid`. -/
theorem PidsOk.modifyCur (h : PidsOk origin p) (hc : CallInv p) (hpid : (f p.cur).pid = p.cur.pid) :
    PidsOk origin (p.modify p.current f) :=
  h.modify (fun _ _ => rfl) fun _ => hpid.trans (h _ hc.inTable.1 hc.inTable.2 (.inr (.inr rfl)))

theorem PidsOk.wakeup (h : PidsOk origin p) :
    PidsOk origin { p with pcb_table := OsLab.wakeup p.pcb_table } := by
  intro i hi hlt hlive
  simp only at hlive ⊢
  rcases wakeup_cases p.pcb_table i with heq | ⟨hblocked, heq⟩ <;> rw [heq] at hlive ⊢
  · exact h i hi hlt hlive
  · refine h i hi hlt (.inl ?_)
    rw [hblocked]
    decide

theorem PidsOk.semDestroy {sem : Sem} (h : PidsOk origin p) (hsem : 0 ≤ sem.sem_index) :
    PidsOk origin (OsLab.semDestroy sem p) := by
  rw [OsLab.semDestroy]
  rcases releaseSem_cases sem.sem_index p.pcb_table with ⟨heq, -⟩ | ⟨i, hi, hlt, hi', heq⟩
  · rw [heq]
    exact h
  · have hne : (p.pcb_table i).block_sem_index ≠ -1 := by omega
    rw [heq]
    exact h.modify (f := fun q =>
      { q with block_sem_index := -1, status := Ready, time_count := 0 })
      (fun _ _ => rfl) fun _ => h i hi hlt (.inr (.inl hne))

/-- A process is created. -/
theorem PidsOk.newProcess {pid c : ℤ} {cr3 : UInt32} {o : Origin} (h : PidsOk origin p)
    (hpid : o.pid = pid) :
    PidsOk (Function.update origin c o) (OsLab.newProcess pid c cr3 p) := by
  refine h.modify (fun j hj => Function.update_of_ne hj ..) fun _ => ?_
  rw [Function.update_self, hpid]
  rfl

/-- **What a call does before its `schedule`.** -/
theorem PidsOk.change {s : FamilyState} (h : PidsOk s.origin s.procs) (hc : CallInv s.procs)
    (hallowed : c.Allowed s.procs) (hfinds : c.FindsSlot s.procs) :
    PidsOk (originAfter c s) (c.change s.procs) := by
  cases c with
  | timer =>
    have hw := hc.wakeup
    show PidsOk s.origin _
    rw [SchedCall.change]
    dsimp only
    split
    · rw [hw.cur_home]
      exact h.wakeup.modifyCur hw rfl
    · exact h.wakeup.modifyCur hw rfl
  | sleep time | semTrywait sem =>
    rw [SchedCall.change]
    exact h.modifyCur hc rfl
  | exit =>
    rw [SchedCall.change]
    refine h.modify (fun j hj => Function.update_of_ne hj ..) fun _ => ?_
    rw [originAfter, Function.update_self]
    rfl
  | fork cr3 garbage =>
    show PidsOk (Function.update s.origin (forkSlot garbage s.procs) .fork)
      (forkChild cr3 garbage s.procs)
    have hnew : PidsOk (Function.update s.origin (forkSlot garbage s.procs) .fork)
        (OsLab.newProcess (-1) (forkSlot garbage s.procs) cr3 (forkCaller s.procs)) :=
      PidsOk.newProcess (h.modifyCur hc rfl) rfl
    rw [forkChild]
    refine hnew.modify (fun _ _ => rfl) fun _ => ?_
    rw [Function.update_self, OsLab.newProcess, Procs.pcb_table_modify_self]
    rfl
  | createThread cr3 garbage => exact h.newProcess rfl
  | semWait sem =>
    show PidsOk s.origin (if sem.Blocks then blockOn sem.sem_index s.procs else s.procs)
    split
    · exact h.modifyCur hc rfl
    · exact h
  | semPost sem =>
    show PidsOk s.origin (if sem.Releases then OsLab.semDestroy sem s.procs else s.procs)
    split
    · exact h.semDestroy hallowed.2
    · exact h
  | semDestroy sem => exact h.semDestroy hallowed.2

/-- **`schedule`** -/
theorem PidsOk.schedule (h : PidsOk origin p) (hc : CallInv p) (hs : OsLab.schedule p = some p') :
    PidsOk origin p' := by
  have hpid := schedule_frame (g := PCB.pid) (fun q s => rfl) hs
  intro i hi hlt hor
  rw [hpid]
  exact h i hi hlt (Procs.used_schedule hc hs hor)

/-- **One call.** -/
theorem FamilyInv.step {s s' : FamilyState} (h : FamilyInv s) (hstep : FamilyStep s c s') :
    FamilyInv s' := by
  obtain ⟨hcall, horigin⟩ := hstep
  refine ⟨h.1.step hcall, ?_⟩
  obtain ⟨hallowed, ⟨hfinds, -⟩, hexec⟩ := hcall
  have hchange := h.2.change h.1 hallowed hfinds
  rw [horigin]
  rw [SchedCall.exec_eq] at hexec
  split at hexec
  · exact hchange.schedule (h.1.change hallowed hfinds) hexec
  · rw [← Option.some.inj hexec]
    exact hchange

theorem FamilyInv.start (kcr3 ucr3 : UInt32) (garbage : ℤ) (t : ℤ → PCB) :
    FamilyInv (familyStart kcr3 ucr3 garbage t) := by
  refine ⟨CallInv.initCond kcr3 ucr3 garbage t, fun i hi hlt hlive => ?_⟩
  simp only [familyStart] at hlive ⊢
  by_cases h0 : i = 0
  · rw [h0, initCond_idle, if_pos rfl]
    rfl
  by_cases h1 : i = 1
  · rw [h1, initCond_game, if_neg (by decide)]
    rfl
  rw [initCond_slot kcr3 ucr3 garbage t hi hlt h0 h1, initCond_current] at hlive
  rcases hlive with hlive | hlive | hlive
  · exact absurd rfl hlive
  · exact absurd rfl hlive
  · exact absurd hlive h0

end Pids

/-! ## What the two processes read -/

section Result

variable {s s' s₁ s₂ : FamilyState} {l l₁ l₂ : List SchedCall} {cr3 : UInt32} {garbage i : ℤ}

/-- The slot is in the table and its process lives. -/
def Procs.Lives (p : Procs) (i : ℤ) : Prop := 0 ≤ i ∧ i < MAX_PCB ∧ (p.pcb_table i).status ≠ -1

/-- **A call of another process** leaves a process alive and its `eax` alone. -/
theorem eax_other {p p' : Procs} {c : SchedCall} (h : CallInv p) (hlive : p.Lives i)
    (hne : p.current ≠ i) (hstep : CallStep p c p') :
    p'.Lives i ∧ (p'.pcb_table i).eax = (p.pcb_table i).eax := by
  obtain ⟨-, ⟨hfinds, -⟩, hexec⟩ := hstep
  have hother := h.change_other hfinds hne.symm hlive.2.2
  have hrelease : ∀ x, (releaseSem x p.pcb_table i).status ≠ -1 ∧
      (releaseSem x p.pcb_table i).eax = (p.pcb_table i).eax := fun x => by
    rcases releaseSem_cases x p.pcb_table with ⟨heq, -⟩ | ⟨j, -, -, -, heq⟩ <;> rw [heq]
    · exact ⟨hlive.2.2, rfl⟩
    · rcases eq_or_ne i j with rfl | hij
      · rw [Function.update_self]
        exact ⟨(by decide : Ready ≠ -1), rfl⟩
      · rw [Function.update_of_ne hij]
        exact ⟨hlive.2.2, rfl⟩
  have hchange : ((c.change p).pcb_table i).status ≠ -1 ∧
      ((c.change p).pcb_table i).eax = (p.pcb_table i).eax := by
    rw [hother]
    cases c with
    | timer =>
      refine ⟨fun hdead => hlive.2.2 ((wakeup_live p.pcb_table i).mp hdead), ?_⟩
      show (wakeup p.pcb_table i).eax = _
      rcases wakeup_cases p.pcb_table i with heq | ⟨-, heq⟩ <;> rw [heq]
    | semPost sem =>
      rw [SchedCall.onOther]
      split
      · exact hrelease _
      · exact ⟨hlive.2.2, rfl⟩
    | semDestroy sem => exact hrelease _
    | sleep _ | fork _ _ | createThread _ _ | exit | semWait _ | semTrywait _ =>
      exact ⟨hlive.2.2, rfl⟩
  rw [SchedCall.exec_eq] at hexec
  split at hexec
  · refine ⟨⟨hlive.1, hlive.2.1, ?_⟩, ?_⟩
    · rcases schedule_status hexec i with heq | ⟨-, hrun⟩
      · rw [heq]
        exact hchange.1
      · rw [hrun]
        decide
    · exact (schedule_frame (g := PCB.eax) (fun q s => rfl) hexec i).trans hchange.2
  · obtain rfl := Option.some.inj hexec
    exact ⟨⟨hlive.1, hlive.2.1, hchange.1⟩, hchange.2⟩

/-- A process finds in `eax` what was there when it had the processor last. -/
theorem RunsNext.eax (h : RunsNext i s l s') (hinv : CallInv s.procs) (hlive : s.procs.Lives i) :
    s'.procs.cur.eax = (s.procs.pcb_table i).eax := by
  have hrun : CallInv s'.procs ∧ s'.procs.Lives i ∧
      (s'.procs.pcb_table i).eax = (s.procs.pcb_table i).eax :=
    Run.invariant (I := fun u => CallInv u.procs ∧ u.procs.Lives i ∧
        (u.procs.pcb_table i).eax = (s.procs.pcb_table i).eax)
      (fun u c u' hu hstep => by
        obtain ⟨hne, hcall, -⟩ := hstep
        obtain ⟨hlive', heax⟩ := eax_other hu.1 hu.2.1 hne hcall
        exact ⟨hu.1.step hcall, hlive', heax.trans hu.2.2⟩) h.1 ⟨hinv, hlive, rfl⟩
  rw [Procs.cur, h.2]
  exact hrun.2.2

/-- **What `process_fork` leaves in the two frames.** -/
theorem fork_eax {p p' : Procs} (h : CallInv p) (hstep : CallStep p (.fork cr3 garbage) p') :
    (p'.Lives p.current ∧ (p'.pcb_table p.current).eax = p.cur.pid) ∧
    (p'.Lives (forkSlot garbage p) ∧ (p'.pcb_table (forkSlot garbage p)).eax = -1) := by
  obtain ⟨hallowed, ⟨hfinds, -⟩, hexec⟩ := hstep
  obtain ⟨c, hc⟩ := Option.ne_none_iff_exists'.mp hfinds
  have hslot : forkSlot garbage p = c := by rw [forkSlot, getPcbOr, hc]; rfl
  obtain ⟨hc0, hclt, hcfree, -⟩ := getPcb_eq_some hc
  have hcaller :
      (forkCaller p).pcb_table p.current = { p.cur with eax := p.cur.pid, status := Ready } :=
    Procs.pcb_table_modify_self ..
  have hne : p.current ≠ c := by
    rintro rfl
    rw [hcaller] at hcfree
    exact absurd hcfree (by decide : Ready ≠ -1)
  have hparent : (forkChild cr3 garbage p).pcb_table p.current =
      { p.cur with eax := p.cur.pid, status := Ready } := by
    rw [forkChild, hslot]
    exact (Procs.pcb_table_modify_of_ne _ _ hne).trans
      ((Procs.pcb_table_modify_of_ne _ _ hne).trans hcaller)
  have hchild : ((forkChild cr3 garbage p).pcb_table c).status = Ready ∧
      ((forkChild cr3 garbage p).pcb_table c).eax = -1 := by
    rw [forkChild, hslot]
    rw [Procs.pcb_table_modify_self, newProcess, Procs.pcb_table_modify_self]
    exact ⟨rfl, rfl⟩
  have heax := schedule_frame (g := PCB.eax) (fun q s => rfl) hexec
  have hlive : ∀ i, ((forkChild cr3 garbage p).pcb_table i).status = Ready →
      (p'.pcb_table i).status ≠ -1 := fun i hready => by
    rcases schedule_status hexec i with heq | ⟨-, hrun⟩
    · rw [heq, hready]
      decide
    · rw [hrun]
      decide
  rw [hslot]
  refine ⟨⟨⟨h.inTable.1, h.inTable.2, hlive _ ?_⟩, ?_⟩, ⟨hc0, hclt, hlive _ hchild.1⟩, ?_⟩
  · rw [hparent]
  · rw [heax, hparent]
  · rw [heax, hchild.2]

/-- **The two results of `fork`.** From any state of the system, what the parent reads in `eax` when
it resumes and what the child reads when it first runs are different exactly if the parent was not
made by `fork` itself, and is not a process that had exited. -/
theorem forkResults_ne_iff (kcr3 ucr3 : UInt32) (garbage₀ : ℤ) (t : ℤ → PCB)
    (hrun : Run FamilyStep (familyStart kcr3 ucr3 garbage₀ t) l s)
    (hfork : FamilyStep s (.fork cr3 garbage) s')
    (hparent : RunsNext s.procs.current s' l₁ s₁)
    (hchild : RunsNext (forkSlot garbage s.procs) s' l₂ s₂) :
    s₁.procs.cur.eax ≠ s₂.procs.cur.eax ↔
      s.origin s.procs.current ≠ .fork ∧ s.origin s.procs.current ≠ .exited := by
  have hinv : FamilyInv s := hrun.invariant (fun _ _ _ h hstep => h.step hstep)
    (FamilyInv.start kcr3 ucr3 garbage₀ t)
  have hinv' : CallInv s'.procs := hinv.1.step hfork.1
  obtain ⟨⟨hlive, hpid⟩, hlive', hchild'⟩ := fork_eax hinv.1 hfork.1
  have hcur : s.procs.cur.pid = (s.origin s.procs.current).pid :=
    hinv.2 _ hinv.1.inTable.1 hinv.1.inTable.2 (.inr (.inr rfl))
  rw [hparent.eax hinv' hlive, hchild.eax hinv' hlive', hpid, hchild', hcur]
  cases s.origin s.procs.current <;> decide

end Result

/-! ### The game forks, and so does its child -/

/-- The child's child, running. -/
def grandchildRunning : PCB := { childRunning.child 3 0 with status := Running }

/-- The game runs. -/
def gameState : FamilyState :=
  ⟨⟨slotTable [processReady idlePcb, gameRunning], 1⟩, fun i => if i = 0 then .idle else .game⟩

/-- Its child runs. -/
def childState : FamilyState :=
  ⟨⟨slotTable [processReady idlePcb, gameRunning.forks, childRunning], 2⟩,
    Function.update gameState.origin 2 .fork⟩

/-- The child's child runs. -/
def grandchildState : FamilyState :=
  ⟨⟨slotTable [processReady idlePcb, gameRunning.forks, childRunning.forks, grandchildRunning], 3⟩,
    Function.update childState.origin 3 .fork⟩

/-- The ticks until the game runs. -/
theorem run_ticks {G : FamilyState → SchedCall → Prop} {o : ℤ → Origin} {q g : PCB}
    {l : List PCB} (hG : ∀ t c, G ⟨⟨t, 0⟩, o⟩ c) (hl : (g :: l).length < 100)
    (hq : q.pcb_index = 0) (hawake : ∀ r ∈ q :: g :: l, r.status ≠ Blocked)
    (hready : g.status = Ready) :
    Run (Guarded G FamilyStep) ⟨⟨slotTable (q.ran 0 :: g :: l), 0⟩, o⟩
      (List.replicate 11 .timer)
      ⟨⟨slotTable (processReady q :: { g with status := Running } :: l), 1⟩, o⟩ :=
  run_game (fun p => (⟨p, o⟩ : FamilyState))
    (fun t _ htick => ⟨hG t _, callStep_timer htick, rfl⟩) hl hq hawake hready

/-- The kernel starts, and the game runs. -/
theorem run_gameState :
    Run FamilyStep (familyStart 0 0 0 fun _ => freePcb) (List.replicate 11 .timer) gameState := by
  rw [familyStart, initCond_slotTable]
  exact (run_ticks (G := fun _ _ => True) (q := idlePcb) (fun _ _ => trivial) (by decide) rfl
    (by decide) rfl).mono fun _ _ _ h => h.2

theorem fork_gameState : FamilyStep gameState (.fork 0 0) childState := by
  have hslot : forkSlot 0 gameState.procs = 2 := by decide +kernel
  refine ⟨fork_gameRunning, ?_⟩
  rw [originAfter, hslot]
  rfl

theorem fork_childState : FamilyStep childState (.fork 0 0) grandchildState := by
  have hfork : CallStep ⟨slotTable [processReady idlePcb, gameRunning.forks, childRunning],
      (2 : ℕ)⟩ (.fork 0 0) _ :=
    callStep_fork (k := 3) (by decide) (by decide) (by decide) (by decide) 0 rfl (by decide)
      (by decide +kernel)
  have hslot : forkSlot 0 childState.procs = 3 := by decide +kernel
  refine ⟨hfork, ?_⟩
  rw [originAfter, hslot]
  rfl

/-- The game's child exits, and the game goes on. -/
theorem resumes_game : ∃ l s, RunsNext 1 childState l s ∧ s.procs.cur.eax = 2 := by
  have hexit : CallStep ⟨slotTable [processReady idlePcb, gameRunning.forks, childRunning], (2 : ℕ)⟩
      .exit _ :=
    callStep_exit (k := 0) (by decide) (by decide) (by decide) rfl (by decide) (by decide +kernel)
  have hstep :
      FamilyStep childState .exit ⟨⟨slotTable [{ processReady idlePcb with status := Running },
      gameRunning.forks, childRunning.exits], 0⟩, Function.update childState.origin 2 .exited⟩ :=
    ⟨hexit, rfl⟩
  have hticks := run_ticks (G := fun s _ => s.procs.current ≠ 1)
    (o := Function.update childState.origin 2 .exited)
    (q := { processReady idlePcb with status := Running }) (g := gameRunning.forks)
    (l := [childRunning.exits]) (fun _ _ => (by decide : (0 : ℤ) ≠ 1)) (by decide) rfl
      (by decide) rfl
  exact ⟨_, _, ⟨.cons ⟨(by decide : (2 : ℤ) ≠ 1), hstep⟩ hticks, rfl⟩, rfl⟩

/-- The child's child exits, the game sleeps, and the child goes on. -/
theorem resumes_child : ∃ l s, RunsNext 2 grandchildState l s ∧ s.procs.cur.eax = -1 := by
  have hexit : CallStep ⟨slotTable [processReady idlePcb, gameRunning.forks, childRunning.forks,
      grandchildRunning], (3 : ℕ)⟩ .exit _ :=
    callStep_exit (k := 0) (by decide) (by decide) (by decide) rfl (by decide) (by decide +kernel)
  have hstep : FamilyStep grandchildState .exit
      ⟨⟨slotTable [{ processReady idlePcb with status := Running }, gameRunning.forks,
        childRunning.forks, grandchildRunning.exits], 0⟩,
        Function.update grandchildState.origin 3 .exited⟩ := ⟨hexit, rfl⟩
  have hticks := run_ticks (G := fun s _ => s.procs.current ≠ 2)
    (o := Function.update grandchildState.origin 3 .exited)
    (q := { processReady idlePcb with status := Running }) (g := gameRunning.forks)
    (l := [childRunning.forks, grandchildRunning.exits]) (fun _ _ => (by decide : (0 : ℤ) ≠ 2))
    (by decide) rfl (by decide) rfl
  have hsleep : CallStep ⟨slotTable [processReady { processReady idlePcb with status := Running },
      { gameRunning.forks with status := Running }, childRunning.forks, grandchildRunning.exits],
        (1 : ℕ)⟩ (.sleep 1) _ :=
    callStep_sleep (k := 2) (by decide) (by decide) (by decide) 1 rfl (by decide)
      (by decide +kernel)
  exact ⟨_, ⟨_, _⟩, ⟨.cons ⟨(by decide : (3 : ℤ) ≠ 2), hstep⟩
    (hticks.snoc ⟨(by decide : (1 : ℤ) ≠ 2), hsleep, rfl⟩), rfl⟩, rfl⟩

/-- The game's own `fork`: the game reads its `pid`, and the child −1. -/
theorem forkResults_ne_game :
    ∃ l s s' l₁ s₁ l₂ s₂, Run FamilyStep (familyStart 0 0 0 fun _ => freePcb) l s ∧
      FamilyStep s (.fork 0 0) s' ∧ RunsNext s.procs.current s' l₁ s₁ ∧
      RunsNext (forkSlot 0 s.procs) s' l₂ s₂ ∧ s₁.procs.cur.eax ≠ s₂.procs.cur.eax := by
  obtain ⟨l₁, s₁, hparent, -⟩ := resumes_game
  have hslot : forkSlot 0 gameState.procs = 2 := by decide +kernel
  have hchild : RunsNext (forkSlot 0 gameState.procs) childState [] childState :=
    ⟨.nil _, hslot.symm⟩
  exact ⟨_, _, _, _, _, _, _, run_gameState, fork_gameState, hparent, hchild,
    (forkResults_ne_iff 0 0 0 _ run_gameState fork_gameState hparent hchild).mpr (by decide)⟩

/-- The `fork` of the game's child: the child reads −1, and so does the child's child. -/
theorem forkResults_eq_child :
    ∃ l s s' l₁ s₁ l₂ s₂, Run FamilyStep (familyStart 0 0 0 fun _ => freePcb) l s ∧
      FamilyStep s (.fork 0 0) s' ∧ RunsNext s.procs.current s' l₁ s₁ ∧
      RunsNext (forkSlot 0 s.procs) s' l₂ s₂ ∧ ¬s₁.procs.cur.eax ≠ s₂.procs.cur.eax := by
  obtain ⟨l₁, s₁, hparent, heax⟩ := resumes_child
  have hslot : forkSlot 0 childState.procs = 3 := by decide +kernel
  refine ⟨_, _, _, _, _, _, _, run_gameState.snoc fork_gameState, fork_childState, hparent,
    ⟨.nil _, hslot.symm⟩, fun hne => hne ?_⟩
  rw [heax]
  rfl

end OsLab

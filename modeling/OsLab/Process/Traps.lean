import OsLab.Process.Boot

/-!
# Trap frames

A trap pushes a frame on the kernel stack that the processor is on, `irq_handle` stores its address
in `current->tf`, and in the end `asm_do_irq` loads `%esp` from the `tf` of whoever is `current` by
then. The semaphore calls and `handle_keys` turn interrupts on before they return. From there to the
load of `%esp` an interrupt may come, and the frame it pushes takes the place of the first one in
`tf`: when the interrupted call comes to its end it returns through the frame of the interrupt once
more.

Frames are numbered in the order in which they are pushed. `TrapState` has `tf`, and besides what
the kernel knows which frames each process has pushed that have not been restored yet (`pending`)
and what comes back when a frame is restored (`saved`). As long as no interrupt comes in a call
`TrapInv` holds: each process that is not running has one frame, the one in its `tf`.

The exceptions print a message and loop, so nothing returns from them.

## Main definitions

* `TrapState` — the process table with `tf` of each slot, and the frames
* `Trap` — what `irq_handle` is called for
* `TrapStep` — a trap that is served, a `schedule` with interrupts on, or the return from a trap
* `NoInterrupt` — no interrupt comes in a call
* `TrapState.Runs` — the process in slot `i` runs
* `TrapInv` — one frame for each process that does not run, on its own stack

## Main results

* `CallStep.traps` — the calls of the scheduler's model are done by traps and returns
* `traps_nested` — without interrupts in a call, each return is through the last frame of its
  process
* `TrapInv.irq_breaks` — with one it is not
-/

namespace OsLab

/-! ## The machine -/

/-- What the processor does. -/
inductive Mode
  /-- A process runs. -/
  | user
  /-- `asm_do_irq` is about to load `%esp`, and interrupts are off. -/
  | leaving
  /-- Interrupts are on in a call of which only `schedule`, if `switches` says so, and the load of
  `%esp` are left. -/
  | window (switches : Bool)
  deriving DecidableEq

/-- The process table with `tf` of each slot, and the frames. The next frame is number `next`, and
is pushed on the kernel stack of the process in slot `on`. -/
structure TrapState where
  procs : Procs
  tf : ℤ → ℕ
  on : ℤ
  mode : Mode
  next : ℕ
  /-- The frames of each process that have not been restored, the last one first. -/
  pending : ℤ → List ℕ
  /-- Whose stack a frame is on, and what goes on when it is restored. -/
  saved : ℕ → ℤ × Mode

/-- What `irq_handle` is called for. -/
inductive Trap
  /-- The keyboard or the disk. -/
  | irq
  /-- The timer, and the calls that concern the process table. -/
  | sched (c : SchedCall)
  /-- Any other call; `sti` says that it turns interrupts on. -/
  | other (sti : Bool)

/-- What comes from outside. -/
def Trap.IsInterrupt (t : Trap) : Prop := t = .irq ∨ t = .sched .timer

/-- `enable_interrupt()` stands at the end of the semaphores' functions. -/
def SchedCall.enables : SchedCall → Bool
  | .semWait _ | .semPost _ | .semTrywait _ | .semDestroy _ => true
  | _ => false

namespace TrapState

variable (s : TrapState)

/-- The next frame is put on the stack of the process in slot `i`, to go on in the mode `mode`. -/
def newFrame (i : ℤ) (mode : Mode) (frames : List ℕ) : TrapState :=
  { s with
    next := s.next + 1
    pending := Function.update s.pending i (s.next :: frames)
    saved := Function.update s.saved s.next (i, mode) }

/-- The processor pushes a frame, and `current->tf = tf`. -/
def push : TrapState :=
  { s.newFrame s.on s.mode (s.pending s.on) with tf := Function.update s.tf s.procs.current s.next }

/-- The frame of a new process. -/
def child : Option ℤ → TrapState
  | some i => { s.newFrame i .user [] with tf := Function.update s.tf i s.next }
  | none => s

/-- The rest of `irq_handle`. The `schedule` of a call that has turned interrupts on is not part
of it. -/
def handle : Trap → Option TrapState
  | .irq => some { s with mode := .leaving }
  | .other sti => some { s with mode := if sti then .window false else .leaving }
  | .sched c =>
    if c.enables then
      some { s with procs := c.change s.procs, mode := .window (decide (c.Switches s.procs)) }
    else (c.exec s.procs).map fun p =>
      { s.child (c.newSlot s.procs) with procs := p, mode := .leaving }

/-- `%esp` is loaded from `current->tf`. -/
def restore : TrapState :=
  let f := s.tf s.procs.current
  { s with
    on := (s.saved f).1
    mode := (s.saved f).2
    pending := fun i => (s.pending i).erase f }

/-- The load of `%esp` is next. -/
def Returns : Prop := s.mode = .leaving ∨ s.mode = .window false

end TrapState

/-- What can happen. -/
inductive TrapAction
  | trap (t : Trap)
  /-- The `schedule` of a call in which interrupts are on. -/
  | schedule
  | ret

/-- A process that runs may be interrupted or make a call, and a call in which interrupts are on may
be interrupted. -/
def Trap.Allowed (s : TrapState) (t : Trap) : Prop :=
  (s.mode = .user ∨ t.IsInterrupt ∧ ∃ switches, s.mode = .window switches) ∧
    match t with
    | .irq => True
    | .sched c => c.Allowed s.procs ∧ CallOk s.procs c
    | .other _ => s.procs.current ≠ 0

/-- A trap that is served, a `schedule` with interrupts on, or the return from a trap. -/
def TrapStep (s : TrapState) (a : TrapAction) (s' : TrapState) : Prop :=
  match a with
  | .trap t => t.Allowed s ∧ s.push.handle t = some s'
  | .schedule => s.mode = .window true ∧ EndOfTable s.procs ∧
    ∃ p, OsLab.schedule s.procs = some p ∧ s' = { s with procs := p, mode := .window false }
  | .ret => s.Returns ∧ s' = s.restore

/-- The kernel has started: the idle process runs, and `loader` has made a frame for the game. -/
def trapStart (kcr3 ucr3 : UInt32) (garbage : ℤ) (t : ℤ → PCB) : TrapState where
  procs := initCond kcr3 ucr3 garbage t
  tf := Function.update (fun _ => 0) 1 1
  on := 0
  mode := .user
  next := 2
  pending := Function.update (fun _ => []) 1 [1]
  saved f := (if f = 1 then 1 else 0, .user)

/-! ## Nested returns -/

/-- The frame that is restored for a process is the last one it has pushed that has not been
restored yet. -/
def TrapState.ReturnsNested (s : TrapState) : Prop :=
  s.Returns → (s.pending s.procs.current).head? = some (s.tf s.procs.current)

/-- No process has a frame in its `tf` that is on the stack of another. -/
def TrapState.OwnFrames (s : TrapState) : Prop :=
  ∀ i, 0 ≤ i → i < MAX_PCB → (s.procs.pcb_table i).status ≠ -1 → (s.saved (s.tf i)).1 = i

/-- No interrupt comes in a call. -/
def NoInterrupt (s : TrapState) (a : TrapAction) : Prop := ∀ t, a = .trap t → s.mode = .user

/-! ## The invariant -/

/-- The process in slot `i` runs. -/
def TrapState.Runs (s : TrapState) (i : ℤ) : Prop := s.mode = .user ∧ i = s.procs.current

/-- **One frame for each process that does not run**, on its own stack. -/
structure TrapInv (s : TrapState) : Prop where
  procs : CallInv s.procs
  fresh : ∀ i, s.tf i < s.next
  owner : ∀ i, 0 ≤ i → i < MAX_PCB → s.procs.Used i → s.saved (s.tf i) = (i, .user)
  one : ∀ i, 0 ≤ i → i < MAX_PCB → s.procs.Used i → ¬s.Runs i → s.pending i = [s.tf i]
  running : ∀ i, s.Runs i → s.on = i ∧ s.pending i = []

section Inv

variable {s s' : TrapState} {p : Procs} {m : Mode} {slot : Option ℤ} {t : Trap} {a : TrapAction}

theorem TrapState.Returns.not_user (h : s.Returns) : s.mode ≠ .user := by
  rcases h with hmode | hmode <;> rw [hmode] <;> exact Mode.noConfusion

theorem TrapState.not_runs (h : s.mode ≠ .user) (i : ℤ) : ¬s.Runs i := fun hr => h hr.1

theorem TrapState.child_mode (s : TrapState) (m : Mode) (slot : Option ℤ) :
    ({ s with mode := m } : TrapState).child slot = { s.child slot with mode := m } := by
  cases slot <;> rfl

/-- The running process is interrupted. -/
theorem TrapInv.push (h : TrapInv s) (hu : s.mode = .user) (hm : m ≠ .user) :
    TrapInv { s.push with mode := m } := by
  obtain ⟨hon, hempty⟩ := h.running _ ⟨hu, rfl⟩
  have hnot : ∀ i, ¬({ s.push with mode := m } : TrapState).Runs i := TrapState.not_runs hm
  refine ⟨h.procs, fun i => ?_, fun i hi hlt hused => ?_, fun i hi hlt hused _ => ?_,
    fun i hr => absurd hr (hnot i)⟩
  · show Function.update s.tf s.procs.current s.next i < s.next + 1
    rw [Function.update_apply]
    split
    · exact Nat.lt_succ_self _
    · exact Nat.lt_succ_of_lt (h.fresh i)
  · show Function.update s.saved s.next (s.on, s.mode)
      (Function.update s.tf s.procs.current s.next i) = (i, .user)
    rcases eq_or_ne i s.procs.current with rfl | hne
    · rw [Function.update_self, Function.update_self, hon, hu]
    · rw [Function.update_of_ne hne, Function.update_of_ne (h.fresh i).ne]
      exact h.owner i hi hlt hused
  · show Function.update s.pending s.on (s.next :: s.pending s.on) i =
      [Function.update s.tf s.procs.current s.next i]
    rw [hon]
    rcases eq_or_ne i s.procs.current with rfl | hne
    · rw [Function.update_self, Function.update_self, hempty]
    · rw [Function.update_of_ne hne, Function.update_of_ne hne]
      exact h.one i hi hlt hused fun hr => hne hr.2

/-- A call changes the process table, and may give a new process its frame. -/
theorem TrapInv.child (h : TrapInv s) (hs : s.mode ≠ .user) (hp : CallInv p)
    (hused : ∀ i, p.Used i → s.procs.Used i ∨ slot = some i) :
    TrapInv { s.child slot with procs := p } := by
  cases slot with
  | none =>
    have hsub : ∀ i, p.Used i → s.procs.Used i := fun i hi =>
      (hused i hi).resolve_right (Option.some_ne_none i).symm
    exact ⟨hp, h.fresh, fun i hi hlt hu => h.owner i hi hlt (hsub i hu),
      fun i hi hlt hu _ => h.one i hi hlt (hsub i hu) (TrapState.not_runs hs i),
      fun i hr => absurd hr.1 hs⟩
  | some j =>
    refine ⟨hp, fun i => ?_, fun i hi hlt hu => ?_, fun i hi hlt hu _ => ?_,
      fun i hr => absurd hr.1 hs⟩
    · show Function.update s.tf j s.next i < s.next + 1
      rw [Function.update_apply]
      split
      · exact Nat.lt_succ_self _
      · exact Nat.lt_succ_of_lt (h.fresh i)
    · show Function.update s.saved s.next (j, .user) (Function.update s.tf j s.next i) = (i, .user)
      rcases eq_or_ne i j with rfl | hne
      · rw [Function.update_self, Function.update_self]
      · have hu' : s.procs.Used i :=
          (hused i hu).resolve_right fun heq => hne (Option.some.inj heq).symm
        rw [Function.update_of_ne hne, Function.update_of_ne (h.fresh i).ne]
        exact h.owner i hi hlt hu'
    · show Function.update s.pending j [s.next] i = [Function.update s.tf j s.next i]
      rcases eq_or_ne i j with rfl | hne
      · rw [Function.update_self, Function.update_self]
      · have hu' : s.procs.Used i :=
          (hused i hu).resolve_right fun heq => hne (Option.some.inj heq).symm
        rw [Function.update_of_ne hne, Function.update_of_ne hne]
        exact h.one i hi hlt hu' (TrapState.not_runs hs i)

/-- A call that turns interrupts on creates no process. -/
theorem SchedCall.newSlot_of_enables {c : SchedCall} (h : c.enables = true) :
    c.newSlot p = none := by
  cases c with
  | fork | createThread => exact absurd h Bool.false_ne_true
  | _ => rfl

/-- **A trap** of the running process. -/
theorem TrapInv.trap (h : TrapInv s) (hu : s.mode = .user) (hallowed : t.Allowed s)
    (hs : s.push.handle t = some s') : TrapInv s' ∧ s'.mode ≠ .user := by
  have hleaving : Mode.leaving ≠ .user := Mode.noConfusion
  have hwindow : ∀ b, Mode.window b ≠ .user := fun b => Mode.noConfusion
  cases t with
  | irq =>
    obtain rfl := Option.some.inj hs
    exact ⟨h.push hu hleaving, hleaving⟩
  | other sti =>
    obtain rfl := Option.some.inj hs
    have hm : (if sti then Mode.window false else .leaving) ≠ .user := by
      split
      · exact hwindow false
      · exact hleaving
    exact ⟨h.push hu hm, hm⟩
  | sched c =>
    obtain ⟨-, hc, hok⟩ := hallowed
    rw [TrapState.handle] at hs
    split at hs
    · next henables =>
      obtain rfl := Option.some.inj hs
      have hused : ∀ i, (c.change s.procs).Used i → s.procs.Used i ∨ (none : Option ℤ) = some i :=
        fun i hi => by
          rw [← SchedCall.newSlot_of_enables (p := s.procs) henables]
          exact Procs.used_change h.procs hc hi
      exact ⟨(h.push hu (hwindow _)).child (hwindow _) (h.procs.change hc hok.1) hused, hwindow _⟩
    · obtain ⟨p, hp, rfl⟩ := Option.map_eq_some_iff.mp hs
      have hexec : c.exec s.procs = some p := hp
      have hused : ∀ i, p.Used i → s.procs.Used i ∨ c.newSlot s.procs = some i := fun i hi => by
        rw [SchedCall.exec_eq] at hexec
        split at hexec
        · exact Procs.used_change h.procs hc
            (Procs.used_schedule (h.procs.change hc hok.1) hexec hi)
        · obtain rfl := Option.some.inj hexec
          exact Procs.used_change h.procs hc hi
      have hchild := (h.push hu hleaving).child hleaving (h.procs.step ⟨hc, hok, hexec⟩) hused
      rw [TrapState.child_mode] at hchild
      exact ⟨hchild, hleaving⟩

/-- The `schedule` of a call in which interrupts are on. -/
theorem TrapInv.schedule (h : TrapInv s) (hs : s.mode ≠ .user) (hend : EndOfTable s.procs)
    (hp : OsLab.schedule s.procs = some p) : TrapInv { s with
      procs := p, mode := .window false } := by
  have hm : Mode.window false ≠ .user := Mode.noConfusion
  have hsub : ∀ i, p.Used i → s.procs.Used i := fun i => Procs.used_schedule h.procs hp
  exact ⟨h.procs.schedule hend hp, h.fresh, fun i hi hlt hu => h.owner i hi hlt (hsub i hu),
    fun i hi hlt hu _ => h.one i hi hlt (hsub i hu) (TrapState.not_runs hs i),
    fun i hr => absurd hr.1 hm⟩

/-- In a call, the frame in `current->tf` is the running process's only one. -/
theorem TrapInv.cur (h : TrapInv s) (hs : s.mode ≠ .user) :
    s.pending s.procs.current = [s.tf s.procs.current] ∧
      s.saved (s.tf s.procs.current) = (s.procs.current, .user) :=
  ⟨h.one _ h.procs.inTable.1 h.procs.inTable.2 s.procs.used_current (TrapState.not_runs hs _),
    h.owner _ h.procs.inTable.1 h.procs.inTable.2 s.procs.used_current⟩

/-- **A return** -/
theorem TrapInv.ret (h : TrapInv s) (hs : s.mode ≠ .user) :
    TrapInv s.restore ∧ s.restore.mode = .user := by
  obtain ⟨hpending, hsaved⟩ := h.cur hs
  have hmode : s.restore.mode = .user := congrArg Prod.snd hsaved
  have hon : s.restore.on = s.procs.current := congrArg Prod.fst hsaved
  refine ⟨⟨h.procs, h.fresh, h.owner, fun i hi hlt hu hr => ?_, fun i hr => ?_⟩, hmode⟩
  · have hne : i ≠ s.procs.current := fun heq => hr ⟨hmode, heq⟩
    show (s.pending i).erase (s.tf s.procs.current) = [s.tf i]
    rw [h.one i hi hlt hu (TrapState.not_runs hs i)]
    refine List.erase_of_not_mem fun hmem => hne ?_
    have howner := h.owner i hi hlt hu
    rw [← List.mem_singleton.mp hmem, hsaved] at howner
    exact (congrArg Prod.fst howner).symm
  · obtain ⟨-, rfl⟩ := hr
    refine ⟨hon, ?_⟩
    show (s.pending s.procs.current).erase (s.tf s.procs.current) = []
    rw [hpending, List.erase_cons_head]

/-- **One step.** -/
theorem TrapInv.step (h : TrapInv s) (hstep : Guarded NoInterrupt TrapStep s a s') :
    TrapInv s' := by
  obtain ⟨hno, hstep⟩ := hstep
  cases a with
  | trap t => exact (h.trap (hno t rfl) hstep.1 hstep.2).1
  | schedule =>
    obtain ⟨hmode, hend, p, hp, rfl⟩ := hstep
    exact h.schedule (by rw [hmode]; exact Mode.noConfusion) hend hp
  | ret =>
    obtain ⟨hr, rfl⟩ := hstep
    exact (h.ret hr.not_user).1

theorem TrapInv.start (kcr3 ucr3 : UInt32) (garbage : ℤ) (t : ℤ → PCB) :
    TrapInv (trapStart kcr3 ucr3 garbage t) := by
  have hused : ∀ i, 0 ≤ i → i < MAX_PCB → (initCond kcr3 ucr3 garbage t).Used i →
      i = 0 ∨ i = 1 := by
    intro i hi hlt hu
    by_contra hne
    rw [not_or] at hne
    rw [Procs.Used, initCond_slot kcr3 ucr3 garbage t hi hlt hne.1 hne.2, initCond_current] at hu
    rcases hu with hu | hu | hu
    · exact hu rfl
    · exact hu rfl
    · exact hne.1 hu
  refine ⟨CallInv.initCond kcr3 ucr3 garbage t, fun i => ?_, fun i hi hlt hu => ?_,
    fun i hi hlt hu hr => ?_, fun i hr => ?_⟩
  · show Function.update (fun _ => 0) 1 1 i < 2
    rw [Function.update_apply]
    split <;> decide
  · rcases hused i hi hlt hu with rfl | rfl <;> rfl
  · rcases hused i hi hlt hu with rfl | rfl
    · exact absurd ⟨rfl, (initCond_current ..).symm⟩ hr
    · rfl
  · obtain rfl : i = 0 := hr.2.trans (initCond_current ..)
    exact ⟨rfl, rfl⟩

theorem TrapInv.returnsNested (h : TrapInv s) : s.ReturnsNested := by
  intro hr
  rw [(h.cur hr.not_user).1]
  rfl

theorem TrapInv.ownFrames (h : TrapInv s) : s.OwnFrames := fun i hi hlt hlive =>
  congrArg Prod.fst (h.owner i hi hlt (.inl hlive))

/-! ### Calls -/

/-- A call that has come to its end returns. -/
theorem TrapInv.run_ret (h : TrapInv s) (hr : s.Returns) :
    Run (Guarded NoInterrupt TrapStep) s [.ret] s.restore ∧ s.restore.mode = .user := by
  exact ⟨.single ⟨fun _ heq => TrapAction.noConfusion heq, hr, rfl⟩, (h.ret hr.not_user).2⟩

/-- **A call** of the scheduler's model is a trap, a `schedule` when interrupts are on by then, and
a return. -/
theorem CallStep.traps {c : SchedCall} (hcall : CallStep s.procs c p) (h : TrapInv s)
    (hu : s.mode = .user) :
    ∃ l s', Run (Guarded NoInterrupt TrapStep) s l s' ∧ s'.procs = p ∧ s'.mode = .user := by
  obtain ⟨hc, hok, hexec⟩ := hcall
  have hallowed : (Trap.sched c).Allowed s := ⟨.inl hu, hc, hok⟩
  by_cases henables : c.enables = true
  · obtain ⟨s₁, hs₁⟩ : ∃ s₁ : TrapState, s₁ = { s.push with
        procs := c.change s.procs, mode := .window (decide (c.Switches s.procs)) } := ⟨_, rfl⟩
    have hhandle : s.push.handle (.sched c) = some s₁ := by
      rw [TrapState.handle, if_pos henables, hs₁]
      rfl
    obtain ⟨h₁, hmode₁⟩ := h.trap hu hallowed hhandle
    have hstep₁ : Guarded NoInterrupt TrapStep s (.trap (.sched c)) s₁ :=
      ⟨fun _ _ => hu, hallowed, hhandle⟩
    have hprocs₁ : s₁.procs = c.change s.procs := by rw [hs₁]
    rw [SchedCall.exec_eq, ← hprocs₁] at hexec
    by_cases hswitches : c.Switches s.procs
    · rw [if_pos hswitches] at hexec
      have hwindow : s₁.mode = .window true := by
        rw [hs₁]
        exact congrArg Mode.window (decide_eq_true hswitches)
      have hend : EndOfTable s₁.procs := by
        obtain ⟨hcur, h100⟩ := h.procs.change_frame hok.1
        rw [hprocs₁, EndOfTable, hcur, h100]
        exact hok.2 hswitches
      have hstep₂ : Guarded NoInterrupt TrapStep s₁ .schedule
          { s₁ with procs := p, mode := .window false } :=
        ⟨fun _ heq => TrapAction.noConfusion heq, hwindow, hend, p, hexec, rfl⟩
      obtain ⟨hrun, hmode⟩ := (h₁.step hstep₂).run_ret (.inr rfl)
      exact ⟨_, _, .cons hstep₁ (.cons hstep₂ hrun), rfl, hmode⟩
    · rw [if_neg hswitches] at hexec
      have hwindow : s₁.mode = .window false := by
        rw [hs₁]
        exact congrArg Mode.window (decide_eq_false hswitches)
      obtain ⟨hrun, hmode⟩ := h₁.run_ret (.inr hwindow)
      exact ⟨_, _, .cons hstep₁ hrun, Option.some.inj hexec, hmode⟩
  · have hexec' : c.exec s.push.procs = some p := hexec
    obtain ⟨s₁, hhandle, hprocs₁, hmode₁⟩ : ∃ s₁, s.push.handle (.sched c) = some s₁ ∧
        s₁.procs = p ∧ s₁.mode = .leaving := by
      rw [TrapState.handle, if_neg henables, hexec', Option.map_some]
      exact ⟨_, rfl, rfl, rfl⟩
    have hstep₁ : Guarded NoInterrupt TrapStep s (.trap (.sched c)) s₁ :=
      ⟨fun _ _ => hu, hallowed, hhandle⟩
    obtain ⟨hrun, hmode⟩ := (h.trap hu hallowed hhandle).1.run_ret (.inl hmode₁)
    exact ⟨_, _, .cons hstep₁ hrun, hprocs₁, hmode⟩

/-- **A run** of the scheduler's model is one of the machine's. -/
theorem runs_traps {l : List SchedCall} (hrun : Run CallStep s.procs l p) (h : TrapInv s)
    (hu : s.mode = .user) :
    ∃ l' s', Run (Guarded NoInterrupt TrapStep) s l' s' ∧ s'.procs = p ∧ s'.mode = .user := by
  induction l generalizing s with
  | nil =>
    obtain _ | _ := hrun
    exact ⟨[], s, .nil s, rfl, hu⟩
  | cons c l ih =>
    obtain ⟨p₁, hcall, hrest⟩ := hrun.exists_of_cons
    obtain ⟨l₁, s₁, hrun₁, rfl, hu₁⟩ := hcall.traps h hu
    have h₁ : TrapInv s₁ := hrun₁.invariant (fun _ _ _ h hstep => h.step hstep) h
    obtain ⟨l₂, s₂, hrun₂, hp, hu₂⟩ := ih hrest h₁ hu₁
    exact ⟨_, s₂, hrun₁.append hrun₂, hp, hu₂⟩

/-! ### Interrupts in a call -/

/-- **An interrupt in a call goes wrong**, at the return from it, or when the call returns in its
turn through the frame that has been restored. -/
theorem TrapInv.irq_breaks (h : TrapInv s) (hs : s.mode = .window false) :
    ∃ l s', Run TrapStep s l s' ∧ ¬s'.ReturnsNested := by
  have hmode : s.mode ≠ .user := by rw [hs]; exact Mode.noConfusion
  obtain ⟨hpending, hsaved⟩ := h.cur hmode
  have hlt := h.fresh s.procs.current
  have htrap : TrapStep s (.trap .irq) { s.push with mode := .leaving } :=
    ⟨⟨.inr ⟨.inl rfl, false, hs⟩, trivial⟩, rfl⟩
  by_cases hon : s.on = s.procs.current
  · have hf : s.push.tf s.procs.current = s.next := Function.update_self ..
    have hret : TrapStep { s.push with mode := .leaving } .ret
        ({ s.push with mode := .leaving } : TrapState).restore := ⟨.inl rfl, rfl⟩
    refine ⟨_, _, .cons htrap (.single hret), fun hnested => ?_⟩
    have hback : ({ s.push with mode := .leaving } : TrapState).restore.mode = .window false := by
      show (s.push.saved (s.push.tf s.procs.current)).2 = .window false
      rw [hf]
      show (Function.update s.saved s.next (s.on, s.mode) s.next).2 = .window false
      rw [Function.update_self, hs]
    have hhead := hnested (.inr hback)
    have hleft : (s.push.pending s.procs.current).erase (s.push.tf s.procs.current) =
        [s.tf s.procs.current] := by
      rw [hf]
      show (Function.update s.pending s.on
        (s.next :: s.pending s.on) s.procs.current).erase s.next = _
      rw [hon, Function.update_self, List.erase_cons_head, hpending]
    have hhead' : ((s.push.pending s.procs.current).erase (s.push.tf s.procs.current)).head? =
        some (s.push.tf s.procs.current) := hhead
    rw [hleft, hf] at hhead'
    exact hlt.ne (Option.some.inj hhead')
  · refine ⟨_, _, .single htrap, fun hnested => ?_⟩
    have hhead : (s.push.pending s.procs.current).head? = some (s.push.tf s.procs.current) :=
      hnested (.inl rfl)
    have hkept : s.push.pending s.procs.current = [s.tf s.procs.current] :=
      (Function.update_of_ne (Ne.symm hon) ..).trans hpending
    have hf : s.push.tf s.procs.current = s.next := Function.update_self ..
    rw [hkept, hf] at hhead
    exact hlt.ne (Option.some.inj hhead)

end Inv

/-- **Returns are nested**, in every state that is reached without an interrupt in a call. -/
theorem traps_nested (kcr3 ucr3 : UInt32) (garbage : ℤ) (t : ℤ → PCB) {l : List TrapAction}
    {s : TrapState}
    (hrun : Run (Guarded NoInterrupt TrapStep) (trapStart kcr3 ucr3 garbage t) l s) :
    s.ReturnsNested ∧ s.OwnFrames := by
  have h : TrapInv s := hrun.invariant (fun _ _ _ h hstep => h.step hstep)
    (TrapInv.start kcr3 ucr3 garbage t)
  exact ⟨h.returnsNested, h.ownFrames⟩

/-- The game calls `sem_init`. -/
theorem exists_run_semInit :
    ∃ l s, Run (Guarded NoInterrupt TrapStep) (trapStart 0 0 0 fun _ => freePcb) l s ∧
      s.mode = .window false := by
  have hstart : TrapInv (trapStart 0 0 0 fun _ => freePcb) := TrapInv.start ..
  obtain ⟨l, s, hrun, hprocs, hu⟩ := runs_traps run_gameRunning hstart rfl
  have hcur : s.procs.current ≠ 0 := by
    rw [hprocs]
    decide
  have hstep :
      Guarded NoInterrupt TrapStep s (.trap (.other true)) { s.push with mode := .window false } :=
    ⟨fun _ _ => hu, ⟨.inl hu, hcur⟩, rfl⟩
  exact ⟨_, _, hrun.snoc hstep, rfl⟩

theorem traps_nested_semInit :
    ∃ l s, Run (Guarded NoInterrupt TrapStep) (trapStart 0 0 0 fun _ => freePcb) l s ∧
      s.ReturnsNested ∧ s.OwnFrames := by
  obtain ⟨l, s, hrun, -⟩ := exists_run_semInit
  exact ⟨l, s, hrun, traps_nested 0 0 0 _ hrun⟩

/-- The keyboard's interrupt comes before that call has returned. -/
theorem irq_in_semInit :
    ∃ l s, Run TrapStep (trapStart 0 0 0 fun _ => freePcb) l s ∧ ¬s.ReturnsNested := by
  obtain ⟨l, s, hrun, hmode⟩ := exists_run_semInit
  have h : TrapInv s := hrun.invariant (fun _ _ _ h hstep => h.step hstep) (TrapInv.start ..)
  obtain ⟨l', s', hrun', hwrong⟩ := h.irq_breaks hmode
  exact ⟨_, s', (hrun.mono fun _ _ _ hstep => hstep.2).append hrun', hwrong⟩

end OsLab

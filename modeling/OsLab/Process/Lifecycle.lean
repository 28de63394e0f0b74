import Mathlib.Data.List.GetD
import OsLab.Process.Pcb

/-!
# Scheduling, and the life of a process

`schedule` goes around the table from the slot behind the running process to that process, and
stops at the first slot that is ready. `schedule_ends` shows that it ends, and `schedule_cases` says
all it can do to the table, so that the later modules do not look at the loop.

`process_fork`, `create_thread` and `process_exit` are given here as what they do to the process
table. The page directory that `copy` or `thread_copy` makes for the new process is the parameter
`cr3`, and the pages are the subject of the memory modules. When every slot is taken `get_pcb`
returns an uninitialised local, the parameter `garbage`.

## Main definitions

* `EndOfTable` — `schedule` does not take what is behind the table for a PCB
* `getPcbOr` — `getPcb`, with what it returns when no slot is free
* `newProcess` — a new process in slot `c`, with its page directory, ready to run
* `forkChild` — the state in which `process_fork` calls `schedule`
-/

namespace OsLab

/-! ## `schedule` -/

/-- The loop ends: fewer than 100 slots are between `i` and the slot it started from. -/
theorem scheduleLoop_ends {t : ℤ → PCB} {home : ℤ} (hhome : 0 ≤ home) (hlt : home < MAX_PCB)
    {fuel : ℕ} {i : ℤ} (hi : 0 ≤ i) (hi' : i < MAX_PCB)
    (hfuel : (home - i) % MAX_PCB < fuel) : scheduleLoop t home fuel i ≠ none := by
  simp only [MAX_PCB] at hlt hi' hfuel
  induction fuel generalizing i with
  | zero => omega
  | succ fuel ih =>
    have hmod : i.tmod MAX_PCB = i := Int.tmod_eq_of_lt hi hi'
    rw [scheduleLoop, hmod]
    split
    · split
      · exact nofun
      · have hnext : (i + 1).tmod MAX_PCB = (i + 1) % 100 :=
          Int.tmod_eq_emod_of_nonneg (by omega)
        rw [hnext]
        exact ih (by omega) (by omega) (by omega)
    · exact nofun

theorem schedule_ends {p : Procs} (h : 0 ≤ p.cur.pcb_index) (hlt : p.cur.pcb_index < MAX_PCB) :
    schedule p ≠ none := by
  rw [schedule, ne_eq, Option.map_eq_none_iff]
  generalize p.cur.pcb_index = home at h hlt
  simp only [MAX_PCB] at hlt
  rcases eq_or_ne home 99 with rfl | hne
  · -- the first slot looked at is the one behind the table, and the second is slot 1
    have h100 : (100 : ℤ).tmod MAX_PCB = 0 := rfl
    have h101 : (100 + 1 : ℤ).tmod MAX_PCB = 1 := rfl
    show scheduleLoop p.pcb_table 99 (101 + 1) 100 ≠ none
    rw [scheduleLoop, h100, if_pos (by decide)]
    split
    · exact nofun
    · rw [h101]
      exact scheduleLoop_ends (by decide) (by decide) (by decide) (by decide) (by decide)
  · exact scheduleLoop_ends h hlt (by omega) (by simp only [MAX_PCB]; omega)
      (by simp only [MAX_PCB]; omega)

theorem scheduleLoop_ready {t : ℤ → PCB} {home : ℤ} {fuel : ℕ} {i j : ℤ}
    (h : scheduleLoop t home fuel i = some (some j)) : (t j).status = Ready := by
  induction fuel generalizing i with
  | zero => exact absurd h nofun
  | succ fuel ih =>
    rw [scheduleLoop] at h
    split at h
    · split at h
      · obtain rfl : i = j := by simpa using h
        assumption
      · exact ih h
    · exact absurd h nofun

/-- The loop stops at the slot it starts with or at one inside the table. -/
theorem scheduleLoop_inTable {t : ℤ → PCB} {home : ℤ} {fuel : ℕ} {i j : ℤ} (hi : 0 ≤ i)
    (h : scheduleLoop t home fuel i = some (some j)) : j = i ∨ 0 ≤ j ∧ j < MAX_PCB := by
  induction fuel generalizing i with
  | zero => exact absurd h nofun
  | succ fuel ih =>
    rw [scheduleLoop] at h
    split at h
    · split at h
      · obtain rfl : i = j := by simpa using h
        exact .inl rfl
      · have hnext := tdiv_tmod_spec (i + 1) (show 0 < MAX_PCB by decide)
        rcases ih (hnext.2.1 (by omega)).2.1 h with rfl | hj
        · exact .inr (hnext.2.1 (by omega)).2
        · exact .inr hj
    · exact absurd h nofun

/-- **What `schedule` can do.** It takes a slot that is ready and makes it the running one, or it
falls back to slot 0, whose PCB it leaves as it is. -/
theorem schedule_cases {p p' : Procs} (h : schedule p = some p') :
    (∃ i, (p.pcb_table i).status = Ready ∧
      p' = ({ p with current := i }).modify i fun q => { q with status := Running }) ∨
      p' = { p with current := 0 } := by
  rw [schedule, Option.map_eq_some_iff] at h
  obtain ⟨found, hfound, rfl⟩ := h
  cases found with
  | some i => exact .inl ⟨i, scheduleLoop_ready hfound, rfl⟩
  | none => exact .inr rfl

/-- `schedule` stays inside the table, unless it is run from slot 99 and takes what is behind the
table for a PCB that is ready. -/
theorem schedule_inTable {p p' : Procs} (h : schedule p = some p') (hhome : 0 ≤ p.cur.pcb_index)
    (hlt : p.cur.pcb_index < MAX_PCB)
    (hend : p.cur.pcb_index = 99 → (p.pcb_table 100).status ≠ Ready) :
    0 ≤ p'.current ∧ p'.current < MAX_PCB := by
  rw [schedule, Option.map_eq_some_iff] at h
  obtain ⟨found, hfound, rfl⟩ := h
  simp only [MAX_PCB] at hlt ⊢
  cases found with
  | some i =>
    have hready := scheduleLoop_ready hfound
    show 0 ≤ i ∧ i < 100
    rcases scheduleLoop_inTable (by omega) hfound with rfl | hi
    · refine ⟨by omega, ?_⟩
      by_contra hge
      have h99 : p.cur.pcb_index = 99 := by omega
      rw [h99] at hready
      exact hend h99 hready
    · exact hi
  | none =>
    show (0 : ℤ) ≤ 0 ∧ (0 : ℤ) < 100
    decide

/-- An assignment leaves the fields alone that it does not set. -/
theorem Procs.modify_frame {α : Type*} {g : PCB → α} {p : Procs} {i : ℤ} {f : PCB → PCB}
    (hf : ∀ q, g (f q) = g q) (j : ℤ) : g ((p.modify i f).pcb_table j) = g (p.pcb_table j) := by
  simp only [Procs.modify]
  rcases eq_or_ne j i with rfl | hne
  · rw [Function.update_self, hf]
  · rw [Function.update_of_ne hne]

theorem Procs.modify_modify (p : Procs) (i : ℤ) (f g : PCB → PCB) :
    (p.modify i f).modify i g = p.modify i fun q => g (f q) := by
  simp [Procs.modify]

/-- `schedule` leaves every field but `status` as it is. -/
theorem schedule_frame {α : Type*} {g : PCB → α} (hg : ∀ q s, g { q with status := s } = g q)
    {p p' : Procs} (h : schedule p = some p') (j : ℤ) : g (p'.pcb_table j) = g (p.pcb_table j) := by
  obtain ⟨i, -, rfl⟩ | rfl := schedule_cases h
  · exact Procs.modify_frame (fun q => by rw [hg]) j
  · rfl

/-- A status changes from ready to running only. -/
theorem schedule_status {p p' : Procs} (h : schedule p = some p') (j : ℤ) :
    (p'.pcb_table j).status = (p.pcb_table j).status ∨
      (p.pcb_table j).status = Ready ∧ (p'.pcb_table j).status = Running := by
  obtain ⟨i, hready, rfl⟩ | rfl := schedule_cases h
  · simp only [Procs.modify]
    rcases eq_or_ne j i with rfl | hne
    · rw [Function.update_self]
      exact .inr ⟨hready, rfl⟩
    · rw [Function.update_of_ne hne]
      exact .inl rfl
  · exact .inl rfl

/-- The running process was ready, or it is the one in slot 0. -/
theorem schedule_current {p p' : Procs} (h : schedule p = some p') :
    (p.pcb_table p'.current).status = Ready ∧ p'.cur.status = Running ∨
      p'.current = 0 ∧ p'.pcb_table = p.pcb_table := by
  obtain ⟨i, hready, rfl⟩ | rfl := schedule_cases h
  · refine .inl ⟨hready, ?_⟩
    simp [Procs.cur, Procs.modify]
  · exact .inr ⟨rfl, rfl⟩

/-- `schedule` does not take what is behind the table for a PCB. -/
def EndOfTable (p : Procs) : Prop := p.current = 99 → (p.pcb_table 100).status ≠ Ready

/-! ## `process_fork`, `create_thread` and `process_exit` -/

/-- `getPcb`, with what it returns when no slot is free. -/
def getPcbOr (garbage : ℤ) (t : ℤ → PCB) : ℤ := (getPcb t).getD garbage

/-- A new process in slot `c`, with its page directory, ready to run. -/
def newProcess (pid c : ℤ) (cr3 : UInt32) (p : Procs) : Procs :=
  p.modify c fun q => { processReady (pcbNew pid p.cur.pid c q) with cr3 := cr3 }

/-- What `process_fork` does first, to its caller. -/
def forkCaller (p : Procs) : Procs :=
  p.modify p.current fun q => { q with eax := q.pid, status := Ready }

/-- The slot `process_fork` takes. -/
def forkSlot (garbage : ℤ) (p : Procs) : ℤ := getPcbOr garbage (forkCaller p).pcb_table

/-- `memcpy(dst, src, sizeof(int) * NR_FILE)` -/
def copyFcb (src dst : ℤ → ℤ) (fd : ℤ) : ℤ := if 0 ≤ fd ∧ fd < NR_FILE then src fd else dst fd

/-- The state in which `process_fork` calls `schedule`. -/
def forkChild (cr3 : UInt32) (garbage : ℤ) (p : Procs) : Procs :=
  let c := forkSlot garbage p
  let p := newProcess (-1) c cr3 (forkCaller p)
  p.modify c fun q => { q with fcb := copyFcb p.cur.fcb q.fcb, eax := -1 }

/-- `process_fork` -/
def processFork (cr3 : UInt32) (garbage : ℤ) (p : Procs) : Option Procs :=
  schedule (forkChild cr3 garbage p)

/-- `create_thread`. The registers of the new frame that it does not set, `eax` among them, are
what was on the kernel stack of the slot. -/
def createThread (cr3 : UInt32) (garbage : ℤ) (p : Procs) : Procs :=
  newProcess (-2) (getPcbOr garbage p.pcb_table) cr3 p

/-- `process_exit` -/
def processExit (p : Procs) : Option Procs :=
  schedule (p.modify p.current fun q => { q with status := -1, pid := -1 })

/-! ### Descriptors -/

section Fcb

variable {p p' : Procs} {cr3 : UInt32} {garbage j fd : ℤ}

@[simp] theorem fcb_newProcess (pid c : ℤ) (cr3 : UInt32) (p : Procs) (j : ℤ) :
    ((newProcess pid c cr3 p).pcb_table j).fcb = (p.pcb_table j).fcb :=
  Procs.modify_frame (g := PCB.fcb) (fun q => by rfl) j

/-- The child has the descriptors of its parent, and nobody else's change. -/
theorem fcb_processFork (h : processFork cr3 garbage p = some p') (hfd : 0 ≤ fd)
    (hlt : fd < NR_FILE) :
    (p'.pcb_table j).fcb fd =
      if j = forkSlot garbage p then p.cur.fcb fd else (p.pcb_table j).fcb fd := by
  have hnew : ∀ j, ((newProcess (-1) (forkSlot garbage p) cr3 (forkCaller p)).pcb_table j).fcb =
      (p.pcb_table j).fcb := fun j => by
    rw [fcb_newProcess]
    exact Procs.modify_frame (g := PCB.fcb) (fun q => by rfl) _
  rw [schedule_frame (g := PCB.fcb) (fun q s => rfl) h, forkChild]
  simp only [Procs.modify]
  split
  · next hj =>
    rw [hj, Function.update_self]
    show copyFcb _ _ fd = _
    rw [copyFcb, if_pos ⟨hfd, hlt⟩, Procs.cur, hnew]
    rfl
  · next hj => rw [Function.update_of_ne hj, hnew]

@[simp] theorem fcb_createThread :
    ((createThread cr3 garbage p).pcb_table j).fcb = (p.pcb_table j).fcb :=
  fcb_newProcess ..

theorem fcb_processExit (h : processExit p = some p') :
    (p'.pcb_table j).fcb = (p.pcb_table j).fcb := by
  rw [schedule_frame (g := PCB.fcb) (fun q s => rfl) h]
  exact Procs.modify_frame (g := PCB.fcb) (fun q => by rfl) _

end Fcb

/-! ### Small process tables -/

/-- A slot as `pcb_init` leaves it. -/
def freePcb : PCB := ⟨0, fun _ => -1, -1, 0, -1, 0, 0, 0, 0, -1⟩

/-- The table with the given PCBs in its first slots. -/
def slotTable (l : List PCB) (i : ℤ) : PCB := if 0 ≤ i then l.getD i.toNat freePcb else freePcb

/-- The slots behind the list are free. -/
theorem slotTable_mem (l : List PCB) (i : ℤ) : slotTable l i ∈ l ∨ slotTable l i = freePcb := by
  rw [slotTable]
  split
  · rw [List.getD_eq_getElem?_getD]
    cases h : l[i.toNat]? with
    | none => exact .inr rfl
    | some q => exact .inl (List.mem_of_getElem? h)
  · exact .inr rfl

theorem slotTable_free {l : List PCB} {i : ℤ} (hi : ¬(0 ≤ i ∧ i < l.length)) :
    slotTable l i = freePcb := by
  rw [slotTable]
  split
  · exact List.getD_eq_default _ _ (by omega)
  · rfl

theorem slotTable_update {l : List PCB} {n : ℕ} (hn : n < l.length) (q : PCB) :
    Function.update (slotTable l) n q = slotTable (l.set n q) := by
  funext i
  rcases eq_or_ne i n with rfl | hi
  · rw [Function.update_self, slotTable, if_pos (Int.natCast_nonneg n), Int.toNat_natCast,
      List.getD_eq_getElem?_getD, List.getElem?_set_self hn, Option.getD_some]
  · rw [Function.update_of_ne hi, slotTable, slotTable]
    by_cases h0 : 0 ≤ i
    · rw [if_pos h0, if_pos h0, List.getD_eq_getElem?_getD, List.getD_eq_getElem?_getD,
        List.getElem?_set_ne (by omega)]
    · rw [if_neg h0, if_neg h0]

/-- An assignment to the PCB in one of the first slots. -/
theorem modify_slotTable {l : List PCB} {c : ℤ} {n : ℕ} (f : PCB → PCB) (hn : n < l.length) :
    (⟨slotTable l, c⟩ : Procs).modify n f = ⟨slotTable (l.set n (f (slotTable l n))), c⟩ := by
  show (⟨Function.update (slotTable l) n (f (slotTable l n)), c⟩ : Procs) = _
  rw [slotTable_update hn]

/-- `schedule`, when it finds one of the first slots ready. -/
theorem schedule_slotTable {l : List PCB} {c : ℤ} {n : ℕ} (hn : n < l.length)
    (h : scheduleLoop (slotTable l) (slotTable l c).pcb_index 102 ((slotTable l c).pcb_index + 1) =
      some (some (n : ℤ))) :
    schedule ⟨slotTable l, c⟩ =
      some ⟨slotTable (l.set n { slotTable l n with status := Running }), n⟩ := by
  have hcur : (⟨slotTable l, c⟩ : Procs).cur = slotTable l c := rfl
  rw [schedule, hcur, h, Option.map_some]
  exact congrArg some (modify_slotTable _ hn)

/-- The idle process, in slot 0. -/
def idlePcb : PCB := pcbNew 1 0 0 freePcb

/-- The game, in slot 1. -/
def gamePcb : PCB := processReady (pcbNew 2 0 1 freePcb)

end OsLab

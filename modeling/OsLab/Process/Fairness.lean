import OsLab.Process.Calls
import OsLab.Process.RoundRobin

/-!
# Who is ready gets the processor

The running process keeps the processor for eleven ticks at most, or for twice that if it posts the
semaphore that it has been waiting for itself: `release_sem` starts its slice again, and takes the
semaphore out of its PCB, so that this happens once. Every `schedule` goes to a slot that is ahead
of the running one and not behind a slot that is ready, so that it comes nearer to that slot.

## Main definitions

* `slotsAhead` — how many slots the scheduler has to pass from slot `c` to slot `i`
* `PCB.slice` — the ticks for which the process may still keep the processor
* `Procs.waits` — the ticks that slot `i` may have to wait
* `Waiting` — the slot waits for its turn

## Main results

* `Waiting.step` — one call
* `ready_runs` — a process that is ready runs within 2200 ticks
-/

namespace OsLab

/-- How many slots the scheduler has to pass from slot `c` to slot `i`. -/
def slotsAhead (c i : ℤ) : ℕ := ((i - c) % MAX_PCB).toNat

/-- The ticks for which the process may still keep the processor. -/
def PCB.slice (q : PCB) : ℕ :=
  (10 - q.time_count).toNat + if q.block_sem_index = -1 then 0 else 11

/-- The ticks that slot `i` may have to wait. -/
def Procs.waits (i : ℤ) (p : Procs) : ℕ := 22 * slotsAhead p.current i + p.cur.slice

/-- The call is the timer's interrupt. -/
def SchedCall.isTimer : SchedCall → Bool
  | timer => true
  | _ => false

/-- The slot waits for its turn. -/
structure Waiting (i : ℤ) (p : Procs) : Prop where
  inv : SchedInv p
  inTable : 0 ≤ i ∧ i < MAX_PCB
  ready : (p.pcb_table i).status = Ready
  other : i ≠ p.current

section Order

variable {c i j : ℤ}

theorem slotsAhead_le (c i : ℤ) : slotsAhead c i ≤ 99 := by
  simp only [slotsAhead, MAX_PCB]
  omega

theorem pairwise_slotsFrom (lo hi : ℤ) : (slotsFrom lo hi).Pairwise (· < ·) := by
  refine List.Pairwise.map _ (fun a b hab => ?_) List.pairwise_lt_range
  omega

/-- The cyclic order is by the number of slots ahead. -/
theorem pairwise_cyclicOrder (hc : 0 ≤ c) (hlt : c < MAX_PCB) :
    (cyclicOrder c).Pairwise fun a b => slotsAhead c a < slotsAhead c b := by
  simp only [MAX_PCB] at hlt
  simp only [slotsAhead, MAX_PCB]
  refine List.pairwise_append.mpr ⟨?_, ?_, fun a ha b hb => ?_⟩
  · refine (pairwise_slotsFrom _ _).imp_of_mem fun ha hb hab => ?_
    rw [mem_slotsFrom, MAX_PCB] at ha hb
    omega
  · refine (pairwise_slotsFrom _ _).imp_of_mem fun ha hb hab => ?_
    rw [mem_slotsFrom] at ha hb
    omega
  · rw [mem_slotsFrom, MAX_PCB] at ha
    rw [mem_slotsFrom] at hb
    omega

theorem mem_cyclicOrder (hi : 0 ≤ i) (hlt : i < MAX_PCB) (hne : i ≠ c) : i ∈ cyclicOrder c := by
  rw [cyclicOrder, List.mem_append, mem_slotsFrom, mem_slotsFrom]
  omega

/-- The slot that is found is not behind any slot that is ready. -/
theorem find_cyclicOrder_le {t : ℤ → PCB} (hc : 0 ≤ c) (hlt : c < MAX_PCB) (hi : i ∈ cyclicOrder c)
    (hready : (t i).status = Ready)
    (h : ((cyclicOrder c).find? fun i => (t i).status = Ready) = some j) :
    j = i ∨ slotsAhead c j < slotsAhead c i := by
  obtain ⟨-, before, after, horder, hbefore⟩ := List.find?_eq_some_iff_append.mp h
  have hsorted := pairwise_cyclicOrder hc hlt
  rw [horder] at hi hsorted
  rcases List.mem_append.mp hi with hmem | hmem
  · have hnot := hbefore i hmem
    simp only [hready, decide_true, Bool.not_true, Bool.false_eq_true] at hnot
  · rcases List.mem_cons.mp hmem with rfl | hmem
    · exact .inl rfl
    · exact .inr (List.rel_of_pairwise_cons (List.pairwise_append.mp hsorted).2.1 hmem)

/-- From a slot on the way there are fewer to pass. -/
theorem slotsAhead_lt (hpos : j ≠ c) (hj : 0 ≤ j ∧ j < MAX_PCB) (hc : 0 ≤ c ∧ c < MAX_PCB)
    (h : slotsAhead c j < slotsAhead c i) : slotsAhead j i < slotsAhead c i := by
  simp only [slotsAhead, MAX_PCB] at *
  omega

end Order

section Calls

variable {p p' : Procs} {c : SchedCall} {i : ℤ}

theorem SchedInv.slice_le (h : SchedInv p) : p.cur.slice ≤ 21 := by
  have hcount := h.cur_counted.1
  rw [PCB.slice]
  split <;> omega

theorem SchedInv.waits_le (h : SchedInv p) (i : ℤ) : p.waits i < 2200 := by
  have hslice := h.slice_le
  have hahead := slotsAhead_le p.current i
  rw [Procs.waits]
  omega

/-- `release_sem` gives a process at most one more slice. -/
theorem slice_releaseSem {x : ℤ} (hx : 0 ≤ x) (t : ℤ → PCB) (i : ℤ) :
    (releaseSem x t i).slice ≤ (t i).slice := by
  rcases releaseSem_cases x t with ⟨heq, -⟩ | ⟨j, -, -, hj, heq⟩ <;> rw [heq]
  rcases eq_or_ne i j with rfl | hne
  · have hblocked : (t i).block_sem_index ≠ -1 := by omega
    rw [Function.update_self, PCB.slice, PCB.slice, if_neg hblocked]
    dsimp only
    rw [if_pos rfl]
    omega
  · rw [Function.update_of_ne hne]

/-- The running process goes on: a tick takes from its slice. -/
theorem SchedInv.slice_change (h : SchedInv p) (hallowed : c.Allowed p) (hstays : ¬c.Switches p) :
    ((c.change p).pcb_table p.current).slice + c.isTimer.toNat ≤ p.cur.slice := by
  have hcount := h.cur_counted
  cases c with
  | sleep _ | fork _ _ | exit => exact absurd trivial hstays
  | timer =>
    have hwake : OsLab.wakeup p.pcb_table p.current = p.cur := by
      rcases wakeup_cases p.pcb_table p.current with heq | ⟨hblocked, -⟩
      · exact heq
      · exact absurd hblocked h.runs.1
    have hne : ({ p with pcb_table := OsLab.wakeup p.pcb_table } : Procs).cur.time_count ≠ 10 := by
      show (OsLab.wakeup p.pcb_table p.current).time_count ≠ 10
      rw [hwake]
      exact hstays
    have hlt : p.cur.time_count ≠ 10 := hstays
    rw [SchedCall.change]
    dsimp only
    rw [if_neg hne, Procs.pcb_table_modify_self]
    dsimp only
    rw [hwake, int32_eq (by omega) (by omega), PCB.slice, PCB.slice]
    show (10 - (p.cur.time_count + 1)).toNat + _ + 1 ≤ _
    split <;> omega
  | createThread cr3 garbage =>
    obtain ⟨j, hj⟩ := Option.ne_none_iff_exists'.mp (h.findsSlot (.createThread cr3 garbage))
    have hne : p.current ≠ j := by
      rintro rfl
      exact h.runs.2 (getPcb_eq_some hj).2.2.1
    show ((OsLab.createThread cr3 garbage p).pcb_table p.current).slice ≤ p.cur.slice
    rw [OsLab.createThread, getPcbOr, hj]
    show ((newProcess (-2) j cr3 p).pcb_table p.current).slice ≤ _
    rw [newProcess, p.pcb_table_modify_of_ne _ hne]
    exact Nat.le_refl _
  | semWait sem =>
    have hblocks : ¬sem.Blocks := hstays
    show ((if sem.Blocks then blockOn sem.sem_index p else p).pcb_table p.current).slice ≤ _
    rw [if_neg hblocks]
    exact Nat.le_refl _
  | semPost sem =>
    show ((if sem.Releases then OsLab.semDestroy sem p else p).pcb_table p.current).slice ≤ _
    split
    · exact slice_releaseSem hallowed.2 ..
    · exact Nat.le_refl _
  | semTrywait sem =>
    rw [SchedCall.change, p.pcb_table_modify_self]
    exact Nat.le_refl _
  | semDestroy sem => exact slice_releaseSem hallowed.2 ..

/-- Whoever is ready is ready after a change. -/
theorem Waiting.change_ready (h : Waiting i p) (c : SchedCall) :
    ((c.change p).pcb_table i).status = Ready := by
  have hready := h.ready
  have hrelease : ∀ x, (releaseSem x p.pcb_table i).status = Ready := fun x => by
    rcases releaseSem_cases x p.pcb_table with ⟨heq, -⟩ | ⟨j, -, -, -, heq⟩ <;> rw [heq]
    · exact hready
    · rcases eq_or_ne i j with rfl | hne
      · rw [Function.update_self]
      · rw [Function.update_of_ne hne]
        exact hready
  rw [h.inv.callInv.change_other (h.inv.findsSlot c) h.other (by rw [hready]; decide)]
  cases c with
  | timer =>
    rcases wakeup_cases p.pcb_table i with heq | ⟨hblocked, -⟩
    · exact (congrArg PCB.status heq).trans hready
    · exact absurd (hready.symm.trans hblocked) (by decide)
  | semPost sem =>
    rw [SchedCall.onOther]
    split
    · exact hrelease _
    · exact hready
  | semDestroy sem => exact hrelease _
  | sleep _ | fork _ _ | createThread _ _ | exit | semWait _ | semTrywait _ => exact hready

/-- **`schedule` comes nearer**, or has arrived. -/
theorem schedule_nearer {q : Procs} (hcur : 0 ≤ q.current) (hlt : q.current < 99)
    (hhome : q.cur.pcb_index = q.current) (hi : 0 ≤ i ∧ i < MAX_PCB) (hne : i ≠ q.current)
    (hready : (q.pcb_table i).status = Ready) (hs : schedule q = some p') :
    p'.current = i ∨ i ≠ p'.current ∧ (p'.pcb_table i).status = Ready ∧
      slotsAhead p'.current i < slotsAhead q.current i := by
  have hlt' : q.current < MAX_PCB := by simp only [MAX_PCB]; omega
  have hmem := mem_cyclicOrder hi.1 hi.2 hne
  rw [schedule, hhome, scheduleLoop_cyclic hcur hlt] at hs
  cases hfind : (cyclicOrder q.current).find? fun i => (q.pcb_table i).status = Ready with
  | none => exact absurd (decide_eq_true hready) (List.find?_eq_none.mp hfind i hmem)
  | some j =>
    rw [hfind] at hs
    obtain rfl := Option.some.inj hs
    rcases find_cyclicOrder_le hcur hlt' hmem hready hfind with rfl | hbefore
    · exact .inl rfl
    · have hj := List.mem_of_find?_eq_some hfind
      have hij : i ≠ j := by
        rintro rfl
        exact absurd hbefore (Nat.lt_irrefl _)
      obtain ⟨hjc, hjt⟩ : j ≠ q.current ∧ 0 ≤ j ∧ j < MAX_PCB := by
        rw [cyclicOrder, List.mem_append, mem_slotsFrom, mem_slotsFrom] at hj
        omega
      refine .inr ⟨hij, ?_, slotsAhead_lt hjc hjt ⟨hcur, hlt'⟩ hbefore⟩
      show ((Procs.modify _ j _).pcb_table i).status = Ready
      rw [Procs.pcb_table_modify_of_ne _ _ hij]
      exact hready

/-- **One call.** The slot gets its turn, or waits on, and no longer than before. -/
theorem Waiting.step (h : Waiting i p) (hstep : SchedStep p c p') :
    p'.current = i ∨ Waiting i p' ∧ p'.waits i + c.isTimer.toNat ≤ p.waits i := by
  have hinv' := h.inv.step hstep
  obtain ⟨hallowed, hexec, -⟩ := hstep
  have hready := h.change_ready c
  have hchange := h.inv.callInv.change hallowed (h.inv.findsSlot c)
  obtain ⟨hcurrent, -⟩ := h.inv.callInv.change_frame (h.inv.findsSlot c)
  have hhome := hchange.cur_home
  rw [SchedCall.exec_eq] at hexec
  split at hexec
  · obtain ⟨q, hq⟩ : ∃ q, q = c.change p := ⟨_, rfl⟩
    rw [← hq] at hready hcurrent hhome hexec
    have hnext := schedule_nearer (hcurrent ▸ h.inv.nonneg) (hcurrent ▸ h.inv.lt) hhome h.inTable
      (hcurrent ▸ h.other) hready hexec
    refine hnext.imp_right fun ⟨hne, hready', hless⟩ => ⟨⟨hinv', h.inTable, hready', hne⟩, ?_⟩
    have hslice := hinv'.slice_le
    have htick := c.isTimer.toNat_le
    rw [hcurrent] at hless
    rw [Procs.waits, Procs.waits]
    omega
  · next hstays =>
    obtain rfl := Option.some.inj hexec
    have hslice := h.inv.slice_change hallowed hstays
    refine .inr ⟨⟨hinv', h.inTable, hready, hcurrent ▸ h.other⟩, ?_⟩
    rw [Procs.waits, Procs.waits, Procs.cur, hcurrent]
    omega

end Calls

/-- **No starvation.** A process that is ready runs before the timer has ticked 2200 times. -/
theorem ready_runs (kcr3 ucr3 : UInt32) (garbage : ℤ) (t : ℤ → PCB) {calls calls' : List SchedCall}
    {p p' : Procs} {i : ℤ} (hstart : Run SchedStep (initCond kcr3 ucr3 garbage t) calls p)
    (hi : 0 ≤ i) (hlt : i < MAX_PCB) (hready : (p.pcb_table i).status = Ready)
    (hrun : Run SchedStep p calls' p') (hticks : 2200 ≤ calls'.countP SchedCall.isTimer) :
    ∃ l₁ l₂ q, calls' = l₁ ++ l₂ ∧ Run SchedStep p l₁ q ∧ q.current = i ∧
      Run SchedStep q l₂ p' := by
  have hinv : SchedInv p := hstart.invariant (fun _ _ _ h hstep => h.step hstep)
    (SchedInv.initCond kcr3 ucr3 garbage t)
  rcases eq_or_ne i p.current with rfl | hne
  · exact ⟨[], calls', p, rfl, .nil p, rfl, hrun⟩
  · have hwait : Waiting i p := ⟨hinv, ⟨hi, hlt⟩, hready, hne⟩
    have hstep : ∀ p c p', Waiting i p → SchedStep p c p' →
        p'.current = i ∨ Waiting i p' ∧ p'.waits i + c.isTimer.toNat ≤ p.waits i :=
      fun _ _ _ h hstep => h.step hstep
    exact hrun.reaches hstep hwait (Nat.lt_of_lt_of_le (hinv.waits_le i) hticks)

/-- The game is started when the timer ticks. -/
theorem ready_runs_game :
    ∃ l₁ q, Run SchedStep (initCond 0 0 0 fun _ => freePcb) l₁ q ∧ q.current = 1 := by
  obtain ⟨p, hrun⟩ := (SchedInv.initCond 0 0 0 fun _ => freePcb).timers 2200
  obtain ⟨l₁, -, q, -, hfirst, hq, -⟩ := ready_runs 0 0 0 (fun _ => freePcb) (.nil _) (i := 1)
    (by decide) (by decide) (by rw [initCond_game]; rfl) hrun
    (by rw [List.countP_replicate]; exact Nat.le_refl _)
  exact ⟨l₁, q, hfirst, hq⟩

end OsLab

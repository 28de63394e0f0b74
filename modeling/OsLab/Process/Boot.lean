import OsLab.Process.Calls

/-!
# The first processes

The kernel starts with the idle process and the game; the other slots are free. Small tables, given
by the PCBs in their first slots, go on being small: the idle process has the processor for eleven
ticks and then gives it to the first process that is ready (`run_slice`), and `fork` puts the child
behind the others (`forkChild_slotTable`).

## Main definitions

* `PCB.ran` — a process that has run for `n` ticks
* `gameRunning` — the game, running
* `childRunning` — the game's child, running
-/

namespace OsLab

/-- The table that `init_cond` leaves when the memory of the process table was clear. -/
theorem initCond_slots (kcr3 ucr3 : UInt32) (garbage : ℤ) :
    initCond kcr3 ucr3 garbage (fun _ => freePcb) =
      ⟨slotTable [{ idlePcb with cr3 := kcr3 }, { gamePcb with cr3 := ucr3 }], 0⟩ := by
  have hfree : ∀ i, pcbInit (fun _ => freePcb) i = freePcb := fun i => by
    have hinit : freePcb.init = freePcb := by
      simp [PCB.init, freePcb]
    rw [pcbInit, forRange_update _ _ (by decide)]
    split
    · exact hinit
    · rfl
  rw [initCond_eq]
  congr 1
  funext i
  rcases eq_or_ne i 1 with rfl | h1
  · rw [Function.update_self]
    simp only [PCB.init, freePcb, ite_self]
    rfl
  · rw [Function.update_of_ne h1]
    rcases eq_or_ne i 0 with rfl | h0
    · rw [Function.update_self]
      simp only [PCB.init, freePcb, ite_self]
      rfl
    · rw [Function.update_of_ne h0, hfree, slotTable_free]
      simp only [List.length_cons, List.length_nil]
      omega

theorem initCond_slotTable (garbage : ℤ) :
    initCond 0 0 garbage (fun _ => freePcb) = ⟨slotTable [idlePcb, gamePcb], 0⟩ :=
  initCond_slots 0 0 garbage

/-! ## The idle process -/

/-- A process that has run for `n` ticks. -/
def PCB.ran (n : ℤ) (q : PCB) : PCB := { q with time_count := n }

/-- A tick while the idle process runs. -/
theorem timerTick_idle {q : PCB} {l : List PCB} {n : ℤ} (hl : l.length < 100) (hq : q.pcb_index = 0)
    (hawake : q.status ≠ Blocked) :
    timerTick ⟨slotTable (q.ran n :: l), 0⟩ =
      if n = 10 then schedule ⟨slotTable (processReady q :: l.map wakeupPcb), 0⟩
      else some ⟨slotTable (q.ran (int32 (n + 1)) :: l.map wakeupPcb), 0⟩ := by
  have hwake : wakeup (slotTable (q.ran n :: l)) = slotTable (q.ran n :: l.map wakeupPcb) := by
    have hsame : wakeupPcb (q.ran n) = q.ran n := if_neg hawake
    rw [wakeup_slotTable (by rw [List.length_cons]; omega), List.map_cons, hsame]
  have hcur : (⟨slotTable (q.ran n :: l.map wakeupPcb), 0⟩ : Procs).cur = q.ran n := rfl
  have hhome : (q.ran n).pcb_index = (0 : ℕ) := hq
  have hcount : (⟨slotTable (q.ran n :: l.map wakeupPcb), 0⟩ : Procs).modify (0 : ℕ)
      (fun q => { q with time_count := int32 (q.time_count + 1) }) =
      ⟨slotTable (q.ran (int32 (n + 1)) :: l.map wakeupPcb), 0⟩ :=
    modify_slotTable _ (Nat.succ_pos _)
  rw [timerTick]
  dsimp only
  rw [hwake, hcur, hhome, modify_slotTable _ (Nat.succ_pos _)]
  exact if_congr Iff.rfl rfl (congrArg some hcount)

/-- The timer may always tick while the idle process runs. -/
theorem callStep_timer {t : ℤ → PCB} {p' : Procs} (h : timerTick ⟨t, 0⟩ = some p') :
    CallStep ⟨t, 0⟩ .timer p' :=
  ⟨trivial, ⟨trivial, fun _ h99 => absurd h99 (by decide : (0 : ℤ) ≠ 99)⟩, h⟩

theorem map_wakeupPcb_awake {l : List PCB} (h : ∀ q ∈ l, q.status ≠ Blocked) :
    l.map wakeupPcb = l := by
  conv_rhs => rw [← List.map_id l]
  exact List.map_congr_left fun q hq => if_neg (h q hq)

theorem length_iterate_map (f : PCB → PCB) (l : List PCB) (n : ℕ) :
    ((List.map f)^[n] l).length = l.length := by
  induction n with
  | zero => rfl
  | succ n ih => rw [Function.iterate_succ_apply', List.length_map, ih]

section Idle

/-! The process table may be a part of a larger state, as `emb` says, in which `tick` is the
timer. -/

variable {σ α : Type*} {step : σ → α → σ → Prop} (emb : Procs → σ) {tick : α} {q : PCB}
  {l r : List PCB} {k : ℕ}

/-- The idle process until its time is over. -/
theorem run_idle (htick : ∀ t p', timerTick ⟨t, 0⟩ = some p' → step (emb ⟨t, 0⟩) tick (emb p'))
    (hl : l.length < 100) (hq : q.pcb_index = 0) (hawake : q.status ≠ Blocked) {n : ℕ}
      (hn : n ≤ 10) :
    Run step (emb ⟨slotTable (q.ran 0 :: l), 0⟩) (List.replicate n tick)
      (emb ⟨slotTable (q.ran n :: (List.map wakeupPcb)^[n] l), 0⟩) := by
  induction n with
  | zero => exact .nil _
  | succ n ih =>
    have hlen : ((List.map wakeupPcb)^[n] l).length < 100 := by rwa [length_iterate_map]
    rw [List.replicate_succ', Function.iterate_succ_apply']
    refine (ih (by omega)).snoc (htick _ _ ?_)
    rw [timerTick_idle hlen hq hawake, if_neg (by omega), int32_eq (by omega) (by omega),
      Nat.cast_succ]

/-- **The idle process's time is over** and the process in slot `k` runs. -/
theorem run_slice (htick : ∀ t p', timerTick ⟨t, 0⟩ = some p' → step (emb ⟨t, 0⟩) tick (emb p'))
    (hl : l.length < 100) (hq : q.pcb_index = 0) (hawake : q.status ≠ Blocked)
    (hr : (List.map wakeupPcb)^[11] l = r) (hk : k < r.length + 1)
    (hloop : scheduleLoop (slotTable (processReady q :: r)) 0 102 1 = some (some (k : ℤ))) :
    Run step (emb ⟨slotTable (q.ran 0 :: l), 0⟩) (List.replicate 11 tick)
      (emb ⟨slotTable ((processReady q :: r).set k
        { slotTable (processReady q :: r) k with status := Running }), k⟩) := by
  have hlen : ((List.map wakeupPcb)^[10] l).length < 100 := by rwa [length_iterate_map]
  rw [List.replicate_succ']
  refine (run_idle emb htick hl hq hawake (Nat.le_refl 10)).snoc (htick _ _ ?_)
  rw [timerTick_idle hlen hq hawake, if_pos (show ((10 : ℕ) : ℤ) = 10 from rfl),
    ← Function.iterate_succ_apply' (List.map wakeupPcb), hr]
  have hhome : (slotTable (processReady q :: r) 0).pcb_index = 0 := hq
  refine schedule_slotTable hk ?_
  rw [hhome]
  exact hloop

/-- The idle process's time is over and the game runs, as it was ready and nobody is blocked. -/
theorem run_game (htick : ∀ t p', timerTick ⟨t, 0⟩ = some p' → step (emb ⟨t, 0⟩) tick (emb p'))
    {g : PCB} (hl : (g :: l).length < 100) (hq : q.pcb_index = 0)
    (hawake : ∀ r ∈ q :: g :: l, r.status ≠ Blocked) (hready : g.status = Ready) :
    Run step (emb ⟨slotTable (q.ran 0 :: g :: l), 0⟩) (List.replicate 11 tick)
      (emb ⟨slotTable (processReady q :: { g with status := Running } :: l), 1⟩) := by
  have hsame : (List.map wakeupPcb)^[11] (g :: l) = g :: l :=
    Function.iterate_fixed (map_wakeupPcb_awake fun r hr => hawake r (List.mem_cons_of_mem _ hr)) 11
  refine run_slice emb (k := 1) htick hl hq (hawake q List.mem_cons_self) hsame
    (by simp only [List.length_cons]; omega) ?_
  show scheduleLoop (slotTable (processReady q :: g :: l)) 0 (101 + 1) 1 = some (some 1)
  rw [scheduleLoop, if_pos (by decide)]
  exact if_pos hready

end Idle

/-- The game, running. -/
def gameRunning : PCB := { gamePcb with status := Running }

/-- The kernel starts, and the game runs. -/
theorem run_gameRunning :
    Run CallStep (initCond 0 0 0 fun _ => freePcb) (List.replicate 11 .timer)
      ⟨slotTable [processReady idlePcb, gameRunning], 1⟩ := by
  rw [initCond_slotTable]
  exact run_game (fun p => p) (q := idlePcb) (g := gamePcb) (fun _ _ htick => callStep_timer htick)
    (by decide) rfl (by decide) rfl

/-! ## Calls -/

/-- A call after which the process in slot `k` runs. -/
theorem callStep_switch {a : SchedCall} {l r : List PCB} {c k : ℕ} (hc : c < 99)
    (hallowed : a.Allowed ⟨slotTable l, c⟩) (hfinds : a.FindsSlot ⟨slotTable l, c⟩)
    (hswitches : a.Switches ⟨slotTable l, c⟩)
    (hchange : a.change ⟨slotTable l, c⟩ = ⟨slotTable r, c⟩) (hk : k < r.length)
    (hloop : scheduleLoop (slotTable r) (slotTable r c).pcb_index 102
      ((slotTable r c).pcb_index + 1) = some (some (k : ℤ))) :
    CallStep ⟨slotTable l, c⟩ a
      ⟨slotTable (r.set k { slotTable r k with status := Running }), k⟩ := by
  refine ⟨hallowed, ⟨hfinds, fun _ (h99 : (c : ℤ) = 99) => absurd h99 (by omega)⟩, ?_⟩
  rw [SchedCall.exec_eq, if_pos hswitches, hchange]
  exact schedule_slotTable hk hloop

/-- The process in slot `c` sleeps. -/
theorem callStep_sleep {l l' : List PCB} {c k : ℕ} (h0 : c ≠ 0) (hlt : c < 99) (hc : c < l.length)
    (time : ℤ) (hl' : l.set c { slotTable l c with status := Blocked, sleep_time := time } = l')
    (hk : k < l'.length)
    (hloop : scheduleLoop (slotTable l') (slotTable l' c).pcb_index 102
      ((slotTable l' c).pcb_index + 1) = some (some (k : ℤ))) :
    CallStep ⟨slotTable l, c⟩ (.sleep time)
      ⟨slotTable (l'.set k { slotTable l' k with status := Running }), k⟩ := by
  refine callStep_switch hlt (show (c : ℤ) ≠ 0 by omega) trivial trivial ?_ hk hloop
  rw [← hl', SchedCall.change]
  exact modify_slotTable (fun q => { q with status := Blocked, sleep_time := time }) hc

/-- A process that has exited. -/
def PCB.exits (q : PCB) : PCB := { q with status := -1, pid := -1 }

/-- The process in slot `c` exits. -/
theorem callStep_exit {l l' : List PCB} {c k : ℕ} (h0 : c ≠ 0) (hlt : c < 99) (hc : c < l.length)
    (hl' : l.set c (slotTable l c).exits = l') (hk : k < l'.length)
    (hloop : scheduleLoop (slotTable l') (slotTable l' c).pcb_index 102
      ((slotTable l' c).pcb_index + 1) = some (some (k : ℤ))) :
    CallStep ⟨slotTable l, c⟩ .exit
      ⟨slotTable (l'.set k { slotTable l' k with status := Running }), k⟩ := by
  refine callStep_switch hlt (show (c : ℤ) ≠ 0 by omega) trivial trivial ?_ hk hloop
  rw [← hl', SchedCall.change]
  exact modify_slotTable PCB.exits hc

/-! ## `fork` -/

/-- Slots behind the list are free. -/
@[simp] theorem slotTable_append_free (l : List PCB) :
    slotTable (l ++ [freePcb]) = slotTable l := by
  funext i
  rw [slotTable, slotTable]
  split
  · rcases Nat.lt_or_ge i.toNat l.length with hlt | hge
    · rw [List.getD_append _ _ _ _ hlt]
    · rw [List.getD_append_right _ _ _ _ hge, List.getD_eq_default _ _ hge]
      rcases Nat.eq_zero_or_pos (i.toNat - l.length) with h0 | hpos
      · rw [h0]
        rfl
      · exact List.getD_eq_default _ _ hpos
  · rfl

/-- `get_pcb` finds the first slot behind processes that live. -/
theorem getPcb_slotTable {l : List PCB} (hl : l.length < 100) (hlive : ∀ q ∈ l, q.status ≠ -1) :
    getPcb (slotTable l) = some (l.length : ℤ) := by
  refine findSlot_eq (by omega) (by omega) (decide_eq_true ?_) fun j hj hlt => decide_eq_false ?_
  · rw [slotTable_free fun h => lt_irrefl _ h.2]
    rfl
  · refine hlive _ ?_
    rw [slotTable, if_pos hj, List.getD_eq_getElem _ _ (by omega)]
    exact List.getElem_mem _

/-- The parent in `process_fork`. -/
def PCB.forks (q : PCB) : PCB := { q with eax := q.pid, status := Ready }

/-- Its child, in slot `c`. -/
def PCB.child (q : PCB) (c : ℤ) (cr3 : UInt32) : PCB :=
  { processReady (pcbNew (-1) q.pid c freePcb) with
    cr3 := cr3, fcb := copyFcb q.fcb freePcb.fcb, eax := -1 }

/-- **`fork`** puts the child behind the processes there are. -/
theorem forkChild_slotTable {l : List PCB} {c : ℕ} (hc : c < l.length) (hl : l.length < 100)
    (hlive : ∀ q ∈ l, q.status ≠ -1) (cr3 : UInt32) (garbage : ℤ) :
    getPcb (forkCaller ⟨slotTable l, c⟩).pcb_table = some (l.length : ℤ) ∧
    forkChild cr3 garbage ⟨slotTable l, c⟩ =
      ⟨slotTable (l.set c (slotTable l c).forks ++ [(slotTable l c).child l.length cr3]), c⟩ := by
  have hcaller : forkCaller ⟨slotTable l, c⟩ = ⟨slotTable (l.set c (slotTable l c).forks), c⟩ :=
    modify_slotTable _ hc
  have hlen : (l.set c (slotTable l c).forks).length = l.length := List.length_set
  have hfound : getPcb (slotTable (l.set c (slotTable l c).forks)) = some (l.length : ℤ) := by
    rw [← hlen]
    refine getPcb_slotTable (by omega) fun q hq => ?_
    rcases List.mem_or_eq_of_mem_set hq with hmem | rfl
    · exact hlive q hmem
    · exact (by decide : Ready ≠ -1)
  have hslot : forkSlot garbage ⟨slotTable l, c⟩ = l.length := by
    rw [forkSlot, hcaller, getPcbOr, hfound]
    rfl
  obtain ⟨q, hq⟩ : ∃ q, q = slotTable l c := ⟨_, rfl⟩
  rw [← hq] at hcaller hlen hfound ⊢
  have hcur : slotTable (l.set c q.forks) c = q.forks := by
    rw [← slotTable_update hc, Function.update_self]
  -- the new slot is the last one of the list
  have hmodify : ∀ (r : PCB) (f : PCB → PCB),
      (⟨slotTable (l.set c q.forks ++ [r]), c⟩ : Procs).modify (l.length : ℕ) f =
        ⟨slotTable (l.set c q.forks ++ [f r]), c⟩ := fun r f => by
    have hr : slotTable (l.set c q.forks ++ [r]) (l.length : ℕ) = r := by
      rw [slotTable, if_pos (Int.natCast_nonneg _), Int.toNat_natCast, ← hlen,
        List.getD_append_right _ _ _ _ (Nat.le_refl _), Nat.sub_self]
      rfl
    rw [modify_slotTable _ (by rw [List.length_append, hlen, List.length_singleton]; omega), hr,
      List.set_append_right _ _ (by omega), hlen, Nat.sub_self]
    rfl
  have hprocs : (⟨slotTable (l.set c q.forks), c⟩ : Procs) =
      ⟨slotTable (l.set c q.forks ++ [freePcb]), c⟩ := by rw [slotTable_append_free]
  refine ⟨by rw [hcaller]; exact hfound, ?_⟩
  simp only [forkChild, hslot, hcaller, newProcess]
  rw [hprocs, hmodify, hmodify]
  have hcur' : ∀ r : PCB, (⟨slotTable (l.set c q.forks ++ [r]), c⟩ : Procs).cur = q.forks :=
    fun r => by
    have hget : slotTable (l.set c q.forks ++ [r]) c = slotTable (l.set c q.forks) c := by
      rw [slotTable, slotTable, if_pos (Int.natCast_nonneg c), if_pos (Int.natCast_nonneg c),
        List.getD_append _ _ _ _ (by rw [Int.toNat_natCast, hlen]; exact hc)]
    exact hget.trans hcur
  simp only [hcur']
  rfl

/-- `fork`, after which the process in slot `k` runs. -/
theorem callStep_fork {l l' : List PCB} {c k : ℕ} {cr3 : UInt32} (hc : c < l.length) (h0 : c ≠ 0)
    (hl : l.length < 100) (hlive : ∀ q ∈ l, q.status ≠ -1) (garbage : ℤ)
    (hl' : l.set c (slotTable l c).forks ++ [(slotTable l c).child l.length cr3] = l')
    (hk : k < l'.length)
    (hloop : scheduleLoop (slotTable l') (slotTable l' c).pcb_index 102
      ((slotTable l' c).pcb_index + 1) = some (some (k : ℤ))) :
    CallStep ⟨slotTable l, c⟩ (.fork cr3 garbage)
      ⟨slotTable (l'.set k { slotTable l' k with status := Running }), k⟩ := by
  obtain ⟨hfound, hchild⟩ := forkChild_slotTable hc hl hlive cr3 garbage
  refine callStep_switch (by omega) (show (c : ℤ) ≠ 0 by omega) ?_ trivial ?_ hk hloop
  · show getPcb _ ≠ none
    rw [hfound]
    exact Option.some_ne_none _
  · rw [← hl']
    exact hchild

/-- The game's child, running. -/
def childRunning : PCB := { gameRunning.child 2 0 with status := Running }

/-- The game forks, and its child runs. -/
theorem fork_gameRunning :
    CallStep ⟨slotTable [processReady idlePcb, gameRunning], 1⟩ (.fork 0 0)
      ⟨slotTable [processReady idlePcb, gameRunning.forks, childRunning], 2⟩ :=
  callStep_fork (c := 1) (k := 2) (by decide) (by decide) (by decide) (by decide) 0 rfl (by decide)
    (by decide +kernel)

end OsLab

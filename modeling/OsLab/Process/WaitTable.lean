import Mathlib.Data.Finset.Image
import OsLab.Lib.Refs
import OsLab.Process.Semaphore

/-!
# Who waits

A process that waits for a semaphore has the number of the semaphore in `block_sem_index`. `WaitOk`
says of a set of numbers that whoever has one of them there is blocked, and that the idle process
has none; it is kept by `schedule`, by the timer and by what `sem_wait` and `sem_post` do to the
process table. How many processes wait for a semaphore is counted with `waiters`.

The lemmas are about any set `I` of numbers, so that the semaphores of a program can be looked at
together while other programs use others.

## Main definitions

* `waiters` — the number of processes that wait for semaphore `x`
* `WaitOk` — every process knows its own slot, whoever waits for a semaphore in `I` is blocked, and
  the idle process waits for none of them
* `CurOk` — the running process is one of the table
* `Awake` — the running process is one of the table, and waits for no semaphore
* `timeSlice` — the running process gives way to others at the end of its time
* `NoWakeup` — when a tick is harmless
-/

namespace OsLab

/-- The slots of the process table. -/
@[irreducible] def slots : Finset ℤ := (Finset.range 100).image Nat.cast

theorem mem_slots {i : ℤ} : i ∈ slots ↔ 0 ≤ i ∧ i < MAX_PCB := by
  unfold slots
  simp only [Finset.mem_image, Finset.mem_range, MAX_PCB]
  constructor
  · rintro ⟨n, hn, rfl⟩
    omega
  · rintro ⟨hi, hlt⟩
    exact ⟨i.toNat, by omega, by omega⟩

@[simp] theorem card_slots : slots.card = 100 := by
  unfold slots
  rw [Finset.card_image_of_injective _ Nat.cast_injective, Finset.card_range]

/-- The number of processes that wait for semaphore `x`. -/
def waiters (t : ℤ → PCB) (x : ℤ) : ℕ := refs slots (fun i => (t i).block_sem_index) x

section Waiters

variable {t t' : ℤ → PCB} {x i : ℤ} {q : PCB}

theorem waiters_le (t : ℤ → PCB) (x : ℤ) : waiters t x ≤ 100 := card_slots ▸ refs_le_card

theorem waiters_eq_zero :
    waiters t x = 0 ↔ ∀ i, 0 ≤ i → i < MAX_PCB → (t i).block_sem_index ≠ x := by
  simp only [waiters, refs_eq_zero, mem_slots]
  exact ⟨fun h i hi hlt => h i ⟨hi, hlt⟩, fun h i hi => h i hi.1 hi.2⟩

theorem waiters_congr (h : ∀ i, (t i).block_sem_index = (t' i).block_sem_index) :
    waiters t x = waiters t' x :=
  refs_congr fun i _ => h i

/-- **Counting after an assignment to one PCB.** -/
theorem waiters_update (hi : 0 ≤ i) (hlt : i < MAX_PCB) :
    waiters (Function.update t i q) x + (if (t i).block_sem_index = x then 1 else 0) =
      waiters t x + (if q.block_sem_index = x then 1 else 0) := by
  have hupdate : (fun j => (Function.update t i q j).block_sem_index) =
      Function.update (fun j => (t j).block_sem_index) i q.block_sem_index := by
    funext j
    rw [Function.update_apply, Function.update_apply]
    split <;> rfl
  rw [waiters, hupdate]
  exact refs_update (mem_slots.mpr ⟨hi, hlt⟩)

end Waiters

/-- Every process knows its own slot, whoever waits for a semaphore in `I` is blocked, and the idle
process waits for none of them. -/
structure WaitOk (I : ℤ → Prop) (t : ℤ → PCB) : Prop where
  home : ∀ i, 0 ≤ i → i < MAX_PCB → (t i).status ≠ -1 → (t i).pcb_index = i
  idle : (t 0).status ≠ -1 ∧ ¬I (t 0).block_sem_index
  blocked : ∀ i, 0 ≤ i → i < MAX_PCB → I (t i).block_sem_index → (t i).status = Blocked

/-- The running process is one of the table. -/
structure CurOk (p : Procs) : Prop where
  nonneg : 0 ≤ p.current
  lt : p.current < MAX_PCB
  live : p.cur.status ≠ -1

section Table

variable {I : ℤ → Prop} {p p' : Procs} {x : ℤ}

/-- The running process is one of the table, and waits for no semaphore. -/
def Awake (I : ℤ → Prop) (p : Procs) : Prop := CurOk p ∧ ¬I p.cur.block_sem_index

/-- **`schedule`** picks a process that does not wait. -/
theorem WaitOk.schedule (h : WaitOk I p.pcb_table) (hc : CurOk p) (hend : EndOfTable p)
    (hs : OsLab.schedule p = some p') :
    WaitOk I p'.pcb_table ∧ Awake I p' ∧
      ∀ j, (p'.pcb_table j).block_sem_index = (p.pcb_table j).block_sem_index := by
  have hhome : p.cur.pcb_index = p.current := h.home _ hc.nonneg hc.lt hc.live
  have hin : 0 ≤ p'.current ∧ p'.current < MAX_PCB := by
    have hlo := hc.nonneg
    have hhi := hc.lt
    exact schedule_inTable hs (by omega) (by omega) fun h99 => hend (hhome.symm.trans h99)
  have hindex : ∀ j, (p'.pcb_table j).block_sem_index = (p.pcb_table j).block_sem_index :=
    fun j => schedule_frame (g := PCB.block_sem_index) (fun q v => rfl) hs j
  have hown : ∀ j, (p'.pcb_table j).pcb_index = (p.pcb_table j).pcb_index :=
    fun j => schedule_frame (g := PCB.pcb_index) (fun q v => rfl) hs j
  have hstatus := schedule_status hs
  have hlive : ∀ j, (p.pcb_table j).status ≠ -1 → (p'.pcb_table j).status ≠ -1 := fun j hj => by
    rcases hstatus j with heq | ⟨-, hrunning⟩
    · rwa [heq]
    · rw [hrunning]
      decide
  refine ⟨⟨fun i hi hlt hi' => ?_, ⟨hlive 0 h.idle.1, ?_⟩, fun i hi hlt hi' => ?_⟩,
    ⟨⟨hin.1, hin.2, ?_⟩, ?_⟩, hindex⟩
  · have hne : (p.pcb_table i).status ≠ -1 := by
      rcases hstatus i with heq | ⟨hready, -⟩
      · rwa [← heq]
      · rw [hready]
        decide
    exact (hown i).trans (h.home i hi hlt hne)
  · rw [hindex]
    exact h.idle.2
  · have hblocked := h.blocked i hi hlt (hindex i ▸ hi')
    rcases hstatus i with heq | ⟨hready, -⟩
    · exact heq.trans hblocked
    · rw [hready] at hblocked
      exact absurd hblocked (by decide)
  · obtain ⟨-, hrunning⟩ | ⟨h0, htable⟩ := schedule_current hs
    · rw [hrunning]
      decide
    · rw [Procs.cur, htable, h0]
      exact h.idle.1
  · rw [Procs.cur, hindex]
    obtain ⟨hready, -⟩ | ⟨h0, -⟩ := schedule_current hs
    · intro hi
      have hblocked := h.blocked _ hin.1 hin.2 hi
      rw [hready] at hblocked
      exact absurd hblocked (by decide)
    · rw [h0]
      exact h.idle.2

/-- An assignment to fields of the running process, to those that say whom it waits for also, if it
is not the idle process. -/
theorem WaitOk.modifyCur {f : PCB → PCB} (h : WaitOk I p.pcb_table) (hc : CurOk p)
    (hown : ∀ q, (f q).pcb_index = q.pcb_index) (hlive : (f p.cur).status ≠ -1)
    (hblocked : I (f p.cur).block_sem_index → p.current ≠ 0 ∧ (f p.cur).status = Blocked) :
    WaitOk I (p.modify p.current f).pcb_table ∧ CurOk (p.modify p.current f) := by
  have hcur : (p.modify p.current f).pcb_table p.current = f p.cur := Function.update_self ..
  have hother : ∀ j, j ≠ p.current → (p.modify p.current f).pcb_table j = p.pcb_table j :=
    fun j hj => Function.update_of_ne hj ..
  refine ⟨⟨fun i hi hlt hi' => ?_, ?_, fun i hi hlt hi' => ?_⟩, hc.nonneg, hc.lt, ?_⟩
  · rcases eq_or_ne i p.current with rfl | hne
    · rw [hcur, hown]
      exact h.home _ hi hlt hc.live
    · rw [hother i hne] at hi' ⊢
      exact h.home i hi hlt hi'
  · rcases eq_or_ne 0 p.current with h0 | hne
    · rw [h0, hcur]
      exact ⟨hlive, fun hi => (hblocked hi).1 h0.symm⟩
    · rw [hother 0 hne]
      exact h.idle
  · rcases eq_or_ne i p.current with rfl | hne
    · rw [hcur] at hi' ⊢
      exact (hblocked hi').2
    · rw [hother i hne] at hi' ⊢
      exact h.blocked i hi hlt hi'
  · exact fun heq => hlive (hcur ▸ heq)

/-- What is behind the table does not change with an assignment to fields of the running process. -/
theorem EndOfTable.modifyCur {f : PCB → PCB} (h : EndOfTable p) :
    EndOfTable (p.modify p.current f) := by
  intro h99
  have h99 : p.current = 99 := h99
  simp only [Procs.modify]
  rw [Function.update_of_ne (by omega)]
  exact h h99

/-- The running process gives way to others at the end of its time. -/
def timeSlice (p : Procs) : Option Procs := schedule (p.modify p.cur.pcb_index processReady)

/-- **The end of a time slice.** -/
theorem WaitOk.timeSlice (h : WaitOk I p.pcb_table) (ha : Awake I p) (hend : EndOfTable p)
    (hs : OsLab.timeSlice p = some p') :
    WaitOk I p'.pcb_table ∧ Awake I p' ∧
      ∀ j, (p'.pcb_table j).block_sem_index = (p.pcb_table j).block_sem_index := by
  have hhome : p.cur.pcb_index = p.current := h.home _ ha.1.nonneg ha.1.lt ha.1.live
  rw [OsLab.timeSlice, hhome] at hs
  obtain ⟨hr, hcr⟩ := h.modifyCur (f := processReady) ha.1 (fun q => rfl)
    (show Ready ≠ -1 by decide) fun hi => absurd hi ha.2
  obtain ⟨hw, ha', hindex⟩ := hr.schedule hcr hend.modifyCur hs
  exact ⟨hw, ha', fun j => (hindex j).trans
    (Procs.modify_frame (g := PCB.block_sem_index) (f := processReady) (fun q => rfl) j)⟩

/-- **When a tick is harmless.** It ends the sleeping time of no process that waits. -/
def NoWakeup (I : ℤ → Prop) (t : ℤ → PCB) : Prop :=
  ∀ i, 0 ≤ i → i < MAX_PCB → (t i).status = Blocked → I (t i).block_sem_index →
    int32 ((t i).sleep_time - 1) ≠ 0

theorem wakeup_block_sem_index (t : ℤ → PCB) (j : ℤ) :
    (wakeup t j).block_sem_index = (t j).block_sem_index := by
  rcases wakeup_cases t j with heq | ⟨-, heq⟩ <;> rw [heq]

theorem wakeup_live (t : ℤ → PCB) (j : ℤ) : (wakeup t j).status = -1 ↔ (t j).status = -1 := by
  rcases wakeup_cases t j with heq | ⟨hblocked, heq⟩
  · rw [heq]
  · rw [heq, hblocked]
    refine iff_of_false ?_ (by decide)
    show (if _ then Ready else Blocked) ≠ -1
    split <;> decide

/-- **`wakeup`** -/
theorem WaitOk.wakeup {t : ℤ → PCB} (h : WaitOk I t) (hsafe : NoWakeup I t) :
    WaitOk I (OsLab.wakeup t) := by
  have hown : ∀ j, (OsLab.wakeup t j).pcb_index = (t j).pcb_index := fun j => by
    rcases wakeup_cases t j with heq | ⟨-, heq⟩ <;> rw [heq]
  refine ⟨fun i hi hlt hi' => ?_, ⟨?_, ?_⟩, fun i hi hlt hi' => ?_⟩
  · rw [hown]
    exact h.home i hi hlt fun heq => hi' ((wakeup_live t i).mpr heq)
  · exact fun heq => h.idle.1 ((wakeup_live t 0).mp heq)
  · rw [wakeup_block_sem_index]
    exact h.idle.2
  · rw [wakeup_block_sem_index] at hi'
    have hblocked := h.blocked i hi hlt hi'
    rcases wakeup_cases t i with heq | ⟨-, heq⟩ <;> rw [heq]
    · exact hblocked
    · exact if_neg (hsafe i hi hlt hblocked hi')

/-- **The timer.** -/
theorem WaitOk.timerTick (h : WaitOk I p.pcb_table) (ha : Awake I p)
    (hend : p.cur.time_count = 10 → EndOfTable p) (hsafe : NoWakeup I p.pcb_table)
    (hs : OsLab.timerTick p = some p') :
    WaitOk I p'.pcb_table ∧ Awake I p' ∧
      ∀ j, (p'.pcb_table j).block_sem_index = (p.pcb_table j).block_sem_index := by
  have hw : WaitOk I (⟨OsLab.wakeup p.pcb_table, p.current⟩ : Procs).pcb_table := h.wakeup hsafe
  have haw : Awake I ⟨OsLab.wakeup p.pcb_table, p.current⟩ := by
    refine ⟨⟨ha.1.nonneg, ha.1.lt, fun heq => ha.1.live ((wakeup_live _ _).mp heq)⟩, ?_⟩
    rw [Procs.cur, wakeup_block_sem_index]
    exact ha.2
  have hcount : (OsLab.wakeup p.pcb_table p.current).time_count = p.cur.time_count := by
    rcases wakeup_cases p.pcb_table p.current with heq | ⟨-, heq⟩ <;> rw [heq] <;> rfl
  have hendw : p.cur.time_count = 10 → EndOfTable ⟨OsLab.wakeup p.pcb_table, p.current⟩ := by
    intro hten h99
    have h100 : OsLab.wakeup p.pcb_table 100 = p.pcb_table 100 := by
      rw [wakeup_apply, if_neg (by decide)]
    show (OsLab.wakeup p.pcb_table 100).status ≠ Ready
    rw [h100]
    exact hend hten h99
  have hindex := wakeup_block_sem_index p.pcb_table
  rw [OsLab.timerTick] at hs
  split at hs
  · next hten =>
    obtain ⟨hw', ha', hindex'⟩ := hw.timeSlice haw (hendw (hcount.symm.trans hten)) hs
    exact ⟨hw', ha', fun j => (hindex' j).trans (hindex j)⟩
  · obtain rfl := Option.some.inj hs
    obtain ⟨hm, hcm⟩ := hw.modifyCur haw.1 (f := fun q => { q with
      time_count := int32 (q.time_count + 1) }) (fun q => rfl) haw.1.live fun hi => absurd hi haw.2
    have hindex' := Procs.modify_frame (g := PCB.block_sem_index)
      (p := ⟨OsLab.wakeup p.pcb_table, p.current⟩) (i := p.current)
      (f := fun q => { q with time_count := int32 (q.time_count + 1) }) fun q => rfl
    refine ⟨hm, ⟨hcm, ?_⟩, fun j => (hindex' j).trans (hindex j)⟩
    exact fun hi => haw.2 (hindex' p.current ▸ hi)

/-- **`sem_wait`** when it blocks the running process. -/
theorem WaitOk.block (h : WaitOk I p.pcb_table) (ha : Awake I p) (hidle : p.current ≠ 0)
    (hx : I x) (hend : EndOfTable p) (hs : OsLab.schedule (blockOn x p) = some p') :
    WaitOk I p'.pcb_table ∧ Awake I p' ∧
      waiters p'.pcb_table x = waiters p.pcb_table x + 1 ∧
      ∀ y, I y → y ≠ x → waiters p'.pcb_table y = waiters p.pcb_table y := by
  obtain ⟨hb, hcb⟩ := h.modifyCur ha.1
    (f := fun q => { q with status := Blocked, block_sem_index := x }) (fun q => rfl)
    (show Blocked ≠ -1 by decide) fun _ => ⟨hidle, rfl⟩
  obtain ⟨hw, ha', hindex⟩ := hb.schedule hcb hend.modifyCur hs
  have hcount := fun y => waiters_update (t := p.pcb_table) (x := y) (i := p.current)
    (q := { p.pcb_table p.current with status := Blocked, block_sem_index := x })
    ha.1.nonneg ha.1.lt
  refine ⟨hw, ha', ?_, fun y hy hne => ?_⟩
  · have hself := hcount x
    have hnot : (p.pcb_table p.current).block_sem_index ≠ x := fun heq => ha.2 (heq ▸ hx)
    rw [if_neg hnot, if_pos rfl] at hself
    rw [waiters_congr hindex]
    exact hself
  · have hother := hcount y
    have hnot : (p.pcb_table p.current).block_sem_index ≠ y := fun heq => ha.2 (heq ▸ hy)
    rw [if_neg hnot, if_neg (Ne.symm hne)] at hother
    rw [waiters_congr hindex]
    exact hother

/-- **`release_sem`** when somebody waits. -/
theorem WaitOk.release (h : WaitOk I p.pcb_table) (ha : Awake I p) (hx : I x)
    (hneg : ¬I (-1)) (hwaits : waiters p.pcb_table x ≠ 0) :
    ∃ i, 0 ≤ i ∧ i < MAX_PCB ∧ (p.pcb_table i).block_sem_index = x ∧ (p.pcb_table i).status =
      Blocked ∧
      releaseSem x p.pcb_table = Function.update p.pcb_table i
        { p.pcb_table i with block_sem_index := -1, status := Ready, time_count := 0 } ∧
      WaitOk I (releaseSem x p.pcb_table) ∧ Awake I ⟨releaseSem x p.pcb_table, p.current⟩ ∧
      waiters (releaseSem x p.pcb_table) x + 1 = waiters p.pcb_table x ∧
      ∀ y, I y → y ≠ x → waiters (releaseSem x p.pcb_table) y = waiters p.pcb_table y := by
  obtain ⟨-, hnone⟩ | ⟨i, hi, hlt, hi', heq⟩ := releaseSem_cases x p.pcb_table
  · exact absurd (waiters_eq_zero.mpr hnone) hwaits
  have hblocked := h.blocked i hi hlt (hi' ▸ hx)
  have hne : p.current ≠ i := by
    rintro rfl
    exact ha.2 (hi' ▸ hx)
  have hcount := fun y => waiters_update (t := p.pcb_table) (x := y) (i := i)
    (q := { p.pcb_table i with block_sem_index := -1, status := Ready, time_count := 0 }) hi hlt
  refine ⟨i, hi, hlt, hi', hblocked, heq, ?_, ?_, ?_, fun y hy hyx => ?_⟩
  · rw [heq]
    refine ⟨fun j hj hjlt hj' => ?_, ?_, fun j hj hjlt hj' => ?_⟩
    · rcases eq_or_ne j i with rfl | hji
      · rw [Function.update_self]
        refine h.home j hj hjlt ?_
        rw [hblocked]
        decide
      · rw [Function.update_of_ne hji] at hj' ⊢
        exact h.home j hj hjlt hj'
    · have h0 : (0 : ℤ) ≠ i := by
        rintro rfl
        exact h.idle.2 (hi' ▸ hx)
      rw [Function.update_of_ne h0]
      exact h.idle
    · rcases eq_or_ne j i with rfl | hji
      · rw [Function.update_self] at hj'
        exact absurd hj' hneg
      · rw [Function.update_of_ne hji] at hj' ⊢
        exact h.blocked j hj hjlt hj'
  · have hcur : releaseSem x p.pcb_table p.current = p.cur := by
      rw [heq, Function.update_of_ne hne]
      rfl
    refine ⟨⟨ha.1.nonneg, ha.1.lt, ?_⟩, ?_⟩ <;> simp only [Procs.cur, hcur]
    · exact ha.1.live
    · exact ha.2
  · have hself := hcount x
    have hnot : (-1 : ℤ) ≠ x := fun hx' => hneg (hx' ▸ hx)
    rw [if_pos hi', if_neg hnot] at hself
    rw [heq]
    exact hself
  · have hother := hcount y
    have hnot : (-1 : ℤ) ≠ y := fun hy' => hneg (hy' ▸ hy)
    have hiy : (p.pcb_table i).block_sem_index ≠ y := fun hi'' => hyx (hi''.symm.trans hi')
    rw [if_neg hiy, if_neg hnot] at hother
    rw [heq]
    exact hother

/-- A process is created in a free slot. It waits for what the slot's last process waited for, which
is none of the semaphores. -/
theorem WaitOk.newProcess {t : ℤ → PCB} {c : ℤ} {q : PCB} (h : WaitOk I t) (hc : 0 ≤ c)
    (hlt : c < MAX_PCB) (hfree : (t c).status = -1) (hown : q.pcb_index = c)
    (hindex : q.block_sem_index = (t c).block_sem_index) :
    ¬I (t c).block_sem_index ∧ WaitOk I (Function.update t c q) := by
  have hnot : ¬I (t c).block_sem_index := fun hi => by
    have hblocked := h.blocked c hc hlt hi
    rw [hfree] at hblocked
    exact absurd hblocked (by decide)
  have h0 : 0 ≠ c := by
    rintro rfl
    exact h.idle.1 hfree
  refine ⟨hnot, fun i hi hilt hi' => ?_, ?_, fun i hi hilt hi' => ?_⟩
  · rcases eq_or_ne i c with rfl | hne
    · rw [Function.update_self, hown]
    · rw [Function.update_of_ne hne] at hi' ⊢
      exact h.home i hi hilt hi'
  · rw [Function.update_of_ne h0]
    exact h.idle
  · rcases eq_or_ne i c with rfl | hne
    · rw [Function.update_self, hindex] at hi'
      exact absurd hi' hnot
    · rw [Function.update_of_ne hne] at hi' ⊢
      exact h.blocked i hi hilt hi'

end Table

end OsLab

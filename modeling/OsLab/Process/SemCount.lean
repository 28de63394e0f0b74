import OsLab.Lib.Run
import OsLab.Process.WaitTable

/-!
# Semaphore accounting

Who waits for a semaphore is recorded three times: in its value, in `block_proc_num`, and in the
`block_sem_index` of the processes. The two kinds of semaphores keep the first two in different ways
(`SemOk`), and all semaphores share the process table.

`sem_wait` and `sem_post` are described by `semWait_spec` and `semPost_spec` for a semaphore whose
records agree. The system is any collection of semaphores with numbers of their own, used by
whichever process runs, with time slices in between and no `wakeup` of a process that waits.

`value` is a C `int`. A `sem_post` on a counting semaphore whose value is the greatest `int` makes
it negative, and then `block_proc_num` too.

## Main definitions

* `SemOk` — the records of a semaphore that `n` processes wait for
* `PostSafe` — the value of a counting semaphore after a `sem_post` is an `int`
* `SemState` — the process table, and the semaphores
* `SemEvent` — what can happen: calls of the running process, the end of its time slice, and the
  timer
* `SemSafe` — when an event is harmless
* `SemExact` — what the records are meant to be: `block_proc_num` is what the value says and is the
  number of processes that wait, all of which are blocked
* `PostExact` — no lost and no spurious wake-up
* `SemInv` — the state between two events

## What is asked of an event

`SemSafe` asks of an event what this event needs: of a `sem_post` that the value can grow, and of an
event that calls `schedule` (`SemEvent.Switches`) that `schedule` finds a process.

## Main results

* `semAccounting` — the records agree in every run that is safe, and `sem_post` makes exactly one
  process ready if some wait
-/

namespace OsLab

/-! ## One semaphore -/

/-- **The records of a semaphore** that `n` processes wait for. -/
structure SemOk (sem : Sem) (n : ℕ) : Prop where
  waiters : sem.block_proc_num = n
  counting : sem.mutex = false → sem.block_proc_num = max 0 (-sem.value)
  binary : sem.mutex = true →
    (sem.value = 0 ∨ sem.value = 1) ∧ (sem.value = 1 → sem.block_proc_num = 0)

/-- The value of a counting semaphore after a `sem_post` is an `int`. -/
def PostSafe (sem : Sem) : Prop := sem.mutex = true ∨ sem.value + 1 < 2 ^ 31

section One

variable {sem sem' : Sem} {n : ℕ} {p p' : Procs}

/-- The semaphore after a `sem_wait` that returns at once. -/
def Sem.take (sem : Sem) : Sem := { sem with value := sem.value - 1 }

/-- The semaphore after a `sem_wait` that blocks. -/
def Sem.block (sem : Sem) : Sem :=
  { sem with
    value := if sem.mutex then sem.value else sem.value - 1
    block_proc_num := sem.block_proc_num + 1 }

/-- The semaphore after a `sem_post` while nobody waits. -/
def Sem.give (sem : Sem) : Sem :=
  { sem with value := if sem.mutex then 1 else sem.value + 1 }

/-- The semaphore after a `sem_post` while somebody waits. -/
def Sem.release (sem : Sem) : Sem :=
  { sem with
    value := if sem.mutex then sem.value else sem.value + 1
    block_proc_num := sem.block_proc_num - 1 }

/-- **`sem_wait`** -/
theorem semWait_spec (h : SemOk sem n) (hn : n ≤ 100) (hlt : sem.value < 2 ^ 31) :
    semWait sem p =
      if 0 < sem.value then some (sem.take, p)
      else (schedule (blockOn sem.sem_index p)).map fun p' => (sem.block, p') := by
  have hbpn : int32 (sem.block_proc_num + 1) = sem.block_proc_num + 1 := by
    have := h.waiters
    exact int32_eq (by omega) (by omega)
  obtain ⟨value, mutex, sem_index, block_proc_num⟩ := sem
  rw [semWait]
  cases mutex with
  | false =>
    have hcount := h.counting rfl
    have hw := h.waiters
    simp only at hcount hw hlt hbpn
    have hvalue : int32 (value - 1) = value - 1 := int32_eq (by omega) (by omega)
    simp only [Bool.not_false, if_true, hvalue]
    by_cases hpos : 0 < value
    · rw [if_neg (by omega), if_pos hpos]
      rfl
    · rw [if_pos (by omega), if_neg hpos, semBlock, hbpn]
      rfl
  | true =>
    obtain ⟨hv, -⟩ := h.binary rfl
    simp only at hv hbpn
    simp only [Bool.not_true, Bool.false_eq_true, if_false]
    rcases hv with rfl | rfl
    · rw [if_neg (by decide), if_neg (by decide), semBlock, hbpn]
      rfl
    · rw [if_pos rfl, if_pos (by decide)]
      rfl

/-- **`sem_post`** -/
theorem semPost_spec (h : SemOk sem n) (hn : n ≤ 100) (hsafe : PostSafe sem) :
    semPost sem p =
      if n = 0 then (sem.give, p)
      else (sem.release, { p with pcb_table := releaseSem sem.sem_index p.pcb_table }) := by
  have hw := h.waiters
  have hbpn : int32 (sem.block_proc_num - 1) = sem.block_proc_num - 1 :=
    int32_eq (by omega) (by omega)
  obtain ⟨value, mutex, sem_index, block_proc_num⟩ := sem
  rw [semPost]
  cases mutex with
  | false =>
    have hcount := h.counting rfl
    have hlt := hsafe.resolve_left Bool.false_ne_true
    simp only at hcount hw hlt hbpn
    have hvalue : int32 (value + 1) = value + 1 := int32_eq (by omega) (by omega)
    simp only [Bool.not_false, if_true, hvalue]
    by_cases h0 : n = 0
    · rw [if_neg (by omega), if_pos h0]
      rfl
    · rw [if_pos (by omega), if_neg h0, semRelease, hbpn]
      rfl
  | true =>
    simp only at hw hbpn
    simp only [Bool.not_true, Bool.false_eq_true, if_false]
    by_cases h0 : n = 0
    · rw [if_pos (by omega), if_pos h0]
      rfl
    · rw [if_neg (by omega), if_neg h0, semRelease, hbpn]
      rfl

theorem SemOk.take (h : SemOk sem n) (hpos : 0 < sem.value) : SemOk sem.take n := by
  refine ⟨h.waiters, fun hm => ?_, fun hm => ?_⟩ <;> simp only [Sem.take] at hm ⊢
  · have := h.counting hm
    omega
  · obtain ⟨hv, hzero⟩ := h.binary hm
    exact ⟨.inl (by omega), fun _ => hzero (by omega)⟩

theorem SemOk.block (h : SemOk sem n) (hpos : ¬0 < sem.value) : SemOk sem.block (n + 1) := by
  have hw := h.waiters
  refine ⟨by simp only [Sem.block]; omega, fun hm => ?_, fun hm => ?_⟩ <;>
    simp only [Sem.block] at hm ⊢
  · have := h.counting hm
    rw [hm, if_neg (by decide)]
    omega
  · obtain ⟨hv, -⟩ := h.binary hm
    simp only [hm, if_true]
    exact ⟨hv, fun hone => absurd hone (by omega)⟩

theorem SemOk.give (h : SemOk sem 0) : SemOk sem.give 0 := by
  have hw := h.waiters
  refine ⟨h.waiters, fun hm => ?_, fun hm => ?_⟩ <;> simp only [Sem.give] at hm ⊢
  · have := h.counting hm
    rw [hm, if_neg (by decide)]
    omega
  · rw [if_pos hm]
    exact ⟨.inr rfl, fun _ => hw⟩

theorem SemOk.release {n : ℕ} (h : SemOk sem (n + 1)) : SemOk sem.release n := by
  have hw := h.waiters
  push_cast at hw
  refine ⟨by simp only [Sem.release]; omega, fun hm => ?_, fun hm => ?_⟩ <;>
    simp only [Sem.release] at hm ⊢
  · have := h.counting hm
    rw [hm, if_neg (by decide)]
    omega
  · obtain ⟨hv, hzero⟩ := h.binary hm
    simp only [hm, if_true]
    exact ⟨hv, fun hone => absurd (hzero hone) (by omega)⟩

end One

/-! ## The system -/

variable {κ : Type*}

/-- The process table, and the semaphores. -/
structure SemState (κ : Type*) where
  procs : Procs
  sems : κ → Sem

/-- What can happen: calls of the running process, the end of its time slice, and the timer. -/
inductive SemEvent (κ : Type*)
  | semWait (k : κ)
  | semPost (k : κ)
  | timeSlice
  | timer

/-- A semaphore and the process table as a function of the kernel leaves them. -/
def SemState.set [DecidableEq κ] (s : SemState κ) (k : κ) (x : Sem × Procs) : SemState κ :=
  ⟨x.2, Function.update s.sems k x.1⟩

/-- What an event does. -/
def semStep [DecidableEq κ] (s : SemState κ) : SemEvent κ → Option (SemState κ)
  | .semWait k => (OsLab.semWait (s.sems k) s.procs).map (s.set k)
  | .semPost k => some (s.set k (OsLab.semPost (s.sems k) s.procs))
  | .timeSlice => (OsLab.timeSlice s.procs).map fun p => { s with procs := p }
  | .timer => (timerTick s.procs).map fun p => { s with procs := p }

/-- `x` is the number of one of the semaphores. -/
def SemState.index (s : SemState κ) (x : ℤ) : Prop := ∃ k, (s.sems k).sem_index = x

/-- Slot 0 is the idle process, which does not wait for semaphores, and the timer wakes up nobody
who waits for one. -/
def SemEvent.Allowed (s : SemState κ) : SemEvent κ → Prop
  | .semWait _ => s.procs.current ≠ 0
  | .timer => NoWakeup s.index s.procs.pcb_table
  | _ => True

/-- An event that is allowed and ends. -/
def SemStep [DecidableEq κ] (s : SemState κ) (e : SemEvent κ) (s' : SemState κ) : Prop :=
  e.Allowed s ∧ semStep s e = some s'

/-- The event calls `schedule`. -/
def SemEvent.Switches (s : SemState κ) : SemEvent κ → Prop
  | .semWait k => ¬0 < (s.sems k).value
  | .semPost _ => False
  | .timeSlice => True
  | .timer => s.procs.cur.time_count = 10

/-- **When an event is harmless.** The value of a counting semaphore stays an `int`, and `schedule`
does not take what is behind the table for a process. -/
def SemSafe (s : SemState κ) (e : SemEvent κ) : Prop :=
  (∀ k, e = .semPost k → PostSafe (s.sems k)) ∧ (e.Switches s → EndOfTable s.procs)

/-- Right after the `sem_init`s, each of which takes the next number: any processes are there, some
of them asleep or blocked on other semaphores. -/
structure SemStart (s : SemState κ) : Prop where
  sem_init : ∃ (v : κ → ℤ) (m : κ → Bool) (n : κ → ℤ), Function.Injective n ∧
    ∀ k, 0 ≤ n k ∧ (m k = false → 0 ≤ v k ∧ v k < 2 ^ 31) ∧ s.sems k = (semInit (v k) (m k) (n k)).1
  unused : ∀ k i, 0 ≤ i → i < MAX_PCB →
    (s.procs.pcb_table i).block_sem_index ≠ (s.sems k).sem_index
  home : ∀ i, 0 ≤ i → i < MAX_PCB → (s.procs.pcb_table i).status ≠ -1 →
    (s.procs.pcb_table i).pcb_index = i
  idle : (s.procs.pcb_table 0).status ≠ -1
  cur : CurOk s.procs

/-- **What the records are meant to be**: `block_proc_num` is what the value says and is the number
of processes that wait, all of which are blocked. -/
def SemExact (s : SemState κ) : Prop :=
  ∀ k, SemOk (s.sems k) (waiters s.procs.pcb_table (s.sems k).sem_index) ∧
    ∀ i, 0 ≤ i → i < MAX_PCB → (s.procs.pcb_table i).block_sem_index = (s.sems k).sem_index →
      (s.procs.pcb_table i).status = Blocked

/-- **No lost and no spurious wake-up.** If processes wait, `sem_post` takes exactly one of them off
the semaphore and makes it ready, and if none waits it leaves all processes alone. -/
def PostExact (sem : Sem) (p : Procs) : Prop :=
  if waiters p.pcb_table sem.sem_index = 0 then (semPost sem p).2 = p
  else ∃ i, 0 ≤ i ∧ i < MAX_PCB ∧ (p.pcb_table i).block_sem_index = sem.sem_index ∧
    (p.pcb_table i).status = Blocked ∧
      (semPost sem p).2 = p.modify i fun q =>
        { q with block_sem_index := -1, status := Ready, time_count := 0 }

/-! ## The invariant -/

/-- The state between two events. -/
structure SemInv (s : SemState κ) : Prop where
  inj : Function.Injective fun k => (s.sems k).sem_index
  nonneg : ∀ k, 0 ≤ (s.sems k).sem_index
  range : ∀ k, (s.sems k).value < 2 ^ 31
  table : WaitOk s.index s.procs.pcb_table
  awake : Awake s.index s.procs
  records : ∀ k, SemOk (s.sems k) (waiters s.procs.pcb_table (s.sems k).sem_index)

section Inv

variable {s s' : SemState κ} {k : κ} {sem : Sem} {p : Procs}

theorem SemStart.inv (h : SemStart s) : SemInv s := by
  obtain ⟨v, m, n, hinj, hinit⟩ := h.sem_init
  have hindex : ∀ k, (s.sems k).sem_index = n k := fun k => by
    rw [(hinit k).2.2]
    rfl
  have hunused : ∀ i, 0 ≤ i → i < MAX_PCB → ¬s.index (s.procs.pcb_table i).block_sem_index :=
    fun i hi hlt ⟨k, hk⟩ => h.unused k i hi hlt hk.symm
  refine ⟨fun k k' hkk => hinj ?_, fun k => ?_, fun k => ?_, ?_, ⟨h.cur, ?_⟩, fun k => ?_⟩
  · simpa only [hindex] using hkk
  · rw [hindex]
    exact (hinit k).1
  · obtain ⟨-, hv, heq⟩ := hinit k
    rw [heq, semInit]
    cases hm : m k with
    | false => exact (hv hm).2
    | true => exact (by decide : (1 : ℤ) < 2 ^ 31)
  · exact ⟨h.home, ⟨h.idle, hunused 0 (Int.le_refl 0) (by decide)⟩,
      fun i hi hlt hi' => absurd hi' (hunused i hi hlt)⟩
  · exact hunused _ h.cur.nonneg h.cur.lt
  · rw [waiters_eq_zero.mpr (h.unused k)]
    obtain ⟨-, hv, heq⟩ := hinit k
    rw [heq, semInit]
    cases hm : m k with
    | false =>
      have hv := (hv hm).1
      exact ⟨rfl, fun _ => (max_eq_left (by simp only [if_neg Bool.false_ne_true]; omega)).symm,
        nofun⟩
    | true => exact ⟨rfl, nofun, fun _ => ⟨.inr rfl, fun _ => rfl⟩⟩

theorem SemInv.not_index (h : SemInv s) : ¬s.index (-1) := by
  rintro ⟨k, hk⟩
  have := h.nonneg k
  omega

/-- The records of the semaphores are about one another's numbers only. -/
theorem SemInv.other (h : SemInv s) {k' : κ} (hne : k' ≠ k) :
    (s.sems k').sem_index ≠ (s.sems k).sem_index := fun heq => hne (h.inj heq)

/-- The processes change, and who waits for what stays. -/
theorem SemInv.procs (h : SemInv s) (htable : WaitOk s.index p.pcb_table)
    (hawake : Awake s.index p)
    (hindex : ∀ j, (p.pcb_table j).block_sem_index = (s.procs.pcb_table j).block_sem_index) :
    SemInv { s with procs := p } :=
  ⟨h.inj, h.nonneg, h.range, htable, hawake, fun k => by
    simp only [waiters_congr hindex]
    exact h.records k⟩

theorem SemInv.exact (h : SemInv s) : SemExact s := fun k =>
  ⟨h.records k, fun i hi hlt hi' => h.table.blocked i hi hlt ⟨k, hi'.symm⟩⟩

variable [DecidableEq κ]

/-- The numbers do not change when one semaphore changes and keeps its number. -/
theorem sem_index_set (hsem : sem.sem_index = (s.sems k).sem_index) (k' : κ) :
    ((s.set k (sem, p)).sems k').sem_index = (s.sems k').sem_index := by
  rcases eq_or_ne k' k with rfl | hne
  · simp [SemState.set, hsem]
  · simp only [SemState.set, Function.update_of_ne hne]

theorem index_set (hsem : sem.sem_index = (s.sems k).sem_index) :
    (s.set k (sem, p)).index = s.index := by
  funext x
  simp only [SemState.index, sem_index_set hsem]

/-- **One semaphore changes**, and the number of processes that wait for it. -/
theorem SemInv.set (h : SemInv s) (hsem : sem.sem_index = (s.sems k).sem_index)
    (hlt : sem.value < 2 ^ 31) (htable : WaitOk s.index p.pcb_table) (hawake : Awake s.index p)
    (hrec : SemOk sem (waiters p.pcb_table sem.sem_index))
    (hother : ∀ y, s.index y → y ≠ (s.sems k).sem_index →
      waiters p.pcb_table y = waiters s.procs.pcb_table y) : SemInv (s.set k (sem, p)) := by
  refine ⟨fun k₁ k₂ heq => h.inj ?_, fun k' => ?_, fun k' => ?_, ?_, ?_, fun k' => ?_⟩
  · simpa only [sem_index_set hsem] using heq
  · rw [sem_index_set hsem]
    exact h.nonneg k'
  · rcases eq_or_ne k' k with rfl | hne
    · simpa only [SemState.set, Function.update_self] using hlt
    · simpa only [SemState.set, Function.update_of_ne hne] using h.range k'
  · rw [index_set hsem]
    exact htable
  · rw [index_set hsem]
    exact hawake
  · rcases eq_or_ne k' k with rfl | hne
    · simpa only [SemState.set, Function.update_self] using hrec
    · simp only [SemState.set, Function.update_of_ne hne]
      rw [hother _ ⟨k', rfl⟩ (h.other hne)]
      exact h.records k'

/-- **`sem_wait`** -/
theorem SemInv.semWait (h : SemInv s) (hidle : s.procs.current ≠ 0)
    (hend : ¬0 < (s.sems k).value → EndOfTable s.procs) {x : Sem × Procs}
    (hx : OsLab.semWait (s.sems k) s.procs = some x) : SemInv (s.set k x) := by
  have hrec := h.records k
  rw [semWait_spec hrec (waiters_le _ _) (h.range k)] at hx
  have hrange := h.range k
  split at hx
  · next hpos =>
    obtain rfl := Option.some.inj hx
    refine h.set rfl ?_ h.table h.awake (hrec.take hpos) fun y _ _ => rfl
    simp only [Sem.take]
    omega
  · next hpos =>
    obtain ⟨p', hp', rfl⟩ := Option.map_eq_some_iff.mp hx
    obtain ⟨hw, ha, hself, hother⟩ := h.table.block h.awake hidle ⟨k, rfl⟩ (hend hpos) hp'
    refine h.set rfl ?_ hw ha ?_ hother
    · simp only [Sem.block]
      split <;> omega
    · show SemOk _ (waiters p'.pcb_table (s.sems k).sem_index)
      rw [hself]
      exact hrec.block hpos

/-- **`sem_post`** -/
theorem SemInv.semPost (h : SemInv s) (hsafe : PostSafe (s.sems k)) :
    SemInv (s.set k (OsLab.semPost (s.sems k) s.procs)) ∧ PostExact (s.sems k) s.procs := by
  have hrec := h.records k
  have hrange := h.range k
  have hpost := semPost_spec (p := s.procs) hrec (waiters_le _ _) hsafe
  rw [PostExact, hpost]
  split
  · next hnone =>
    rw [hnone] at hrec
    refine ⟨h.set rfl ?_ h.table h.awake ?_ fun y _ _ => rfl, rfl⟩
    · simp only [Sem.give]
      split
      · decide
      · next hm => exact hsafe.resolve_left hm
    · show SemOk _ (waiters s.procs.pcb_table (s.sems k).sem_index)
      rw [hnone]
      exact hrec.give
  · next hsome =>
    obtain ⟨i, hi, hlt, hi', hblocked, heq, hw, ha, hself, hother⟩ :=
      h.table.release h.awake ⟨k, rfl⟩ h.not_index hsome
    refine ⟨h.set rfl ?_ hw ha ?_ hother, i, hi, hlt, hi', hblocked, ?_⟩
    · simp only [Sem.release]
      split
      · exact hrange
      · next hm => exact hsafe.resolve_left hm
    · rw [← hself] at hrec
      exact hrec.release
    · simp only [heq]
      rfl

/-- **One safe event.** -/
theorem SemInv.step {e : SemEvent κ} (h : SemInv s) (hsafe : SemSafe s e) (hstep : SemStep s e s') :
    SemInv s' := by
  obtain ⟨hallowed, hexec⟩ := hstep
  obtain ⟨hpost, hend⟩ := hsafe
  cases e with
  | semWait k =>
    obtain ⟨x, hx, rfl⟩ := Option.map_eq_some_iff.mp hexec
    exact h.semWait hallowed hend hx
  | semPost k =>
    obtain rfl := Option.some.inj hexec
    exact (h.semPost (hpost k rfl)).1
  | timeSlice =>
    obtain ⟨p, hp, rfl⟩ := Option.map_eq_some_iff.mp hexec
    obtain ⟨hw, ha, hindex⟩ := h.table.timeSlice h.awake (hend trivial) hp
    exact h.procs hw ha hindex
  | timer =>
    obtain ⟨p, hp, rfl⟩ := Option.map_eq_some_iff.mp hexec
    obtain ⟨hw, ha, hindex⟩ := h.table.timerTick h.awake hend hallowed hp
    exact h.procs hw ha hindex

/-! ### Tokens

What the calls do, seen from the threads that use the semaphores: a semaphore has so many tokens to
give, and a thread that finds none waits until another thread passes it one. -/

/-- The tokens a semaphore has to give. -/
def SemState.free (s : SemState κ) (k : κ) : ℤ := max 0 (s.sems k).value

/-- Which semaphore each process waits for. -/
def SemState.who (s : SemState κ) (i : ℤ) : ℤ := (s.procs.pcb_table i).block_sem_index

theorem free_set {x : Sem × Procs} (k' : κ) :
    (s.set k x).free k' = if k' = k then max 0 x.1.value else s.free k' := by
  simp only [SemState.free, SemState.set, Function.update_apply]
  split <;> rfl

/-- **`sem_wait`** takes a token, or the running process waits. -/
theorem SemInv.wait_tokens (h : SemInv s) {x : Sem × Procs}
    (hx : OsLab.semWait (s.sems k) s.procs = some x) :
    0 < s.free k ∧ (s.set k x).who = s.who ∧
        (s.set k x).free = Function.update s.free k (s.free k - 1) ∨
      (s.set k x).who = Function.update s.who s.procs.current (s.sems k).sem_index ∧
        (s.set k x).free = s.free := by
  rw [semWait_spec (h.records k) (waiters_le _ _) (h.range k)] at hx
  split at hx
  · next hpos =>
    obtain rfl := Option.some.inj hx
    have hfree : s.free k = (s.sems k).value := max_eq_right (by omega)
    refine .inl ⟨by omega, rfl, ?_⟩
    funext k'
    rw [free_set, Function.update_apply, hfree]
    split
    · exact max_eq_right (by simp only [Sem.take]; omega)
    · rfl
  · next hpos =>
    obtain ⟨p', hp', rfl⟩ := Option.map_eq_some_iff.mp hx
    refine .inr ⟨?_, ?_⟩
    · funext i
      simp only [SemState.who, SemState.set]
      rw [schedule_frame (g := PCB.block_sem_index) (fun q v => rfl) hp', blockOn, Procs.modify]
      simp only [Function.update_apply]
      split <;> rfl
    · funext k'
      rw [free_set]
      split
      · next heq =>
        have hblock : (s.sems k).block.value ≤ 0 := by
          simp only [Sem.block]
          split <;> omega
        rw [heq, SemState.free, max_eq_left hblock, max_eq_left (by omega)]
      · rfl

/-- **`sem_post`** gives a token back, or passes it to a process that waits. -/
theorem SemInv.post_tokens (h : SemInv s) (hsafe : PostSafe (s.sems k))
    (hmutex : (s.sems k).mutex = true → s.free k = 0) :
    (s.set k (OsLab.semPost (s.sems k) s.procs)).who = s.who ∧
        (s.set k (OsLab.semPost (s.sems k) s.procs)).free =
          Function.update s.free k (s.free k + 1) ∨
      ∃ i, 0 ≤ i ∧ i < MAX_PCB ∧ s.who i = (s.sems k).sem_index ∧
        (s.set k (OsLab.semPost (s.sems k) s.procs)).who = Function.update s.who i (-1) ∧
        (s.set k (OsLab.semPost (s.sems k) s.procs)).free = s.free := by
  have hrec := h.records k
  rw [semPost_spec (p := s.procs) hrec (waiters_le _ _) hsafe]
  split
  · next hnone =>
    refine .inl ⟨rfl, ?_⟩
    funext k'
    rw [free_set, Function.update_apply]
    split
    · simp only [Sem.give]
      have hw := hrec.waiters
      rw [hnone] at hw
      cases hm : (s.sems k).mutex with
      | true =>
        rw [hmutex hm]
        rfl
      | false =>
        have hcount := hrec.counting hm
        have hfree : s.free k = (s.sems k).value := max_eq_right (by omega)
        rw [hfree, if_neg Bool.false_ne_true]
        omega
    · rfl
  · next hsome =>
    obtain ⟨i, hi, hlt, hi', -, heq, -⟩ := h.table.release h.awake ⟨k, rfl⟩ h.not_index hsome
    refine .inr ⟨i, hi, hlt, hi', ?_, ?_⟩
    · funext j
      simp only [SemState.who, SemState.set, heq, Function.update_apply]
      split <;> rfl
    · funext k'
      rw [free_set]
      split
      · next heq' =>
        have hw := hrec.waiters
        have hvalue : (s.sems k).value ≤ 0 ∧ (s.sems k).release.value ≤ 0 := by
          simp only [Sem.release]
          cases hm : (s.sems k).mutex with
          | true =>
            obtain ⟨hv, hzero⟩ := hrec.binary hm
            have hne : (s.sems k).value ≠ 1 := fun hone => by have := hzero hone; omega
            simp only [if_true]
            omega
          | false =>
            have hcount := hrec.counting hm
            simp only [Bool.false_eq_true, if_false]
            omega
        rw [heq', SemState.free, max_eq_left hvalue.2, max_eq_left hvalue.1]
      · rfl

end Inv

/-- **Semaphore accounting.** In a run all of whose events are harmless the records of every
semaphore agree in every state, and every `sem_post` that is harmless makes exactly one process
ready if some wait and none otherwise. -/
theorem semAccounting [DecidableEq κ] (s₀ s : SemState κ) (l : List (SemEvent κ)) (h : SemStart s₀)
    (hrun : Run (Guarded SemSafe SemStep) s₀ l s) :
    SemExact s ∧ ∀ k, PostSafe (s.sems k) → PostExact (s.sems k) s.procs := by
  have hinv : SemInv s := Run.invariant (fun _ _ _ h hs => h.step hs.1 hs.2) hrun h.inv
  exact ⟨hinv.exact, fun k hsafe => (hinv.semPost hsafe).2⟩

/-! ### One counting semaphore -/

/-- The game runs, and has set up a semaphore with value `v`. -/
def semStart (v : ℤ) : SemState Unit :=
  ⟨⟨slotTable [idlePcb, { gamePcb with status := Running }], 1⟩, fun _ => (semInit v false 0).1⟩

/-- The game runs, another process is ready, and the semaphore has value 0. -/
def twoProcesses : SemState Unit :=
  ⟨⟨slotTable [idlePcb, { gamePcb with status := Running }, processReady (pcbNew (-1) 2 2 freePcb)],
    1⟩, fun _ => (semInit 0 false 0).1⟩

/-- A table of processes none of which waits, and one semaphore. -/
theorem semStart_slotTable {l : List PCB} {c v : ℤ} (hv : 0 ≤ v) (hlt : v < 2 ^ 31)
    (hl : ∀ (n : ℕ) (hn : n < l.length), l[n].pcb_index = n ∧ l[n].block_sem_index = -1)
    (hidle : (slotTable l 0).status ≠ -1) (hcur : CurOk ⟨slotTable l, c⟩) :
    SemStart (⟨⟨slotTable l, c⟩, fun _ => (semInit v false 0).1⟩ : SemState Unit) := by
  have hslot : ∀ i : ℤ, 0 ≤ i →
      (slotTable l i).block_sem_index = -1 ∧
        ((slotTable l i).status ≠ -1 → (slotTable l i).pcb_index = i) := by
    intro i hi
    by_cases hn : i.toNat < l.length
    · obtain ⟨hindex, hwait⟩ := hl i.toNat hn
      rw [slotTable, if_pos hi, List.getD_eq_getElem _ _ hn]
      exact ⟨hwait, fun _ => by rw [hindex, Int.toNat_of_nonneg hi]⟩
    · rw [slotTable_free (by omega)]
      exact ⟨rfl, fun hlive => absurd rfl hlive⟩
  refine ⟨⟨fun _ => v, fun _ => false, fun _ => 0, fun _ _ _ => rfl, fun _ =>
    ⟨Int.le_refl 0, fun _ => ⟨hv, hlt⟩, rfl⟩⟩, fun k i hi _ => ?_, fun i hi _ => (hslot i hi).2,
    hidle, hcur⟩
  show (slotTable l i).block_sem_index ≠ 0
  rw [(hslot i hi).1]
  decide

theorem semStart_start {v : ℤ} (hv : 0 ≤ v) (hlt : v < 2 ^ 31) : SemStart (semStart v) := by
  refine semStart_slotTable (l := [idlePcb, { gamePcb with status := Running }]) hv hlt
    (fun n hn => ?_) (by decide : New ≠ -1) ⟨(by decide : (0 : ℤ) ≤ 1), (by decide : (1 : ℤ) < 100),
      (by decide : Running ≠ -1)⟩
  have : n = 0 ∨ n = 1 := by
    simp only [List.length_cons, List.length_nil] at hn
    omega
  rcases this with rfl | rfl <;> exact ⟨rfl, rfl⟩

theorem semStart_twoProcesses : SemStart twoProcesses := by
  refine semStart_slotTable (l := [idlePcb, { gamePcb with status := Running },
    processReady (pcbNew (-1) 2 2 freePcb)]) (v := 0) (by decide) (by decide) (fun n hn => ?_)
    (by decide : New ≠ -1) ⟨(by decide : (0 : ℤ) ≤ 1), (by decide : (1 : ℤ) < 100),
      (by decide : Running ≠ -1)⟩
  have : n = 0 ∨ n = 1 ∨ n = 2 := by
    simp only [List.length_cons, List.length_nil] at hn
    omega
  rcases this with rfl | rfl | rfl <;> exact ⟨rfl, rfl⟩

/-- No timer, neither the idle process nor that in slot 99 runs, and the value can grow. -/
def SemEvent.calm (s : SemState Unit) : SemEvent Unit → Bool
  | .timer => false
  | _ => s.procs.current ≠ 0 ∧ s.procs.current ≠ 99 ∧ (s.sems ()).value + 1 < 2 ^ 31

theorem SemEvent.calm_spec {s : SemState Unit} {e : SemEvent Unit} (h : e.calm s = true) :
    SemSafe s e ∧ e.Allowed s := by
  have hne : e ≠ .timer := by
    rintro rfl
    exact Bool.false_ne_true h
  have hcalm : s.procs.current ≠ 0 ∧ s.procs.current ≠ 99 ∧ (s.sems ()).value + 1 < 2 ^ 31 := by
    cases e <;> first | exact of_decide_eq_true h | exact absurd rfl hne
  obtain ⟨hidle, hlast, hvalue⟩ := hcalm
  refine ⟨⟨fun k _ => .inr hvalue, fun _ h99 => absurd h99 hlast⟩, ?_⟩
  cases e with
  | semWait k => exact hidle
  | timer => exact absurd rfl hne
  | semPost k => trivial
  | timeSlice => trivial

theorem run_calm {s t : SemState Unit} {l : List (SemEvent Unit)}
    (h : l.foldlM (guardedBy (fun s e => e.calm s = true) semStep) s = some t) :
    Run (Guarded SemSafe SemStep) s l t := by
  refine (Run.of_guardedBy (fun _ _ _ hexec => hexec) h).mono fun s e t hstep => ?_
  obtain ⟨hsafe, hallowed⟩ := SemEvent.calm_spec hstep.1
  exact ⟨hsafe, hallowed, hstep.2⟩

/-- The game waits for the semaphore and is blocked. The other process posts, its time is over, and
the game runs again. -/
theorem semAccounting_released :
    ∃ s s', SemStart twoProcesses ∧
      Run (Guarded SemSafe SemStep) twoProcesses [.semWait ()] s ∧
      (s.procs.pcb_table 1).status = Blocked ∧
      (SemExact s ∧ ∀ k, PostSafe (s.sems k) → PostExact (s.sems k) s.procs) ∧
      Run (Guarded SemSafe SemStep) twoProcesses [.semWait (), .semPost (), .timeSlice] s' ∧
      (s'.procs.pcb_table 1).status = Running ∧
      (SemExact s' ∧ ∀ k, PostSafe (s'.sems k) → PostExact (s'.sems k) s'.procs) := by
  have heval : ([SemEvent.semWait ()].foldlM (guardedBy (fun s e => e.calm s = true) semStep)
      twoProcesses).map (fun s => (s.procs.pcb_table 1).status) = some Blocked := by
    decide +kernel
  have heval' : ([.semWait (), .semPost (), .timeSlice].foldlM
      (guardedBy (fun s e => SemEvent.calm s e = true) semStep) twoProcesses).map
        (fun s => (s.procs.pcb_table 1).status) = some Running := by
    decide +kernel
  obtain ⟨s, hs, hblocked⟩ := Option.map_eq_some_iff.mp heval
  obtain ⟨s', hs', hruns⟩ := Option.map_eq_some_iff.mp heval'
  exact ⟨s, s', semStart_twoProcesses, run_calm hs, hblocked,
    semAccounting _ _ _ semStart_twoProcesses (run_calm hs), run_calm hs', hruns,
    semAccounting _ _ _ semStart_twoProcesses (run_calm hs')⟩

/-- The semaphore with the greatest value after a `sem_post`. -/
theorem semPost_overflow (p : Procs) :
    (semPost ⟨2147483647, false, 0, 0⟩ p).1 = ⟨-2147483648, false, 0, -1⟩ := rfl

/-- **A value that overflows.** A semaphore is set up with the greatest value, and a `sem_post`
makes its value and `block_proc_num` negative. -/
theorem semPost_not_exact :
    SemStart (semStart 2147483647) ∧
      ∃ s, Run SemStep (semStart 2147483647) [.semPost ()] s ∧
        (s.sems ()).block_proc_num = -1 ∧ (s.sems ()).value = -2147483648 ∧ ¬SemExact s := by
  have hsem : ((semStart 2147483647).set ()
      (semPost ⟨2147483647, false, 0, 0⟩ (semStart 2147483647).procs)).sems () =
        ⟨-2147483648, false, 0, -1⟩ := by
    simp [SemState.set, semPost_overflow]
  have hstep : SemStep (semStart 2147483647) (.semPost ()) ((semStart 2147483647).set ()
      (semPost ⟨2147483647, false, 0, 0⟩ (semStart 2147483647).procs)) := ⟨trivial, rfl⟩
  refine ⟨semStart_start (by decide) (by decide), _, .single hstep,
    congrArg Sem.block_proc_num hsem, congrArg Sem.value hsem, fun hexact => ?_⟩
  have hw := (hexact ()).1.waiters
  rw [hsem] at hw
  exact absurd hw (by simp only; omega)

end OsLab

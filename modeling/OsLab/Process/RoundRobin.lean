import OsLab.Process.Lifecycle

/-!
# `schedule` goes around the table

The loop of `schedule` starts behind the running slot, so it meets the other slots in the order of
`cyclicOrder`, and takes the first one that is ready. It reduces its index modulo `MAX_PCB` in the
test and in the step but not at the start: from slot 99 it looks at `pcb_table[100]` first, and goes
on with slot 1.

`scheduleProbes` is the loop once more, with the slots it looks at written down.

## Main definitions

* `cyclicOrder` — the other slots in the order `c + 1`, …, `99`, `0`, …, `c - 1`
* `scheduleProbes` — the loop of `schedule` with the slots it looks at

## Main results

* `scheduleLoop_eq` — the loop is a search of the slots that are left in the cyclic order
* `roundRobin_iff` — `schedule` is round-robin from every slot but 99
-/

namespace OsLab

/-- The slots from `lo` up to but without `hi`. -/
def slotsFrom (lo hi : ℤ) : List ℤ := (List.range (hi - lo).toNat).map fun k : ℕ => lo + k

/-- The other slots in the order `c + 1`, …, `99`, `0`, …, `c - 1`. -/
def cyclicOrder (c : ℤ) : List ℤ := slotsFrom (c + 1) MAX_PCB ++ slotsFrom 0 c

/-- The loop of `schedule` with the slots it looks at. -/
def scheduleProbes (t : ℤ → PCB) (home : ℤ) : ℕ → ℤ → Option (List ℤ × Option ℤ)
  | 0, _ => none
  | fuel + 1, i =>
    if i.tmod MAX_PCB ≠ home then
      if (t i).status = Ready then some ([i], some i)
      else (scheduleProbes t home fuel ((i + 1).tmod MAX_PCB)).map fun r => (i :: r.1, r.2)
    else some ([], none)

theorem scheduleProbes_found (t : ℤ → PCB) (home : ℤ) (fuel : ℕ) (i : ℤ) :
    (scheduleProbes t home fuel i).map Prod.snd = scheduleLoop t home fuel i := by
  induction fuel generalizing i with
  | zero => rfl
  | succ fuel ih =>
    rw [scheduleProbes, scheduleLoop]
    split
    · split
      · rfl
      · rw [Option.map_map, ← ih]
        rfl
    · rfl

/-- **Round-robin.** `schedule` ends, looks at slots of the table only, makes the first ready slot
in the cyclic order the running one and leaves the other PCBs as they are; when no other slot is
ready it makes slot 0 the current one and leaves every PCB as it is. The slot it starts from is the
one the current PCB has in `pcb_index`. -/
def RoundRobin (p : Procs) : Prop :=
  (∃ probes found, scheduleProbes p.pcb_table p.cur.pcb_index 102 (p.cur.pcb_index + 1) =
      some (probes, found) ∧ ∀ i ∈ probes, 0 ≤ i ∧ i < MAX_PCB) ∧
    schedule p = some
      (match (cyclicOrder p.cur.pcb_index).find? fun i => (p.pcb_table i).status = Ready with
      | some i => ({ p with current := i }).modify i fun q => { q with status := Running }
      | none => { p with current := 0 })

/-! ## The search -/

theorem slotsFrom_of_lt {lo hi : ℤ} (h : lo < hi) :
    slotsFrom lo hi = lo :: slotsFrom (lo + 1) hi := by
  obtain ⟨n, hn⟩ : ∃ n : ℕ, (hi - lo).toNat = n + 1 := ⟨(hi - lo).toNat - 1, by omega⟩
  have hrest : (hi - (lo + 1)).toNat = n := by omega
  rw [slotsFrom, slotsFrom, hn, hrest, List.range_succ_eq_map, List.map_cons, List.map_map,
    Nat.cast_zero, add_zero]
  refine congrArg _ (List.map_congr_left fun k _ => ?_)
  simp only [Function.comp_apply, Nat.cast_succ]
  omega

theorem slotsFrom_of_le {lo hi : ℤ} (h : hi ≤ lo) : slotsFrom lo hi = [] := by
  rw [slotsFrom, Int.toNat_of_nonpos (by omega), List.range_zero, List.map_nil]

theorem mem_slotsFrom {lo hi i : ℤ} : i ∈ slotsFrom lo hi ↔ lo ≤ i ∧ i < hi := by
  rw [slotsFrom, List.mem_map]
  constructor
  · rintro ⟨k, hk, rfl⟩
    rw [List.mem_range] at hk
    omega
  · rintro ⟨hlo, hhi⟩
    exact ⟨(i - lo).toNat, List.mem_range.mpr (by omega), by omega⟩

/-- The slots of the cyclic order that are left when the loop is at slot `i`. -/
def slotsLeft (home i : ℤ) : List ℤ :=
  if home < i then slotsFrom i MAX_PCB ++ slotsFrom 0 home else slotsFrom i home

theorem slotsLeft_next {home i : ℤ} (hhome : 0 ≤ home) (hlt : home < MAX_PCB) (hi : 0 ≤ i)
    (hi' : i < MAX_PCB) (hne : i ≠ home) :
    slotsLeft home i = i :: slotsLeft home ((i + 1).tmod MAX_PCB) := by
  have hmod : (i + 1).tmod MAX_PCB = if i = 99 then 0 else i + 1 := by
    split
    · subst i; rfl
    · exact Int.tmod_eq_of_lt (by omega) (by simp only [MAX_PCB] at hi' ⊢; omega)
  simp only [MAX_PCB] at hlt hi' hmod
  simp only [slotsLeft, hmod, MAX_PCB]
  by_cases hgt : home < i
  · rw [if_pos hgt, slotsFrom_of_lt hi', List.cons_append]
    by_cases hend : i = 99
    · rw [if_pos hend, if_neg (by omega), slotsFrom_of_le (by omega), List.nil_append]
    · rw [if_neg hend, if_pos (by omega)]
  · rw [if_neg hgt, if_neg (by omega), if_neg (by omega), slotsFrom_of_lt (by omega)]

/-- **The loop is a search.** From a slot of the table it looks through the slots that are left, and
stops at the first one that is ready. -/
theorem scheduleLoop_eq {t : ℤ → PCB} {home : ℤ} (hhome : 0 ≤ home) (hlt : home < MAX_PCB)
    {fuel : ℕ} {i : ℤ} (hi : 0 ≤ i) (hi' : i < MAX_PCB) (hfuel : (home - i) % MAX_PCB < fuel) :
    ∃ probes, scheduleProbes t home fuel i =
        some (probes, (slotsLeft home i).find? fun i => (t i).status = Ready) ∧
      ∀ j ∈ probes, j ∈ slotsLeft home i := by
  induction fuel generalizing i with
  | zero => simp only [MAX_PCB] at hfuel; omega
  | succ fuel ih =>
    have hmod : i.tmod MAX_PCB = i := Int.tmod_eq_of_lt hi hi'
    rw [scheduleProbes, hmod]
    rcases eq_or_ne i home with rfl | hne
    · rw [if_neg (by simp), slotsLeft, if_neg (lt_irrefl i), slotsFrom_of_le le_rfl]
      exact ⟨[], rfl, by simp⟩
    · rw [if_pos hne, slotsLeft_next hhome hlt hi hi' hne]
      by_cases hready : (t i).status = Ready
      · rw [if_pos hready, List.find?_cons_of_pos (by simpa using hready)]
        exact ⟨[i], rfl, by simp⟩
      · rw [if_neg hready, List.find?_cons_of_neg (by simpa using hready)]
        have hnext : (i + 1).tmod MAX_PCB = (i + 1) % 100 := Int.tmod_eq_emod_of_nonneg (by omega)
        simp only [MAX_PCB] at hlt hi' hfuel
        obtain ⟨probes, hprobes, hmem⟩ :=
          @ih ((i + 1).tmod MAX_PCB) (by omega) (by simp only [MAX_PCB] at hnext ⊢; omega)
            (by simp only [MAX_PCB] at hnext ⊢; omega)
        rw [hprobes]
        refine ⟨i :: probes, rfl, fun j hj => ?_⟩
        rcases List.mem_cons.mp hj with rfl | hj
        · exact List.mem_cons_self
        · exact List.mem_cons_of_mem _ (hmem j hj)

theorem mem_slotsLeft {home i j : ℤ} (hhome : 0 ≤ home) (hlt : home < MAX_PCB) (hi : 0 ≤ i)
    (h : j ∈ slotsLeft home i) : 0 ≤ j ∧ j < MAX_PCB := by
  rw [slotsLeft] at h
  split at h
  · rw [List.mem_append, mem_slotsFrom, mem_slotsFrom] at h
    omega
  · rw [mem_slotsFrom] at h
    omega

/-- From slot 99 the loop starts at slot 100. -/
theorem scheduleProbes_99 {t : ℤ → PCB} {fuel : ℕ} {probes : List ℤ} {found : Option ℤ}
    (h : scheduleProbes t 99 (fuel + 1) (99 + 1) = some (probes, found)) : 100 ∈ probes := by
  rw [scheduleProbes, if_pos (by decide)] at h
  split at h
  · obtain ⟨rfl, -⟩ := Prod.mk.inj (Option.some.inj h)
    exact List.mem_cons_self
  · obtain ⟨r, -, hr⟩ := Option.map_eq_some_iff.mp h
    obtain ⟨rfl, -⟩ := Prod.mk.inj hr
    exact List.mem_cons_self

/-- From slot 99 slot 0 is never looked at, and is the current one only if no other is ready. -/
theorem schedule_from_99 {p : Procs} (h99 : p.cur.pcb_index = 99)
    (hend : (p.pcb_table 100).status ≠ Ready) :
    schedule p = some
      (match (slotsFrom 1 99).find? fun i => (p.pcb_table i).status = Ready with
      | some i => ({ p with current := i }).modify i fun q => { q with status := Running }
      | none => { p with current := 0 }) := by
  have hfirst : scheduleLoop p.pcb_table 99 102 (99 + 1) = scheduleLoop p.pcb_table 99 101 1 := by
    have h100 : (99 + 1 : ℤ) = 100 := rfl
    rw [h100, scheduleLoop, if_pos (by decide), if_neg hend]
    rfl
  obtain ⟨probes, hprobes, -⟩ := @scheduleLoop_eq p.pcb_table 99 (by decide) (by decide) 101 1
    (by decide) (by decide) (by decide)
  have hleft : slotsLeft 99 1 = slotsFrom 1 99 := by rw [slotsLeft, if_neg (by decide)]
  rw [hleft] at hprobes
  rw [schedule, h99, hfirst, ← scheduleProbes_found, hprobes]
  exact rfl

/-- From every other slot the loop is a search in the cyclic order. -/
theorem scheduleLoop_cyclic {t : ℤ → PCB} {home : ℤ} (hhome : 0 ≤ home) (hlt : home < 99) :
    scheduleLoop t home 102 (home + 1) =
      some ((cyclicOrder home).find? fun i => (t i).status = Ready) := by
  obtain ⟨probes, hprobes, -⟩ := @scheduleLoop_eq t home hhome (by simp only [MAX_PCB]; omega) 102
    (home + 1) (by omega) (by simp only [MAX_PCB]; omega) (by simp only [MAX_PCB]; omega)
  rw [← scheduleProbes_found, hprobes, slotsLeft, if_pos (by omega), cyclicOrder]
  rfl

/-- **When `schedule` is round-robin.** From every slot of the table but the last one. -/
theorem roundRobin_iff (p : Procs) (hhome : 0 ≤ p.cur.pcb_index) (hlt : p.cur.pcb_index < MAX_PCB) :
    RoundRobin p ↔ p.cur.pcb_index ≠ 99 := by
  constructor
  · rintro ⟨⟨probes, found, hprobes, hmem⟩, -⟩ h99
    rw [h99] at hprobes
    exact absurd (hmem 100 (scheduleProbes_99 hprobes)).2 (by decide)
  · intro hne
    have hstart : p.cur.pcb_index + 1 < MAX_PCB := by simp only [MAX_PCB] at hlt ⊢; omega
    obtain ⟨probes, hprobes, hmem⟩ := @scheduleLoop_eq p.pcb_table p.cur.pcb_index hhome hlt 102
      (p.cur.pcb_index + 1) (by omega) hstart (by simp only [MAX_PCB]; omega)
    refine ⟨⟨probes, _, hprobes, fun i hi => ?_⟩, ?_⟩
    · exact mem_slotsLeft hhome hlt (by omega) (hmem i hi)
    · have hleft :
          slotsLeft p.cur.pcb_index (p.cur.pcb_index + 1) = cyclicOrder p.cur.pcb_index := by
        rw [slotsLeft, if_pos (by omega), cyclicOrder]
      rw [hleft] at hprobes
      rw [schedule, ← scheduleProbes_found, hprobes]
      exact rfl

/-- The process of slot 99 runs and the idle process is ready. -/
def lastSlotRuns : Procs where
  pcb_table := fun i =>
    if i = 0 then { freePcb with status := Ready }
    else if i = 99 then { freePcb with status := Running, pcb_index := 99 }
    else freePcb
  current := 99

/-- The idle process is ready, and is made the current one without being set running. -/
theorem schedule_skips_slot_zero :
    lastSlotRuns.cur.pcb_index = 99 ∧ (lastSlotRuns.pcb_table 0).status = Ready ∧
      schedule lastSlotRuns = some { lastSlotRuns with current := 0 } ∧
      ¬ RoundRobin lastSlotRuns := by
  have hfall : schedule lastSlotRuns = some { lastSlotRuns with current := 0 } := by
    rw [schedule_from_99 rfl (by decide)]
    have hnone : ((slotsFrom 1 99).find? fun i => (lastSlotRuns.pcb_table i).status = Ready) =
        none := by decide +kernel
    rw [hnone]
  refine ⟨rfl, rfl, hfall, fun hrobin => ?_⟩
  have hfirst : ((cyclicOrder lastSlotRuns.cur.pcb_index).find? fun i =>
      (lastSlotRuns.pcb_table i).status = Ready) = some 0 := by decide +kernel
  have hruns := hrobin.2
  rw [hfirst, hfall] at hruns
  have hstatus := congrArg (fun q : Procs => (q.pcb_table 0).status) (Option.some.inj hruns)
  simp only [Procs.pcb_table_modify_self] at hstatus
  exact absurd hstatus (by decide)

/-- The process of slot 1 runs, those of slots 3 and 40 are ready, and that of slot 2 is blocked. -/
def someReady : Procs where
  pcb_table := fun i =>
    if i = 0 then { freePcb with status := Ready }
    else if i = 1 then { freePcb with status := Running, pcb_index := 1 }
    else if i = 2 then { freePcb with status := Blocked, pcb_index := 2 }
    else if i = 3 ∨ i = 40 then { freePcb with status := Ready, pcb_index := i }
    else freePcb
  current := 1

/-- From slot 1 the process of slot 3 is next. -/
theorem roundRobin_slot_one :
    RoundRobin someReady ∧ (schedule someReady).map Procs.current = some 3 :=
  ⟨(roundRobin_iff someReady (by decide) (by decide)).mpr (by decide), by decide +kernel⟩

end OsLab

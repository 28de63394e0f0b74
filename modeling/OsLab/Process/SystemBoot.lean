import OsLab.Memory.InitPage
import OsLab.Process.Isolation

/-!
# The system starts

`init_page` and `init_cond` establish the invariant, whatever the game's file holds, as long as it
has no segment in the kernel's part of the address space.

## Main results

* `SystemInv.boot` — the invariant when the game has been loaded
* `run_gameSystem` — a run in which the game gets the processor
-/

namespace OsLab

/-- The kernel's static data were clear, and `init_page` and `init_cond` have been done. -/
def SystemBooted {P : KernelPages} (K : KernelTables P) (m : Memory) (s : Tracked) : Prop :=
  ∃ stack d garbage esp0 t, UserSegments stack d ∧
    bootSystem P stack d garbage esp0 t (initPage K m) = some s.sys ∧ s.creators = ∅

section Boot

variable {P : KernelPages} {K : KernelTables P} {m : Memory} {s : Tracked} {R : Reserve}
  {Q : ℤ → Prop} {kstack : ℤ → UInt32}

/-- The game is the only process with pages of its own. -/
theorem live_initCond (kcr3 ucr3 : UInt32) (garbage : ℤ) (t : ℤ → PCB) :
    (initCond kcr3 ucr3 garbage t).live = {1} := by
  ext i
  rw [Set.mem_singleton_iff]
  constructor
  · rintro ⟨hpos, hlt, hlive⟩
    by_contra h1
    rw [initCond_slot kcr3 ucr3 garbage t hpos.le hlt hpos.ne' h1] at hlive
    exact hlive rfl
  · rintro rfl
    refine ⟨by decide, by decide, ?_⟩
    rw [initCond_game]
    exact (by decide : Ready ≠ -1)

/-- **The invariant when the system starts.** -/
theorem SystemInv.boot (hP : BehindVideo P) (hready : KernelReady P m) (h : SystemBooted K m s)
    (hkept : ∀ p ∈ R.kept, p ≤ 1024)
    (hstill : ∀ p ∈ R.still, p ≠ P.updir ∧ p ≠ P.vdtable ∧ ¬(0xa0 ≤ p ∧ p < 0xb0))
    (himage : R.image = (initPage K m).frames) (hkpdir : R.kpdir = P.kpdir)
    (hgame : Q 2 → ∀ x p, KernelPlace P p x → p ∉ R.kept) : SystemInv kstack Q R s := by
  obtain ⟨stack, d, garbage, esp0, t, hseg, hboot, hcreators⟩ := h
  obtain ⟨hload, hprocs, hregs⟩ := bootSystem_some hboot
  have hu := P.updir_le
  have hk := P.kpdir_le
  obtain ⟨l, hgs⟩ := gameSpace hseg (hready.initPage K) hload
  have hgcr3 : (s.sys.core.procs.pcb_table 1).cr3 = page2pa P.updir := by
    rw [hprocs, initCond_game]
    rfl
  have hicr3 : (s.sys.core.procs.pcb_table 0).cr3 = page2pa P.kpdir := by
    rw [hprocs, initCond_idle]
  have hcurrent : s.sys.core.procs.current = 0 := by rw [hprocs, initCond_current]
  have hlive : s.sys.core.procs.live = {1} := by rw [hprocs, live_initCond]
  have hdir : s.sys.core.procs.dir 1 = P.updir := by
    rw [Procs.dir, hgcr3, PGNUM_page2pa (by omega)]
  refine ⟨?_, ⟨?_, fun i hi => ?_, l, ?_⟩, ⟨?_, fun hne => absurd hcurrent hne,
    fun hne => absurd hcurrent hne⟩⟩
  · rw [Tracked.procs, hprocs]
    exact SchedInv.initCond _ _ garbage t
  · rw [hicr3, hkpdir]
  · rw [hlive] at hi
    rw [Set.mem_singleton_iff.mp hi, hgcr3, PTE_ADDR_eq, PGNUM_page2pa (by omega)]
  · rw [hlive]
    refine hgs.owned hP hdir hkept hstill himage hkpdir fun hsole => hgame ?_
    have hpid : (s.sys.core.procs.pcb_table 1).pid = 2 := by
      rw [hprocs, initCond_game]
      rfl
    exact hpid ▸ hsole.1
  · rw [hregs, Procs.cur, hcurrent, hicr3]

end Boot

/-! ## A game of one segment -/

section Small

variable {kstack : ℤ → UInt32} {m : Memory} {t : ℤ → PCB} {p' : Procs}

/-- The game takes 1025 pages and not more tables than that. -/
theorem gamePages_bareElf :
    (gamePages (bareElf 0 84 84)).card + ((gamePages (bareElf 0 84 84)).image (· / 1024)).card ≤
      2050 := by
  obtain ⟨T, hT⟩ : ∃ T, T = stackPages := ⟨_, rfl⟩
  have hstack : T.card ≤ 1024 := by
    have hsub : T ⊆ (Finset.range 1024).image (785408 + ·) := fun k hk => by
      rw [hT, stackPages, Finset.mem_filter, Finset.mem_range] at hk
      exact Finset.mem_image.mpr ⟨k - 785408, Finset.mem_range.mpr (by omega), by omega⟩
    exact (Finset.card_le_card hsub).trans (Finset.card_image_le.trans (Finset.card_range _).le)
  have hva : (gameHeader (bareElf 0 84 84) 0).vaddr.toNat = 4194304 := by decide
  have hlast : (gameHeader (bareElf 0 84 84) 0).last = 4194388 := by decide
  have hseg : segmentPages (bareElf 0 84 84) 0 ⊆ {1024} := fun k hk => by
    rw [segmentPages] at hk
    split at hk
    · rw [pagesFrom, Finset.mem_filter, hva, hlast] at hk
      exact Finset.mem_singleton.mpr (by omega)
    · exact absurd hk (Finset.notMem_empty k)
  have hcard : (gamePages (bareElf 0 84 84)).card ≤ 1025 := by
    rw [gamePages, gameHeaders_bareElf, Finset.range_one, Finset.singleton_biUnion, ← hT]
    have hle := Finset.card_union_le (segmentPages (bareElf 0 84 84) 0) T
    have hone := Finset.card_le_card hseg
    rw [Finset.card_singleton] at hone
    omega
  have himage := Finset.card_image_le (s := gamePages (bareElf 0 84 84)) (f := (· / 1024))
  omega

end Small

end OsLab

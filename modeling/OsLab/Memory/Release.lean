import Mathlib.Data.Set.Insert
import OsLab.Memory.Copy

/-!
# `release`

What `exit` does to memory: every page that the directory of the process leads to goes back to the
free list, the directory last.

`release` looks neither at `pp_ref` nor at the list; it is right when no page is in two places of
the tree and none is free (`OwnTree`). `Released` describes memory when the pages at the places in
`S` have been freed. No contents change, so that the tables can be read after they are free.

## Main definitions

* `releaseTable` — one entry's turn in the outer loop of `release`
* `Released` — the pages at the places in `S` have been freed

## Main results

* `Released.freePage` — one page is freed
* `release_spec` — the list gains the pages of the tree, and nothing else changes
-/

namespace OsLab

/-! ## The code -/

/-- One entry's turn in the inner loop of `release`. -/
def releaseFrame (pte : UInt32) (j : ℕ) (m : Memory) : Memory :=
  if Present (m.index pte j) then freePage (pa2page (m.index pte j)) m else m

/-- One entry's turn in the outer loop of `release`. -/
def releaseTable (pgdir : UInt32) (i : ℕ) (m : Memory) : Memory :=
  if Present (m.index pgdir i) then
    let pte := PTE_ADDR (m.index pgdir i) + KOFFSET
    let m := countUp (releaseFrame pte) m NR_PTE
    freePage (pa2page (m.index pgdir i)) m
  else m

/-- `cr3.page_directory_base`, of the given `cr3.val`. -/
def pageDirectoryBase (cr3 : UInt32) : UInt32 := (cr3 >>> 12) &&& 0xFFFFF

/-- `release()` -/
def release (k : Core) : Core :=
  let pgdir := k.procs.cur.cr3 + 0xc0000000
  let m := countUp (releaseTable pgdir) k.mem 768
  let paddr := pageDirectoryBase k.procs.cur.cr3 <<< 12
  { k with mem := freePage (pa2page paddr) m }

@[simp] theorem frames_releaseTable (pgdir : UInt32) (i : ℕ) (m : Memory) :
    (releaseTable pgdir i m).frames = m.frames := by
  rw [releaseTable]
  split
  · dsimp only
    rw [frames_freePage]
    refine countUp_induction (P := fun _ (m' : Memory) => m'.frames = m.frames) rfl
      fun j _ m' hm' => ?_
    rw [releaseFrame]
    split
    · rw [frames_freePage, hm']
    · exact hm'
  · rfl

/-- Whatever it frees, no page changes what it holds. -/
@[simp] theorem frames_release (k : Core) : (release k).mem.frames = k.mem.frames := by
  rw [release]
  dsimp only
  rw [frames_freePage]
  refine countUp_induction (P := fun _ (m' : Memory) => m'.frames = k.mem.frames) rfl
    fun i _ m' hm' => ?_
  rw [frames_releaseTable, hm']

/-- The shifts and the bit field of `cr3` cancel out. -/
theorem pa2page_pageDirectoryBase (cr3 : UInt32) :
    pa2page (pageDirectoryBase cr3 <<< 12) = PGNUM cr3 := by
  have hlt := cr3.toNat_lt
  rw [pa2page, PGNUM_eq, PGNUM_eq, pageDirectoryBase, UInt32.toNat_shiftLeft, UInt32.toNat_and,
    UInt32.toNat_shiftRight, Nat.shiftLeft_eq, Nat.shiftRight_eq_div_pow]
  show (cr3.toNat / 2 ^ 12 &&& (2 ^ 20 - 1)) * 2 ^ 12 % 2 ^ 32 / 4096 = cr3.toNat / 4096
  rw [Nat.and_two_pow_sub_one_eq_mod]
  omega

/-! ## A shrinking tree -/

/-- The pages at the places in `S` have been freed. Memory was `m`, and the free list `l`. -/
structure Released (m : Memory) (l : List ℕ) (d : ℕ) (S : Set Pos) (r : Memory) (lr : List ℕ) :
    Prop where
  free : FreeList r lr
  frames : r.frames = m.frames
  mem : ∀ p, p ∈ lr ↔ p ∈ l ∨ ∃ x ∈ S, pageAt m d x = some p
  ref : ∀ x ∈ S, ∀ p, pageAt m d x = some p → (r.pages p).pp_ref = 0
  kept : ∀ p, (∀ x ∈ S, pageAt m d x ≠ some p) → r.pages p = m.pages p

section Released

variable {m r : Memory} {l lr : List ℕ} {d t p : ℕ} {S S' : Set Pos} {x : Pos}

theorem Released.entry (h : Released m l d S r lr) (p i : ℕ) : r.entry p i = m.entry p i :=
  Memory.entry_congr (by rw [h.frames]) i

theorem Released.congr (h : Released m l d S r lr)
    (hS : ∀ x p, pageAt m d x = some p → (x ∈ S' ↔ x ∈ S)) : Released m l d S' r lr := by
  refine ⟨h.free, h.frames, fun p => ?_, fun x hx p hp => ?_, fun p hp => ?_⟩
  · rw [h.mem p]
    refine or_congr_right (exists_congr fun x => ?_)
    exact and_congr_left fun hx => (hS x p hx).symm
  · exact h.ref x ((hS x p hp).mp hx) p hp
  · exact h.kept p fun x hx hp' => hp x ((hS x p hp').mpr hx) hp'

/-- **One page is freed.** -/
theorem Released.freePage (h : Released m l d S r lr) (ho : OwnTree m l d)
    (hp : pageAt m d x = some p) (hx : x ∉ S) :
    Released m l d (insert x S) (freePage p r) (p :: lr) := by
  have honly : ∀ y, pageAt m d y = some p → y = x := fun y hy => ho.inj y x p hy hp
  have hnot : p ∉ lr := by
    rw [h.mem p]
    rintro (hl | ⟨y, hy, hyp⟩)
    · exact ho.notMem x p hp hl
    · exact hx (honly y hyp ▸ hy)
  refine ⟨h.free.free hnot (ho.lt x p hp), h.frames, fun q => ?_, fun y hy q hq => ?_,
    fun q hq => ?_⟩
  · rw [List.mem_cons, h.mem q]
    constructor
    · rintro (rfl | hl | ⟨y, hy, hyq⟩)
      · exact .inr ⟨x, Set.mem_insert .., hp⟩
      · exact .inl hl
      · exact .inr ⟨y, Set.mem_insert_of_mem x hy, hyq⟩
    · rintro (hl | ⟨y, rfl | hy, hyq⟩)
      · exact .inr (.inl hl)
      · exact .inl (Option.some.inj (hyq.symm.trans hp))
      · exact .inr (.inr ⟨y, hy, hyq⟩)
  · rw [pp_ref_freePage]
    split
    · rfl
    · next hne =>
      rcases hy with rfl | hy
      · exact absurd (Option.some.inj (hq.symm.trans hp)) hne
      · exact h.ref y hy q hq
  · have hne : q ≠ p := by
      rintro rfl
      exact hq x (Set.mem_insert ..) hp
    rw [pages_freePage_of_ne hne]
    exact h.kept q fun y hy => hq y (Set.mem_insert_of_mem x hy)

end Released

/-! ## The loops -/

/-- The places that are free when the outer loop is at entry `i` and the inner loop at entry `j`. -/
def freed (i j : ℕ) : Set Pos
  | .dir => False
  | .table k => k < i
  | .frame k l => k < i ∨ k = i ∧ l < j

section Loops

variable {m r : Memory} {l lr : List ℕ} {d t p : ℕ} {i : Fin 768}

theorem frame_mem_freed {i j : ℕ} {k : Fin 768} {n : Fin 1024} :
    Pos.frame k n ∈ freed i j ↔ (k : ℕ) < i ∨ (k : ℕ) = i ∧ (n : ℕ) < j := Iff.rfl

theorem table_mem_freed {i j : ℕ} {k : Fin 768} : Pos.table k ∈ freed i j ↔ (k : ℕ) < i := Iff.rfl

theorem dir_notMem_freed (i j : ℕ) : Pos.dir ∉ freed i j := id

/-- One round of the inner loop. -/
theorem Released.releaseFrame {j : ℕ} (hj : j < NR_PTE) (h : Released m l d (freed i j) r lr)
    (ho : OwnTree m l d) (ht : pageAt m d (.table i) = some t) :
    ∃ lr', Released m l d (freed i (j + 1)) (releaseFrame (page2kva t) j r) lr' := by
  have ht20 : t < 2 ^ 20 := Nat.lt_trans (ho.lt _ t ht) (by decide)
  have hframe : pageAt m d (.frame i ⟨j, hj⟩) = m.target t j := pageAt_frame ht ⟨j, hj⟩
  rw [OsLab.releaseFrame, Memory.index_page ht20 hj, h.entry]
  cases hp : pageAt m d (.frame i ⟨j, hj⟩) with
  | none =>
    rw [if_neg (Memory.target_eq_none.mp (hframe.symm.trans hp))]
    refine ⟨lr, h.congr fun x q hq => ?_⟩
    cases x with
    | dir => exact iff_of_false (dir_notMem_freed _ _) (dir_notMem_freed _ _)
    | table k => exact Iff.rfl
    | frame k n =>
      rw [frame_mem_freed, frame_mem_freed]
      have hne : ¬((k : ℕ) = i ∧ (n : ℕ) = j) := by
        rintro ⟨hk, hn⟩
        obtain rfl : k = i := Fin.ext hk
        obtain rfl : n = ⟨j, hj⟩ := Fin.ext hn
        exact absurd (hq.symm.trans hp) (Option.some_ne_none q)
      omega
  | some p =>
    obtain ⟨hpresent, hnum⟩ := Memory.target_eq_some.mp (hframe.symm.trans hp)
    have hnot : Pos.frame i ⟨j, hj⟩ ∉ freed i j := by
      rw [frame_mem_freed]
      dsimp only
      omega
    rw [if_pos hpresent, pa2page, hnum]
    refine ⟨p :: lr, (h.freePage ho hp hnot).congr fun x q hq => ?_⟩
    rw [Set.mem_insert_iff]
    cases x with
    | dir =>
      exact iff_of_false (dir_notMem_freed _ _) (not_or.mpr ⟨(Pos.frame_ne_dir i ⟨j, hj⟩).symm,
        dir_notMem_freed _ _⟩)
    | table k =>
      rw [table_mem_freed, table_mem_freed]
      exact (or_iff_right (Pos.frame_ne_table i k ⟨j, hj⟩).symm).symm
    | frame k n =>
      rw [frame_mem_freed, frame_mem_freed, Pos.frame.injEq, Fin.ext_iff, Fin.ext_iff]
      dsimp only
      omega

/-- One round of the outer loop. -/
theorem Released.releaseTable {i : ℕ} (hi : i < 768) (h : Released m l d (freed i 0) r lr)
    (ho : OwnTree m l d) :
    ∃ lr', Released m l d (freed (i + 1) 0) (releaseTable (page2kva d) i r) lr' := by
  have hd20 : d < 2 ^ 20 := Nat.lt_trans (ho.lt .dir d rfl) (by decide)
  have htable : pageAt m d (.table ⟨i, hi⟩) = m.target d i := rfl
  rw [OsLab.releaseTable, Memory.index_page hd20 (by omega), h.entry]
  cases ht : pageAt m d (.table ⟨i, hi⟩) with
  | none =>
    rw [if_neg (Memory.target_eq_none.mp (htable.symm.trans ht))]
    refine ⟨lr, h.congr fun x q hq => ?_⟩
    cases x with
    | dir => exact iff_of_false (dir_notMem_freed _ _) (dir_notMem_freed _ _)
    | table k =>
      rw [table_mem_freed, table_mem_freed]
      have hne : (k : ℕ) ≠ i := fun hk => by
        obtain rfl : k = ⟨i, hi⟩ := Fin.ext hk
        exact absurd (hq.symm.trans ht) (Option.some_ne_none q)
      omega
    | frame k n =>
      rw [frame_mem_freed, frame_mem_freed]
      have hne : (k : ℕ) ≠ i := fun hk => by
        obtain rfl : k = ⟨i, hi⟩ := Fin.ext hk
        rw [pageAt_frame_none ht] at hq
        exact absurd hq.symm (Option.some_ne_none q)
      omega
  | some t =>
    obtain ⟨hpresent, hnum⟩ := Memory.target_eq_some.mp (htable.symm.trans ht)
    have hround : ∀ j < NR_PTE, ∀ r, (∃ lr, Released m l d (freed i j) r lr) →
        ∃ lr, Released m l d (freed i (j + 1)) (OsLab.releaseFrame (page2kva t) j r) lr := by
      rintro j hj r ⟨lr, hr⟩
      exact hr.releaseFrame (i := ⟨i, hi⟩) hj ho ht
    obtain ⟨lr', hr'⟩ := countUp_induction ⟨lr, h⟩ hround
    have hnot : Pos.table ⟨i, hi⟩ ∉ freed i NR_PTE := by
      rw [table_mem_freed]
      exact Nat.lt_irrefl i
    have hkva : PTE_ADDR (m.entry d i) + KOFFSET = page2kva t := by
      rw [PTE_ADDR_eq, hnum]
      rfl
    rw [if_pos hpresent]
    dsimp only
    rw [hkva, Memory.index_page hd20 (by omega), hr'.entry, pa2page, hnum]
    refine ⟨t :: lr', (hr'.freePage ho ht hnot).congr fun x q hq => ?_⟩
    rw [Set.mem_insert_iff]
    cases x with
    | dir => exact iff_of_false (dir_notMem_freed _ _) (not_or.mpr ⟨(Pos.table_ne_dir ⟨i, hi⟩).symm,
        dir_notMem_freed _ _⟩)
    | table k =>
      rw [table_mem_freed, table_mem_freed, Pos.table.injEq, Fin.ext_iff]
      dsimp only
      omega
    | frame k n =>
      have hn := n.isLt
      rw [frame_mem_freed, frame_mem_freed, or_iff_right (Pos.frame_ne_table k ⟨i, hi⟩ n)]
      simp only [NR_PTE]
      omega

end Loops

/-- **`release`** puts every page of the tree on the free list, and changes nothing else. -/
theorem release_spec {k : Core} {l : List ℕ} (hl : FreeList k.mem l)
    (ha : PTE_ADDR k.procs.cur.cr3 = k.procs.cur.cr3)
    (ho : OwnTree k.mem l (PGNUM k.procs.cur.cr3)) :
    ∃ l', Released k.mem l (PGNUM k.procs.cur.cr3) Set.univ (release k).mem l' := by
  have hstart : Released k.mem l (PGNUM k.procs.cur.cr3) (freed 0 0) k.mem l := by
    have hnone : ∀ x, x ∉ freed 0 0 := by
      intro x hx
      cases x with
      | dir => exact hx
      | table i => exact Nat.not_lt_zero _ hx
      | frame i j =>
        rw [frame_mem_freed] at hx
        omega
    refine ⟨hl, rfl, fun p => ?_, fun x hx => absurd hx (hnone x), fun p _ => rfl⟩
    refine (or_iff_left ?_).symm
    rintro ⟨x, hx, -⟩
    exact hnone x hx
  have hround : ∀ i < 768, ∀ r,
      (∃ lr, Released k.mem l (PGNUM k.procs.cur.cr3) (freed i 0) r lr) →
      ∃ lr, Released k.mem l (PGNUM k.procs.cur.cr3) (freed (i + 1) 0)
        (releaseTable (page2kva (PGNUM k.procs.cur.cr3)) i r) lr := by
    rintro i hi r ⟨lr, hr⟩
    exact hr.releaseTable hi ho
  obtain ⟨lr, hr⟩ := countUp_induction ⟨l, hstart⟩ hround
  have hkva : k.procs.cur.cr3 + KOFFSET = page2kva (PGNUM k.procs.cur.cr3) := by
    rw [page2kva, ← PTE_ADDR_eq, ha]
  refine ⟨PGNUM k.procs.cur.cr3 :: lr, ?_⟩
  rw [release]
  dsimp only
  rw [pa2page_pageDirectoryBase, show (0xc0000000 : UInt32) = KOFFSET from rfl, hkva]
  refine (hr.freePage ho (pageAt_dir ..) (dir_notMem_freed _ _)).congr fun x q hq => ?_
  refine iff_of_true trivial ?_
  cases x with
  | dir => exact Set.mem_insert ..
  | table i => exact .inr i.isLt
  | frame i j => exact .inr (.inl i.isLt)

end OsLab

import OsLab.Memory.Fork
import OsLab.Memory.Release

/-!
# `fork`, then `exit`

A child that is made and exits gives back every page that was taken for it, and no other, whatever
it and its father have written in between.

`copy` and `release` go through the tree on their own. They meet in `Grown`: the pages of the
child's tree are those that are no longer on the list, each at one place.

## Main results

* `fork_exit` — the free list is what it was before
-/

namespace OsLab

/-- Memory after two processes, with directories `d` and `e`, have written to their frames. -/
structure FramesWritten (m m' : Memory) (d e : ℕ) : Prop where
  pages : m'.pages = m.pages
  page_free_list : m'.page_free_list = m.page_free_list
  frames : ∀ p, (∀ i j, pageAt m d (.frame i j) ≠ some p) →
    (∀ i j, pageAt m e (.frame i j) ≠ some p) →
    m'.frames p = m.frames p

section Written

variable {m m' m₀ : Memory} {d e f : ℕ} {a b : UInt32} {l₀ l : List ℕ}

/-- The child's tree is still the one that `copy` made. -/
theorem Grown.pageAt_written {S : Finset Pos} (h : Grown m₀ l₀ f d S m l) (ha : Apart m₀ f l₀)
    (hw : FramesWritten m m' f d) : pageAt m' d = pageAt m d := by
  have hapart := h.pagesApart ha
  refine pageAt_congr (hw.frames d ?_ ?_) fun i t ht => hw.frames t ?_ ?_
  · exact fun i j hp => hapart _ .dir d hp rfl
  · exact fun i j hp => (h.plain i j d hp).1 rfl
  · exact fun k j hp => hapart _ (.table i) t hp ht
  · exact fun k j hp => (h.plain k j t hp).2 i ht

/-- It can be given back. -/
theorem Grown.ownTree {S : Finset Pos} (h : Grown m₀ l₀ f d S m l) (ha : Apart m₀ f l₀)
    (hw : FramesWritten m m' f d) : OwnTree m' l d := by
  have htree := h.pageAt_written ha hw
  refine ⟨fun x p hp => ?_, fun x p hp => ?_, fun x y p hx hy => ?_⟩
  · rw [htree] at hp
    exact h.lt p (h.mem_of_pageAt hp)
  · rw [htree] at hp
    exact h.taken x p hp
  · rw [htree] at hx hy
    exact h.inj x y p hx hy

end Written

/-- **`fork` followed by `exit`** leaks and invents no page. The free pages are without references
before, as `page_init` and `release` leave them. -/
theorem fork_exit {k : Core} {l : List ℕ} {pcb_index : ℤ} (hi : pcb_index ≠ k.procs.current)
    (hs : Space k.mem k.procs.cur.cr3) (hl : FreeList k.mem l)
    (href : ∀ p ∈ l, (k.mem.pages p).pp_ref = 0)
    (hapart : ∀ x p, pageAt k.mem (PGNUM k.procs.cur.cr3) x = some p → p ∉ l)
    (hneed : (positions k.mem (PGNUM k.procs.cur.cr3)).card ≤ l.length) :
    ∃ k', copy pcb_index k = some k' ∧
      ∀ k'' : Core, FramesWritten k'.mem k''.mem (PGNUM k.procs.cur.cr3)
          (PGNUM (k'.procs.pcb_table pcb_index).cr3) →
        k''.procs.cur.cr3 = (k'.procs.pcb_table pcb_index).cr3 →
        (∃ l', FreeList (release k'').mem l' ∧ l'.Perm l ∧
          ∀ p ∈ l', ((release k'').mem.pages p).pp_ref = 0) ∧
        ∀ x p, pageAt k.mem (PGNUM k.procs.cur.cr3) x = some p →
          (release k'').mem.pages p = k.mem.pages p ∧
          (release k'').mem.frames p = k''.mem.frames p ∧
          ((∀ i j, pageAt k.mem (PGNUM k.procs.cur.cr3) (.frame i j) ≠ some p) →
            (release k'').mem.frames p = k.mem.frames p) := by
  obtain ⟨d, m, l₁, hcopy, hd, h⟩ := copy_grown hi hs hl hapart hneed
  have ha : Apart k.mem (PGNUM k.procs.cur.cr3) l := fun x p hx => ⟨hapart x p hx, hs.lt x p hx⟩
  have hd20 : d < 2 ^ 20 := Nat.lt_trans hd (by decide)
  refine ⟨_, hcopy, fun k'' hw hcur => ?_⟩
  rw [Procs.pcb_table_modify_self] at hw hcur
  dsimp only at hw hcur
  rw [PGNUM_page2pa hd20] at hw
  have htree := h.pageAt_written ha hw
  have hfree : FreeList k''.mem l₁ :=
    h.free.congr hw.page_free_list fun q _ => by rw [hw.pages]
  have haligned : PTE_ADDR k''.procs.cur.cr3 = k''.procs.cur.cr3 := by
    rw [hcur, PTE_ADDR_eq, PGNUM_page2pa hd20]
  have hown : OwnTree k''.mem l₁ (PGNUM k''.procs.cur.cr3) := by
    rw [hcur, PGNUM_page2pa hd20]
    exact h.ownTree ha hw
  obtain ⟨l', hr⟩ := release_spec hfree haligned hown
  rw [hcur, PGNUM_page2pa hd20] at hr
  have hmem : ∀ p, p ∈ l' ↔ p ∈ l := fun p => by
    rw [hr.mem, h.mem, htree]
    simp
  refine ⟨⟨l', hr.free, ?_, fun p hp => ?_⟩, fun x p hx => ?_⟩
  · exact (List.perm_ext_iff_of_nodup hr.free.nodup hl.nodup).mpr hmem
  · by_cases hin : ∃ x, pageAt k''.mem d x = some p
    · obtain ⟨x, hx⟩ := hin
      exact hr.ref x trivial p hx
    · -- a page that was never taken
      have hout : ∀ x ∈ Set.univ, pageAt k''.mem d x ≠ some p := fun x _ hx => hin ⟨x, hx⟩
      have hp₁ : p ∈ l₁ := by
        rcases (hr.mem p).mp hp with hp₁ | ⟨x, hx, hx'⟩
        · exact hp₁
        · exact absurd hx' (hout x hx)
      rw [hr.kept p hout, hw.pages, h.unused p hp₁]
      exact href p ((hmem p).mp hp)
  · have hpl : p ∉ l := hapart x p hx
    have hout : ∀ y ∈ Set.univ, pageAt k''.mem d y ≠ some p := fun y _ hy => by
      rw [htree] at hy
      exact hpl (h.mem_of_pageAt hy)
    refine ⟨?_, by rw [hr.frames], fun hf => ?_⟩
    · rw [hr.kept p hout, hw.pages, (h.kept p hpl).2]
    · rw [hr.frames, hw.frames p ?_ ?_, (h.kept p hpl).1]
      · intro i j
        rw [h.pageAt_father ha]
        exact hf i j
      · intro i j hp
        exact hpl (h.mem_of_pageAt hp)

/-- The child runs and exits at once. -/
theorem fork_exit_small :
    ∃ k', copy 1 smallCore = some k' ∧
      ∃ l', FreeList (release ⟨{ k'.procs with current := 1 }, k'.mem⟩).mem l' ∧
        l'.Perm [1025, 1026, 1027] := by
  obtain ⟨k', hcopy, hexit⟩ := fork_exit (k := smallCore) one_ne_zero space_smallMemory
    freeList_smallMemory (fun _ _ => rfl) apart_smallMemory card_smallCore
  obtain ⟨⟨l', hl', hperm, -⟩, -⟩ :=
    hexit ⟨{ k'.procs with current := 1 }, k'.mem⟩ ⟨rfl, rfl, fun _ _ _ => rfl⟩ rfl
  exact ⟨k', hcopy, l', hl', hperm⟩

end OsLab

import OsLab.Memory.AddressSpace

/-!
# A page for a place

The two steps in which an address space grows, in `copy` as in `pgdir_walk`: the first page of the
free list, full of zeros, becomes a table of the directory or a frame of one of its tables.
`Attached` is all that happens to memory in such a step.

## Main definitions

* `Attached` — page `p` has been put at place `x` of the tree with directory `d`, by writing entry
  `n` of the table in page `t`
* `OwnTree` — the tree with directory `d` has no page twice, and none that is on the list `l`

## Main results

* `FreeList.newTable` — an entry of the directory is made
* `FreeList.newFrame` — an entry of a table is made
-/

namespace OsLab

/-- **Page `p` has been put at place `x`** of the tree with directory `d`, by writing entry `n` of
the table in page `t`. The free list is `l` afterwards. -/
structure Attached (m m' : Memory) (l : List ℕ) (d : ℕ) (x : Pos) (t n p : ℕ) : Prop where
  free : FreeList m' l
  place : pageAt m' d = Function.update (pageAt m d) x (some p)
  zero : m'.frames p = zeroFrame
  frames : ∀ q, q ≠ p → q ≠ t → m'.frames q = m.frames q
  pages : ∀ q, q ≠ p → m'.pages q = m.pages q
  entry : m'.entry t n = page2pa p ||| 0x7
  entry_of_ne : ∀ k, k ≠ n → m'.entry t k = m.entry t k

section Attach

variable {m : Memory} {l : List ℕ} {d t p : ℕ} {i : Fin 768} {j : Fin 1024}

/-- **A new table.** -/
theorem FreeList.newTable (hl : FreeList m (p :: l)) (hd : d < 2 ^ 20) (hdp : d ≠ p)
    (hempty : pageAt m d (.table i) = none)
    (htree : ∀ j t, pageAt m d (.table j) = some t → t ≠ p ∧ t ≠ d) :
    ∃ m₁, newPage m = some (p, m₁) ∧
      Attached m (m₁.setIndex (page2kva d) i (page2pa p ||| 0x7)) l d (.table i) d i p := by
  obtain ⟨m₁, hnew, hfree, hframes, hpages⟩ := hl.alloc
  have hp : p < 2 ^ 20 := Nat.lt_trans (hl.lt p (List.mem_cons_self ..)) (by decide)
  have hd₁ : m₁.frames d = m.frames d := by rw [hframes, Function.update_of_ne hdp]
  have hkept : ∀ q, q ≠ p → q ≠ d →
      (m₁.setEntry d i (page2pa p ||| 0x7)).frames q = m.frames q := fun q hqp hqd => by
    rw [Memory.frames_setEntry, Function.update_of_ne hqd, hframes, Function.update_of_ne hqp]
  have hzero : (m₁.setEntry d i (page2pa p ||| 0x7)).frames p = zeroFrame := by
    rw [Memory.frames_setEntry, Function.update_of_ne (Ne.symm hdp), hframes, Function.update_self]
  refine ⟨m₁, hnew, ?_⟩
  rw [Memory.setIndex_eq hd (by omega)]
  refine ⟨hfree.congr rfl fun q _ => rfl, pageAt_newTable hempty hp htree rfl hzero ?_ hkept, hzero,
    hkept, hpages, Memory.entry_setEntry_self (by omega), fun k hk => ?_⟩
  · rw [Memory.frames_setEntry, Function.update_self, hd₁]
  · rw [Memory.entry_setEntry_of_ne (.inr hk), Memory.entry_congr hd₁]

/-- **A new frame.** -/
theorem FreeList.newFrame (hl : FreeList m (p :: l)) (ht : pageAt m d (.table i) = some t)
    (ht20 : t < 2 ^ 20) (htp : t ≠ p) (htd : t ≠ d) (hdp : d ≠ p)
    (htree : ∀ k s, pageAt m d (.table k) = some s → s ≠ p ∧ (k ≠ i → s ≠ t)) :
    ∃ m₁, newPage m = some (p, m₁) ∧
      Attached m (m₁.setIndex (page2kva t) j (page2pa p ||| 0x7)) l d (.frame i j) t j p := by
  obtain ⟨m₁, hnew, hfree, hframes, hpages⟩ := hl.alloc
  have hp : p < 2 ^ 20 := Nat.lt_trans (hl.lt p (List.mem_cons_self ..)) (by decide)
  have ht₁ : m₁.frames t = m.frames t := by rw [hframes, Function.update_of_ne htp]
  have hkept : ∀ q, q ≠ p → q ≠ t →
      (m₁.setEntry t j (page2pa p ||| 0x7)).frames q = m.frames q := fun q hqp hqt => by
    rw [Memory.frames_setEntry, Function.update_of_ne hqt, hframes, Function.update_of_ne hqp]
  refine ⟨m₁, hnew, ?_⟩
  rw [Memory.setIndex_eq ht20 (by omega)]
  refine ⟨hfree.congr rfl fun q _ => rfl,
    pageAt_newFrame ht hp htd (Ne.symm hdp) (Ne.symm htp) htree rfl ?_ hkept, ?_, hkept, hpages,
    Memory.entry_setEntry_self (by omega), fun k hk => ?_⟩
  · rw [Memory.frames_setEntry, Function.update_self, ht₁]
  · rw [Memory.frames_setEntry, Function.update_of_ne (Ne.symm htp), hframes, Function.update_self]
  · rw [Memory.entry_setEntry_of_ne (.inr hk), Memory.entry_congr ht₁]

end Attach

/-! ## Trees of their own -/

/-- The tree with directory `d` has no page twice, and none that is on the list `l`. -/
structure OwnTree (m : Memory) (l : List ℕ) (d : ℕ) : Prop where
  lt : ∀ x p, pageAt m d x = some p → p < npages
  notMem : ∀ x p, pageAt m d x = some p → p ∉ l
  inj : ∀ x y p, pageAt m d x = some p → pageAt m d y = some p → x = y

section OwnTree

variable {m m' : Memory} {l : List ℕ} {d p q : ℕ} {x y : Pos}

/-- Different places have different pages. -/
theorem OwnTree.ne_of_ne (h : OwnTree m l d) (hx : pageAt m d x = some p)
    (hy : pageAt m d y = some q) (hne : x ≠ y) : p ≠ q := by
  rintro rfl
  exact hne (h.inj x y p hx hy)

/-- A page of the tree is not the next page of the list. -/
theorem OwnTree.ne_head (h : OwnTree m (p :: l) d) (hx : pageAt m d x = some q) : q ≠ p := by
  rintro rfl
  exact h.notMem x q hx (List.mem_cons_self ..)

/-- The first page of the list is put in a place. -/
theorem OwnTree.attach (h : OwnTree m (p :: l) d) (hl : (p :: l).Nodup) (hp : p < npages)
    (hplace : pageAt m' d = Function.update (pageAt m d) x (some p)) : OwnTree m' l d := by
  have hself : pageAt m' d x = some p := by rw [hplace, Function.update_self]
  have hother : ∀ y, y ≠ x → pageAt m' d y = pageAt m d y := fun y hy => by
    rw [hplace, Function.update_of_ne hy]
  refine ⟨fun y q hy => ?_, fun y q hy => ?_, fun y z q hy hz => ?_⟩
  · rcases eq_or_ne y x with rfl | hne
    · rw [hself] at hy
      rwa [← Option.some.inj hy]
    · rw [hother y hne] at hy
      exact h.lt y q hy
  · rcases eq_or_ne y x with rfl | hne
    · rw [hself] at hy
      rw [← Option.some.inj hy]
      exact (List.nodup_cons.mp hl).1
    · rw [hother y hne] at hy
      exact fun hq => h.notMem y q hy (List.mem_cons_of_mem p hq)
  · by_cases hyx : y = x <;> by_cases hzx : z = x
    · rw [hyx, hzx]
    · rw [hyx, hself] at hy
      rw [hother z hzx, ← Option.some.inj hy] at hz
      exact absurd rfl (h.ne_head hz)
    · rw [hzx, hself] at hz
      rw [hother y hyx, ← Option.some.inj hz] at hy
      exact absurd rfl (h.ne_head hy)
    · rw [hother y hyx] at hy
      rw [hother z hzx] at hz
      exact h.inj y z q hy hz

end OwnTree

end OsLab

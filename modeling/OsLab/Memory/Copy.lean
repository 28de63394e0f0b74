import OsLab.Memory.Attach
import OsLab.Process.Pcb

/-!
# `copy`

What `fork` does to memory: a new directory, a new table for every table of the father and a new
frame, with the same contents, for each of his frames.

While this goes on the child's tree grows by one page of the free list at a time. `Grown` describes
it at every moment, with the set `S` of the places that are done: each of them has a page of its
own, taken from the free list, the other pages of the free list are still on it, and no other page
of memory has changed. The two loops follow `S` through the places of the father's tree (`done`).

## Main definitions

* `Core` — the process table and memory
* `copyFrame` — one entry's turn in the inner loop of `copy`
* `copyTable` — one entry's turn in the outer loop of `copy`
* `copy` — `copy(pcb_index)`, `none` when `page_alloc` returns `NULL`
* `Grown` — the tree with directory `d` has a page at each place in `S`
* `Apart` — the father's pages are not on the list

## Main results

* `Grown.newTable`, `Grown.newFrame` — the tree grows by one page
* `copy_cases` — `copy` copies the whole tree, or fails when there are too few pages
-/

namespace OsLab

/-! ## The code -/

/-- The process table and memory. -/
structure Core where
  procs : Procs
  mem : Memory

/-- `cr3.val`, after `cr3.val = 0` and the given `cr3.page_directory_base`. -/
def cr3Val (page_directory_base : UInt32) : UInt32 := (page_directory_base &&& 0xFFFFF) <<< 12

/-- One entry's turn in the inner loop of `copy`. -/
def copyFrame (child_t father_t : UInt32) (j : ℕ) (m : Memory) : Option Memory :=
  if Present (m.index father_t j) then
    (newPage m).map fun r =>
      let m := r.2.setIndex child_t j (page2pa r.1 ||| 0x7)
      m.memcpy (PTE_ADDR (m.index child_t j) + KOFFSET) (PTE_ADDR (m.index father_t j) + KOFFSET)
        PGSIZE
  else some m

/-- One entry's turn in the outer loop of `copy`. -/
def copyTable (child father : UInt32) (i : ℕ) (m : Memory) : Option Memory :=
  if Present (m.index father i) then
    (newPage m).bind fun r =>
      let m := r.2.setIndex child i (page2pa r.1 ||| 0x7)
      let child_t := PTE_ADDR (m.index child i) + KOFFSET
      let father_t := PTE_ADDR (m.index father i) + KOFFSET
      countUpM (copyFrame child_t father_t) m NR_PTE
  else some m

/-- `copy(pcb_index)`, `none` when `page_alloc` returns `NULL`. -/
def copy (pcb_index : ℤ) (k : Core) : Option Core :=
  (newPage k.mem).bind fun r =>
    let procs := k.procs.modify pcb_index fun q => { q with cr3 := cr3Val (page2pa r.1 >>> 12) }
    let child := page2kva r.1
    let father := procs.cur.cr3 + 0xc0000000
    let m := r.2.memcpy (child + 4 * 768) (father + 4 * 768) (4 * 32)
    (countUpM (copyTable child father) m 768).map fun m => ⟨procs, m⟩

/-- The bit field of `cr3` and the shifts around it cancel out. -/
theorem cr3Val_page2pa {p : ℕ} (h : p < 2 ^ 20) : cr3Val (page2pa p >>> 12) = page2pa p := by
  apply UInt32.toNat_inj.mp
  rw [cr3Val, UInt32.toNat_shiftLeft, UInt32.toNat_and, UInt32.toNat_shiftRight, toNat_page2pa h,
    Nat.shiftLeft_eq, Nat.shiftRight_eq_div_pow]
  show ((4096 * p) / 2 ^ 12 &&& (2 ^ 20 - 1)) * 2 ^ 12 % 2 ^ 32 = 4096 * p
  rw [Nat.and_two_pow_sub_one_eq_mod]
  omega

/-! ## A growing tree -/

/-- The tree with directory `d` has a page at each place in `S`. The pages come from the list `l₀`,
of which `l` is left, and hold what the father's tree, with directory `f`, held in `m₀`. -/
structure Grown (m₀ : Memory) (l₀ : List ℕ) (f d : ℕ) (S : Finset Pos) (m : Memory)
    (l : List ℕ) : Prop where
  free : FreeList m l
  lt : ∀ p ∈ l₀, p < npages
  suffix : l <:+ l₀
  count : l.length + S.card = l₀.length
  dom : ∀ x, x ∈ S ↔ (pageAt m d x).isSome
  /-- Every page of the list is still on it or somewhere in the tree. -/
  mem : ∀ p, p ∈ l₀ ↔ p ∈ l ∨ ∃ x, pageAt m d x = some p
  taken : ∀ x p, pageAt m d x = some p → p ∉ l
  /-- No page is in two places. -/
  inj : ∀ x y p, pageAt m d x = some p → pageAt m d y = some p → x = y
  frame : ∀ i j p q, pageAt m d (.frame i j) = some p → pageAt m₀ f (.frame i j) = some q →
    m.frames p = m₀.frames q
  kept : ∀ p, p ∉ l₀ → m.frames p = m₀.frames p ∧ m.pages p = m₀.pages p
  unused : ∀ p ∈ l, (m.pages p).pp_ref = (m₀.pages p).pp_ref
  kernel : ∀ i, 768 ≤ i → i < 800 → m.entry d i = m₀.entry f i

section Grown

variable {m₀ m m' : Memory} {l₀ l : List ℕ} {f d p q t tf : ℕ} {S : Finset Pos} {x x₀ : Pos}
  {i : Fin 768} {j : Fin 1024}

/-- A page of the tree comes from the list. -/
theorem Grown.mem_of_pageAt (h : Grown m₀ l₀ f d S m l) (hx : pageAt m d x = some p) : p ∈ l₀ :=
  (h.mem p).mpr (.inr ⟨x, hx⟩)

/-- A page of the tree is not the next page of the list. -/
theorem Grown.ne_head (h : Grown m₀ l₀ f d S m (p :: l)) (hx : pageAt m d x = some q) : q ≠ p := by
  rintro rfl
  exact h.taken x q hx (List.mem_cons_self ..)

/-- Different places have different pages. -/
theorem Grown.ne_of_ne {y : Pos} (h : Grown m₀ l₀ f d S m l) (hx : pageAt m d x = some p)
    (hy : pageAt m d y = some q) (hne : x ≠ y) : p ≠ q := by
  rintro rfl
  exact hne (h.inj x y p hx hy)

theorem Grown.lt_of_mem (h : Grown m₀ l₀ f d S m l) (hp : p ∈ l₀) : p < 2 ^ 20 :=
  Nat.lt_trans (h.lt p hp) (by decide)

theorem Grown.head_mem (h : Grown m₀ l₀ f d S m (p :: l)) : p ∈ l₀ :=
  h.suffix.subset (List.mem_cons_self ..)

theorem Grown.empty (h : Grown m₀ l₀ f d S m l) (hx : x ∉ S) : pageAt m d x = none :=
  Option.not_isSome_iff_eq_none.mp fun hs => hx ((h.dom x).mpr hs)

/-- The first page of the list is put in a place that was empty. -/
theorem Grown.attach (h : Grown m₀ l₀ f d S m (p :: l)) (hx₀ : x₀ ∉ S) (hfree : FreeList m' l)
    (hpage : pageAt m' d = Function.update (pageAt m d) x₀ (some p))
    (hframes : ∀ i j q, pageAt m d (.frame i j) = some q → m'.frames q = m.frames q)
    (hnew : ∀ i j q, x₀ = .frame i j → pageAt m₀ f (.frame i j) = some q →
      m'.frames p = m₀.frames q)
    (hkept : ∀ q, q ∉ l₀ → m'.frames q = m.frames q)
    (hpages : ∀ q, q ≠ p → m'.pages q = m.pages q)
    (hkernel : ∀ i, 768 ≤ i → i < 800 → m'.entry d i = m.entry d i) :
    Grown m₀ l₀ f d (insert x₀ S) m' l := by
  have hp : p ∈ l₀ := h.head_mem
  have hpl : p ∉ l := (List.nodup_cons.mp h.free.nodup).1
  have hself : pageAt m' d x₀ = some p := by rw [hpage, Function.update_self]
  have hother : ∀ x, x ≠ x₀ → pageAt m' d x = pageAt m d x := fun x hx => by
    rw [hpage, Function.update_of_ne hx]
  have hempty : pageAt m d x₀ = none := h.empty hx₀
  -- the new page is nowhere in the tree
  have hfresh : ∀ x, pageAt m d x ≠ some p := fun x hx => h.ne_head hx rfl
  refine ⟨hfree, h.lt, (List.suffix_cons p l).trans h.suffix, ?_, fun x => ?_, fun q => ?_,
    fun x q hx => ?_, fun x y q hx hy => ?_, fun i j q r hq hr => ?_, fun q hq => ?_,
    fun q hq => ?_, fun i hi hlt => ?_⟩
  · have hcount := h.count
    rw [List.length_cons] at hcount
    rw [Finset.card_insert_of_notMem hx₀]
    omega
  · rw [Finset.mem_insert]
    rcases eq_or_ne x x₀ with rfl | hx
    · simp [hself]
    · rw [hother x hx, ← h.dom x]
      exact or_iff_right hx
  · rw [h.mem q, List.mem_cons]
    constructor
    · rintro ((rfl | hql) | ⟨x, hx⟩)
      · exact .inr ⟨x₀, hself⟩
      · exact .inl hql
      · refine .inr ⟨x, ?_⟩
        rw [hother x ?_, hx]
        rintro rfl
        rw [hempty] at hx
        exact absurd hx.symm (Option.some_ne_none q)
    · rintro (hql | ⟨x, hx⟩)
      · exact .inl (.inr hql)
      · rcases eq_or_ne x x₀ with rfl | hne
        · rw [hself] at hx
          exact .inl (.inl (Option.some.inj hx).symm)
        · exact .inr ⟨x, by rw [← hother x hne, hx]⟩
  · rcases eq_or_ne x x₀ with rfl | hne
    · rw [hself] at hx
      rwa [← Option.some.inj hx]
    · rw [hother x hne] at hx
      exact fun hql => h.taken x q hx (List.mem_cons_of_mem p hql)
  · by_cases hxn : x = x₀ <;> by_cases hyn : y = x₀
    · rw [hxn, hyn]
    · rw [hxn, hself] at hx
      rw [hother y hyn, ← Option.some.inj hx] at hy
      exact absurd hy (hfresh y)
    · rw [hyn, hself] at hy
      rw [hother x hxn, ← Option.some.inj hy] at hx
      exact absurd hx (hfresh x)
    · rw [hother x hxn] at hx
      rw [hother y hyn] at hy
      exact h.inj x y q hx hy
  · rcases eq_or_ne (Pos.frame i j) x₀ with heq | hne
    · rw [heq, hself] at hq
      rw [← Option.some.inj hq]
      exact hnew i j r heq.symm hr
    · rw [hother _ hne] at hq
      rw [hframes i j q hq, h.frame i j q r hq hr]
  · have hqp : q ≠ p := fun heq => hq (heq ▸ hp)
    rw [hkept q hq, hpages q hqp]
    exact h.kept q hq
  · have hqp : q ≠ p := fun heq => hpl (heq ▸ hq)
    rw [hpages q hqp]
    exact h.unused q (List.mem_cons_of_mem p hq)
  · rw [hkernel i hi hlt, h.kernel i hi hlt]

/-- **The tree grows by a table.** -/
theorem Grown.newTable (h : Grown m₀ l₀ f d S m (p :: l)) (hi : .table i ∉ S) :
    ∃ m₁ m', newPage m = some (p, m₁) ∧ m₁.setIndex (page2kva d) i (page2pa p ||| 0x7) = m' ∧
      Grown m₀ l₀ f d (insert (.table i) S) m' l ∧ pageAt m' d (.table i) = some p ∧
      m'.entry d i = page2pa p ||| 0x7 := by
  have hdl : d ∈ l₀ := h.mem_of_pageAt (pageAt_dir m d)
  have hnd : ∀ j t, pageAt m d (.table j) = some t → t ≠ p ∧ t ≠ d := fun j t ht =>
    ⟨h.ne_head ht, h.ne_of_ne ht (pageAt_dir m d) (Pos.table_ne_dir j)⟩
  obtain ⟨m₁, hnew, hat⟩ :=
    h.free.newTable (h.lt_of_mem hdl) (h.ne_head (pageAt_dir m d)) (h.empty hi) hnd
  refine ⟨m₁, _, hnew, rfl, ?_, ?_, hat.entry⟩
  · refine h.attach hi hat.free hat.place (fun i j q hq => ?_)
      (fun k j q hk => absurd hk (Pos.frame_ne_table k i j).symm) (fun q hq => ?_) hat.pages
      fun k hk _ => hat.entry_of_ne k (by omega)
    · exact hat.frames q (h.ne_head hq) (h.ne_of_ne hq (pageAt_dir m d) (Pos.frame_ne_dir i j))
    · refine hat.frames q ?_ ?_
      · rintro rfl
        exact hq h.head_mem
      · rintro rfl
        exact hq hdl
  · rw [hat.place, Function.update_self]

/-- The father's pages are not on the list. -/
def Apart (m₀ : Memory) (f : ℕ) (l₀ : List ℕ) : Prop :=
  ∀ x q, pageAt m₀ f x = some q → q ∉ l₀ ∧ q < npages

/-- The father's tables are what they were. -/
theorem Grown.father (h : Grown m₀ l₀ f d S m l) (ha : Apart m₀ f l₀)
    (hx : pageAt m₀ f x = some q) : m.frames q = m₀.frames q :=
  (h.kept q (ha x q hx).1).1

/-- **The tree grows by a frame**, a copy of the father's. -/
theorem Grown.newFrame (h : Grown m₀ l₀ f d S m (p :: l)) (ha : Apart m₀ f l₀)
    (ht : pageAt m d (.table i) = some t) (hj : .frame i j ∉ S)
    (htf : pageAt m₀ f (.table i) = some tf) (hq : pageAt m₀ f (.frame i j) = some q) :
    ∃ m', copyFrame (page2kva t) (page2kva tf) j m = some m' ∧
      Grown m₀ l₀ f d (insert (.frame i j) S) m' l ∧ pageAt m' d (.table i) = some t := by
  have hp : p < 2 ^ 20 := h.lt_of_mem h.head_mem
  have htl : t ∈ l₀ := h.mem_of_pageAt ht
  have ht20 : t < 2 ^ 20 := h.lt_of_mem htl
  have htp : t ≠ p := h.ne_head ht
  have htd : t ≠ d := h.ne_of_ne ht (pageAt_dir m d) (Pos.table_ne_dir i)
  have hdp : d ≠ p := h.ne_head (pageAt_dir m d)
  obtain ⟨htf₀, htf20⟩ := ha _ _ htf
  have htf20 : tf < 2 ^ 20 := Nat.lt_trans htf20 (by decide)
  obtain ⟨hq₀, hq20⟩ := ha _ _ hq
  have hq20 : q < 2 ^ 20 := Nat.lt_trans hq20 (by decide)
  -- pages that are not on the list are not written to
  have hout : ∀ r, r ∉ l₀ → r ≠ p ∧ r ≠ t := fun r hr =>
    ⟨fun heq => hr (heq ▸ h.head_mem), fun heq => hr (heq ▸ htl)⟩
  have htables : ∀ k s, pageAt m d (.table k) = some s → s ≠ p ∧ (k ≠ i → s ≠ t) := fun k s hs =>
    ⟨h.ne_head hs, fun hki => h.ne_of_ne hs ht fun heq => hki (Pos.table.inj heq)⟩
  obtain ⟨m₁, hnew, hat⟩ := h.free.newFrame (j := j) ht ht20 htp htd hdp htables
  generalize hm₂ : m₁.setIndex (page2kva t) j (page2pa p ||| 0x7) = m₂ at hat
  have hentry : m.target tf j = some q := by
    rw [Memory.target_congr (Memory.entry_congr (h.father ha htf) j), ← pageAt_frame htf, hq]
  obtain ⟨hpresent, hnum⟩ := Memory.target_eq_some.mp hentry
  have htf₂ : m₂.entry tf j = m.entry tf j :=
    Memory.entry_congr (hat.frames tf (hout tf htf₀).1 (hout tf htf₀).2) j
  obtain ⟨m', hm'⟩ : ∃ m', m' = m₂.setFrame p (m₂.frames q) := ⟨_, rfl⟩
  have hcopy : copyFrame (page2kva t) (page2kva tf) j m = some m' := by
    have hchild : PTE_ADDR (m₂.entry t j) + KOFFSET = page2kva p := by
      rw [hat.entry, PTE_ADDR_eq, PGNUM_page2pa_or hp]
      rfl
    have hfather : PTE_ADDR (m₂.entry tf j) + KOFFSET = page2kva q := by
      rw [htf₂, PTE_ADDR_eq, hnum]
      rfl
    rw [copyFrame, Memory.index_page htf20 (by omega), if_pos hpresent, hnew, Option.map_some]
    dsimp only
    rw [hm₂, Memory.index_page ht20 (by omega), Memory.index_page htf20 (by omega), hchild, hfather,
      Memory.memcpy_page hp hq20, hm']
  have hkept : ∀ r, r ≠ p → m'.frames r = m₂.frames r := fun r hrp => by
    rw [hm', Memory.frames_setFrame, Function.update_of_ne hrp]
  have hpage : pageAt m' d = Function.update (pageAt m d) (.frame i j) (some p) := by
    rw [← hat.place]
    refine pageAt_congr (hkept d hdp) fun k s hs => hkept s ?_
    rw [hat.place, Function.update_of_ne (Pos.frame_ne_table i k j).symm] at hs
    exact (htables k s hs).1
  refine ⟨m', hcopy, ?_, ?_⟩
  · have hpages : m'.pages = m₂.pages := by rw [hm', Memory.pages_setFrame]
    have hhead :
        m'.page_free_list = m₂.page_free_list := by rw [hm', Memory.page_free_list_setFrame]
    refine h.attach hj (hat.free.congr hhead fun q _ => by rw [hpages]) hpage (fun k l r hr => ?_)
      (fun k l r hkl hr => ?_) (fun r hr => ?_) (fun r hr => by rw [hpages, hat.pages r hr])
      fun k _ _ => ?_
    · rw [hkept r (h.ne_head hr),
        hat.frames r (h.ne_head hr) (h.ne_of_ne hr ht (Pos.frame_ne_table k i l))]
    · rw [← hkl, hq] at hr
      rw [hm', Memory.frames_setFrame, Function.update_self, ← Option.some.inj hr,
        hat.frames q (hout q hq₀).1 (hout q hq₀).2, h.father ha hq]
    · rw [hkept r (hout r hr).1, hat.frames r (hout r hr).1 (hout r hr).2]
    · refine Memory.entry_congr ?_ k
      rw [hkept d hdp, hat.frames d hdp (Ne.symm htd)]
  · rw [hpage, Function.update_of_ne (Pos.frame_ne_table i i j).symm, ht]

end Grown

/-! ## The order of the loops -/

/-- The place is done when the outer loop is at entry `i`, before the entry is looked at for `j = 0`
and with `j - 1` entries of its table looked at otherwise. -/
def Pos.Before (i j : ℕ) : Pos → Prop
  | .dir => True
  | .table k => k < i ∨ k = i ∧ 0 < j
  | .frame k l => k < i ∨ k = i ∧ l + 1 < j

instance (i j : ℕ) : DecidablePred (Pos.Before i j)
  | .dir => inferInstanceAs (Decidable True)
  | .table _ => inferInstanceAs (Decidable (_ ∨ _))
  | .frame _ _ => inferInstanceAs (Decidable (_ ∨ _))

/-- The places of the father's tree that are done. -/
noncomputable def done (m : Memory) (f i j : ℕ) : Finset Pos :=
  (positions m f).filter (Pos.Before i j)

section Done

variable {m : Memory} {f : ℕ} {i : Fin 768} {j : Fin 1024} {x : Pos}

theorem mem_done {i j : ℕ} : x ∈ done m f i j ↔ (pageAt m f x).isSome ∧ x.Before i j := by
  rw [done, Finset.mem_filter, mem_positions]

@[simp] theorem done_zero : done m f 0 0 = {.dir} := by
  ext x
  rw [mem_done, Finset.mem_singleton]
  cases x with
  | dir => simp [Pos.Before]
  | table k => simp [Pos.Before]
  | frame k l => simp [Pos.Before]

/-- An entry that is not present has neither a table nor frames. -/
theorem done_skip (h : pageAt m f (.table i) = none) : done m f (i + 1) 0 = done m f i 0 := by
  ext x
  rw [mem_done, mem_done]
  refine and_congr_right fun hx => ?_
  cases x with
  | dir => simp [Pos.Before]
  | table k =>
    have hne : k ≠ i := by
      rintro rfl
      rw [h] at hx
      exact absurd hx (by decide)
    have hval : (k : ℕ) ≠ i := fun heq => hne (Fin.ext heq)
    simp only [Pos.Before]
    omega
  | frame k l =>
    have hne : k ≠ i := by
      rintro rfl
      rw [pageAt_frame_none h] at hx
      exact absurd hx (by decide)
    have hval : (k : ℕ) ≠ i := fun heq => hne (Fin.ext heq)
    simp only [Pos.Before]
    omega

theorem done_table (h : (pageAt m f (.table i)).isSome) :
    done m f i 1 = insert (.table i) (done m f i 0) ∧ .table i ∉ done m f i 0 := by
  refine ⟨?_, fun hmem => ?_⟩
  · ext x
    rw [Finset.mem_insert, mem_done, mem_done]
    cases x with
    | dir => simp [Pos.Before]
    | table k =>
      rw [Pos.table.injEq, Fin.ext_iff]
      simp only [Pos.Before]
      constructor
      · rintro ⟨hk, hlt | heq⟩
        · exact .inr ⟨hk, .inl hlt⟩
        · exact .inl heq.1
      · rintro (heq | ⟨hk, hlt⟩)
        · obtain rfl : k = i := Fin.ext heq
          exact ⟨h, .inr ⟨rfl, Nat.one_pos⟩⟩
        · exact ⟨hk, by omega⟩
    | frame k l =>
      simp only [Pos.Before, reduceCtorEq, false_or]
      exact and_congr_right fun _ => by omega
  · have := (mem_done.mp hmem).2
    simp only [Pos.Before] at this
    omega

theorem done_frame_skip (h : pageAt m f (.frame i j) = none) :
    done m f i (j + 2) = done m f i (j + 1) := by
  ext x
  rw [mem_done, mem_done]
  refine and_congr_right fun hx => ?_
  cases x with
  | dir => simp [Pos.Before]
  | table k => simp [Pos.Before]
  | frame k l =>
    have hne : ¬((k : ℕ) = i ∧ (l : ℕ) = j) := by
      rintro ⟨hk, hl⟩
      obtain rfl : k = i := Fin.ext hk
      obtain rfl : l = j := Fin.ext hl
      rw [h] at hx
      exact absurd hx (by decide)
    simp only [Pos.Before]
    omega

theorem done_frame (h : (pageAt m f (.frame i j)).isSome) :
    done m f i (j + 2) = insert (.frame i j) (done m f i (j + 1)) ∧
      .frame i j ∉ done m f i (j + 1) := by
  refine ⟨?_, fun hmem => ?_⟩
  · ext x
    rw [Finset.mem_insert, mem_done, mem_done]
    cases x with
    | dir => simp [Pos.Before]
    | table k => simp [Pos.Before]
    | frame k l =>
      rw [Pos.frame.injEq, Fin.ext_iff, Fin.ext_iff]
      simp only [Pos.Before]
      constructor
      · rintro ⟨hkl, hlt⟩
        by_cases heq : (k : ℕ) = i ∧ (l : ℕ) = j
        · exact .inl heq
        · exact .inr ⟨hkl, by omega⟩
      · rintro (⟨hk, hl⟩ | ⟨hkl, hlt⟩)
        · obtain rfl : k = i := Fin.ext hk
          obtain rfl : l = j := Fin.ext hl
          exact ⟨h, by omega⟩
        · exact ⟨hkl, by omega⟩
  · have := (mem_done.mp hmem).2
    simp only [Pos.Before] at this
    omega

theorem done_next (i : ℕ) : done m f i 1025 = done m f (i + 1) 0 := by
  ext x
  rw [mem_done, mem_done]
  refine and_congr_right fun _ => ?_
  cases x with
  | dir => simp [Pos.Before]
  | table k =>
    simp only [Pos.Before]
    omega
  | frame k l =>
    simp only [Pos.Before]
    omega

@[simp] theorem done_all : done m f 768 0 = positions m f := by
  refine Finset.filter_true_of_mem fun x _ => ?_
  cases x with
  | dir => trivial
  | table k => exact .inl k.isLt
  | frame k l => exact .inl k.isLt

end Done

/-! ## The loops -/

section Loops

variable {m₀ m : Memory} {l₀ l : List ℕ} {f d t tf : ℕ} {i : Fin 768} {S : Finset Pos} {x : Pos}

/-- When a place of the father's tree is missing, a page is left, or there were too few. -/
theorem Grown.exists_page (h : Grown m₀ l₀ f d S m l) (hsub : S ⊆ positions m₀ f)
    (hx : x ∈ positions m₀ f) (hnew : x ∉ S) :
    (∃ p l', l = p :: l') ∨ l = [] ∧ l₀.length < (positions m₀ f).card := by
  have hlt : S.card < (positions m₀ f).card :=
    Finset.card_lt_card ((Finset.ssubset_iff_of_subset hsub).mpr ⟨x, hx, hnew⟩)
  have hcount := h.count
  cases l with
  | nil =>
    rw [List.length_nil] at hcount
    exact .inr ⟨rfl, by omega⟩
  | cons p l' => exact .inl ⟨p, l', rfl⟩

theorem done_subset (m : Memory) (f i j : ℕ) : done m f i j ⊆ positions m f :=
  Finset.filter_subset ..

/-- One round of the inner loop. -/
theorem Grown.copyFrame_round {j : ℕ} (hj : j < NR_PTE)
    (h : Grown m₀ l₀ f d (done m₀ f i (j + 1)) m l) (ha : Apart m₀ f l₀)
    (ht : pageAt m d (.table i) = some t) (htf : pageAt m₀ f (.table i) = some tf) :
    (∃ m', copyFrame (page2kva t) (page2kva tf) j m = some m' ∧
      ∃ l', Grown m₀ l₀ f d (done m₀ f i (j + 1 + 1)) m' l' ∧
        pageAt m' d (.table i) = some t) ∨
      copyFrame (page2kva t) (page2kva tf) j m = none ∧ l₀.length < (positions m₀ f).card := by
  have htf20 : tf < 2 ^ 20 := Nat.lt_trans (ha _ _ htf).2 (by decide)
  have hentry : m.entry tf j = m₀.entry tf j := Memory.entry_congr (h.father ha htf) j
  have hframe : pageAt m₀ f (.frame i ⟨j, hj⟩) = m₀.target tf j := pageAt_frame htf ⟨j, hj⟩
  cases hq : pageAt m₀ f (.frame i ⟨j, hj⟩) with
  | none =>
    have habsent : ¬Present (m.entry tf j) := by
      rw [hentry]
      exact Memory.target_eq_none.mp (hframe.symm.trans hq)
    refine .inl ⟨m, ?_, l, ?_, ht⟩
    · rw [copyFrame, Memory.index_page htf20 hj, if_neg habsent]
    · rw [done_frame_skip (j := ⟨j, hj⟩) hq]
      exact h
  | some q =>
    obtain ⟨hset, hnew⟩ := done_frame (m := m₀) (f := f) (i := i) (j := ⟨j, hj⟩) (by rw [hq]; rfl)
    rcases h.exists_page (done_subset ..) (mem_positions.mpr (by rw [hq]; rfl)) hnew with
      ⟨p, l', rfl⟩ | ⟨rfl, hfew⟩
    · obtain ⟨m', hcopy, hgrown, ht'⟩ := h.newFrame ha ht hnew htf hq
      refine .inl ⟨m', hcopy, l', ?_, ht'⟩
      rw [hset]
      exact hgrown
    · have hpresent : Present (m.entry tf j) := by
        rw [hentry]
        exact (Memory.target_eq_some.mp (hframe.symm.trans hq)).1
      refine .inr ⟨?_, hfew⟩
      rw [copyFrame, Memory.index_page htf20 hj, if_pos hpresent, h.free.newPage_nil,
        Option.map_none]

/-- **The inner loop** copies the frames behind one table. -/
theorem Grown.copyFrames (h : Grown m₀ l₀ f d (done m₀ f i 1) m l) (ha : Apart m₀ f l₀)
    (ht : pageAt m d (.table i) = some t) (htf : pageAt m₀ f (.table i) = some tf) :
    (∃ m', countUpM (copyFrame (page2kva t) (page2kva tf)) m NR_PTE = some m' ∧
      ∃ l', Grown m₀ l₀ f d (done m₀ f i 1025) m' l' ∧ pageAt m' d (.table i) = some t) ∨
      countUpM (copyFrame (page2kva t) (page2kva tf)) m NR_PTE = none ∧
        l₀.length < (positions m₀ f).card := by
  refine countUpM_or (P := fun j m => ∃ l, Grown m₀ l₀ f d (done m₀ f i (j + 1)) m l ∧
    pageAt m d (.table i) = some t) ⟨l, h, ht⟩ ?_
  rintro j hj m ⟨l, hl, ht⟩
  exact hl.copyFrame_round hj ha ht htf

/-- One round of the outer loop. -/
theorem Grown.copyTable_round {i : ℕ} (hi : i < 768)
    (h : Grown m₀ l₀ f d (done m₀ f i 0) m l) (ha : Apart m₀ f l₀) :
    (∃ m', copyTable (page2kva d) (page2kva f) i m = some m' ∧
      ∃ l', Grown m₀ l₀ f d (done m₀ f (i + 1) 0) m' l') ∨
      copyTable (page2kva d) (page2kva f) i m = none ∧ l₀.length < (positions m₀ f).card := by
  have hdir : pageAt m₀ f .dir = some f := pageAt_dir m₀ f
  have hf20 : f < 2 ^ 20 := Nat.lt_trans (ha _ _ hdir).2 (by decide)
  have hd20 : d < 2 ^ 20 := h.lt_of_mem (h.mem_of_pageAt (pageAt_dir m d))
  have hentry : m.entry f i = m₀.entry f i := Memory.entry_congr (h.father ha hdir) i
  have htable : pageAt m₀ f (.table ⟨i, hi⟩) = m₀.target f i := rfl
  cases htf : pageAt m₀ f (.table ⟨i, hi⟩) with
  | none =>
    have habsent : ¬Present (m.entry f i) := by
      rw [hentry]
      exact Memory.target_eq_none.mp (htable.symm.trans htf)
    refine .inl ⟨m, ?_, l, ?_⟩
    · rw [copyTable, Memory.index_page hf20 (by omega), if_neg habsent]
    · rw [done_skip (i := ⟨i, hi⟩) htf]
      exact h
  | some tf =>
    obtain ⟨hpresent, hnum⟩ := Memory.target_eq_some.mp (htable.symm.trans htf)
    obtain ⟨hset, hnew⟩ := done_table (m := m₀) (f := f) (i := ⟨i, hi⟩) (by rw [htf]; rfl)
    rw [copyTable, Memory.index_page hf20 (by omega), hentry, if_pos hpresent]
    rcases h.exists_page (done_subset ..) (mem_positions.mpr (by rw [htf]; rfl)) hnew with
      ⟨p, l', rfl⟩ | ⟨rfl, hfew⟩
    · obtain ⟨m₁, m₂, hpage, hm₂, hgrown, ht, hentry₂⟩ := h.newTable hnew
      have hp20 : p < 2 ^ 20 := h.lt_of_mem h.head_mem
      rw [← hset] at hgrown
      have hchild : PTE_ADDR (m₂.index (page2kva d) i) + KOFFSET = page2kva p := by
        rw [Memory.index_page hd20 (by omega), hentry₂, PTE_ADDR_eq, PGNUM_page2pa_or hp20]
        rfl
      have hfather : PTE_ADDR (m₂.index (page2kva f) i) + KOFFSET = page2kva tf := by
        rw [Memory.index_page hf20 (by omega), Memory.entry_congr (hgrown.father ha hdir) i,
          PTE_ADDR_eq, hnum]
        rfl
      rw [hpage, Option.bind_some]
      dsimp only at hm₂ ⊢
      rw [hm₂, hchild, hfather]
      refine (hgrown.copyFrames ha ht htf).imp_left ?_
      rintro ⟨m', hm', l'', hl'', -⟩
      rw [done_next] at hl''
      exact ⟨m', hm', l'', hl''⟩
    · rw [h.free.newPage_nil, Option.bind_none]
      exact .inr ⟨rfl, hfew⟩

/-- **The outer loop** copies the whole tree, or there were too few pages. -/
theorem Grown.copyTables (h : Grown m₀ l₀ f d {.dir} m l) (ha : Apart m₀ f l₀) :
    (∃ m', countUpM (copyTable (page2kva d) (page2kva f)) m 768 = some m' ∧
      ∃ l', Grown m₀ l₀ f d (positions m₀ f) m' l') ∨
      countUpM (copyTable (page2kva d) (page2kva f)) m 768 = none ∧
        l₀.length < (positions m₀ f).card := by
  rw [← done_zero] at h
  refine (countUpM_or (P := fun i m => ∃ l, Grown m₀ l₀ f d (done m₀ f i 0) m l)
    ⟨l, h⟩ ?_).imp_left ?_
  · rintro i hi m ⟨l, hl⟩
    exact hl.copyTable_round hi ha
  · rintro ⟨m', hm', l', hl'⟩
    rw [done_all] at hl'
    exact ⟨m', hm', l', hl'⟩

end Loops

/-! ## `copy` -/

section Copy

variable {m₀ : Memory} {l : List ℕ} {f d : ℕ}

/-- **The new directory** has the father's kernel entries and no other. -/
theorem grown_newDirectory (hl : FreeList m₀ (d :: l)) (hf : f ∉ d :: l) (hf20 : f < 2 ^ 20) :
    ∃ m₁, newPage m₀ = some (d, m₁) ∧
      Grown m₀ (d :: l) f d {.dir}
        (m₁.memcpy (page2kva d + 4 * 768) (page2kva f + 4 * 768) (4 * 32)) l := by
  obtain ⟨m₁, hnew, hfree, hframes, hpages⟩ := hl.alloc
  have hd20 : d < 2 ^ 20 := Nat.lt_trans (hl.lt d (List.mem_cons_self ..)) (by decide)
  have hdl : d ∉ l := (List.nodup_cons.mp hl.nodup).1
  have hfd : f ≠ d := fun heq => hf (heq ▸ List.mem_cons_self ..)
  have hzero : m₁.frames d = zeroFrame := by rw [hframes, Function.update_self]
  obtain ⟨F, hcpy, huser, hkernel⟩ := Memory.memcpy_kernel hzero hd20 hf20
  refine ⟨m₁, hnew, ?_⟩
  rw [hcpy]
  obtain ⟨m, hm⟩ : ∃ m, m = m₁.setFrame d F := ⟨_, rfl⟩
  rw [← hm] at huser hkernel ⊢
  have hpages' : m.pages = m₁.pages := by rw [hm, Memory.pages_setFrame]
  have hhead : m.page_free_list = m₁.page_free_list := by rw [hm, Memory.page_free_list_setFrame]
  have hkept : ∀ p, p ≠ d → m.frames p = m₀.frames p := fun p hp => by
    rw [hm, Memory.frames_setFrame, Function.update_of_ne hp, hframes, Function.update_of_ne hp]
  have hfather : ∀ i, m₁.entry f i = m₀.entry f i :=
    Memory.entry_congr (by rw [hframes, Function.update_of_ne hfd])
  have hempty : ∀ x, x ≠ .dir → pageAt m d x = none := fun x hx => by
    refine pageAt_eq_none (fun i => ?_) hx
    rw [Memory.target_eq_none, huser i i.isLt]
    exact not_present_zero
  have honly : ∀ x p, pageAt m d x = some p → x = .dir ∧ p = d := by
    intro x p hp
    rcases eq_or_ne x .dir with rfl | hx
    · exact ⟨rfl, (Option.some.inj hp).symm⟩
    · rw [hempty x hx] at hp
      exact absurd hp.symm (Option.some_ne_none p)
  refine ⟨hfree.congr hhead fun q _ => by rw [hpages'], hl.lt, List.suffix_cons d l, rfl,
    fun x => ?_, fun p => ?_, fun x p hp => ?_, fun x y p hx hy => ?_, fun i j p q hp _ => ?_,
    fun p hp => ?_, fun p hp => ?_, fun i hi hlt => by rw [hkernel i hi hlt, hfather i]⟩
  · rw [Finset.mem_singleton]
    rcases eq_or_ne x .dir with rfl | hx
    · exact iff_of_true rfl rfl
    · rw [hempty x hx]
      exact iff_of_false hx Bool.false_ne_true
  · rw [List.mem_cons]
    constructor
    · rintro (rfl | hp)
      · exact .inr ⟨.dir, rfl⟩
      · exact .inl hp
    · rintro (hp | ⟨x, hx⟩)
      · exact .inr hp
      · exact .inl (honly x p hx).2
  · rw [(honly x p hp).2]
    exact hdl
  · rw [(honly x p hx).1, (honly y p hy).1]
  · exact absurd (honly _ p hp).1 (Pos.frame_ne_dir i j)
  · have hpd : p ≠ d := fun heq => hp (heq ▸ List.mem_cons_self ..)
    exact ⟨hkept p hpd, by rw [hpages', hpages p hpd]⟩
  · have hpd : p ≠ d := fun heq => hdl (heq ▸ hp)
    rw [hpages', hpages p hpd]

/-- **`copy`** copies the whole tree, or there were too few pages. -/
theorem copy_cases {k : Core} {i : ℤ} (hi : i ≠ k.procs.current)
    (hs : Space k.mem k.procs.cur.cr3) (hl : FreeList k.mem l)
    (hapart : ∀ x p, pageAt k.mem (PGNUM k.procs.cur.cr3) x = some p → p ∉ l) :
    (∃ d m l', copy i k = some ⟨k.procs.modify i fun q => { q with cr3 := page2pa d }, m⟩ ∧
      d < npages ∧ Grown k.mem l (PGNUM k.procs.cur.cr3) d
        (positions k.mem (PGNUM k.procs.cur.cr3)) m l') ∨
      copy i k = none ∧ l.length < (positions k.mem (PGNUM k.procs.cur.cr3)).card := by
  have hdir : Pos.dir ∈ positions k.mem (PGNUM k.procs.cur.cr3) := mem_positions.mpr rfl
  cases l with
  | nil =>
    refine .inr ⟨?_, Finset.card_pos.mpr ⟨_, hdir⟩⟩
    rw [copy, hl.newPage_nil, Option.bind_none]
  | cons d l =>
    have hd : d < npages := hl.lt d (List.mem_cons_self ..)
    have hd20 : d < 2 ^ 20 := Nat.lt_trans hd (by decide)
    have hf20 : PGNUM k.procs.cur.cr3 < 2 ^ 20 := Nat.lt_trans hs.dir_lt (by decide)
    obtain ⟨m₁, hnew, hgrown⟩ := grown_newDirectory hl (hapart .dir _ rfl) hf20
    have hcur : (k.procs.modify i fun q => { q with cr3 := page2pa d }).cur = k.procs.cur :=
      Function.update_of_ne (Ne.symm hi) ..
    rw [copy, hnew, Option.bind_some, cr3Val_page2pa hd20]
    dsimp only
    rw [hcur, show (0xc0000000 : UInt32) = KOFFSET from rfl, hs.kva]
    rcases hgrown.copyTables fun x p hx => ⟨hapart x p hx, hs.lt x p hx⟩ with
      ⟨m, hm, l', hl'⟩ | ⟨hnone, hfew⟩
    · exact .inl ⟨d, m, l', by rw [hm, Option.map_some], hd, hl'⟩
    · exact .inr ⟨by rw [hnone, Option.map_none], hfew⟩

/-- With enough pages `copy` does not fail. -/
theorem copy_grown {k : Core} {i : ℤ} (hi : i ≠ k.procs.current)
    (hs : Space k.mem k.procs.cur.cr3) (hl : FreeList k.mem l)
    (hapart : ∀ x p, pageAt k.mem (PGNUM k.procs.cur.cr3) x = some p → p ∉ l)
    (hneed : (positions k.mem (PGNUM k.procs.cur.cr3)).card ≤ l.length) :
    ∃ d m l', copy i k = some ⟨k.procs.modify i fun q => { q with cr3 := page2pa d }, m⟩ ∧
      d < npages ∧ Grown k.mem l (PGNUM k.procs.cur.cr3) d
        (positions k.mem (PGNUM k.procs.cur.cr3)) m l' :=
  (copy_cases hi hs hl hapart).resolve_right fun hnone => by omega

end Copy

end OsLab

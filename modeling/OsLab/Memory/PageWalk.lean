import OsLab.Memory.Attach

/-!
# `pgdir_walk` and `mm_malloc`

`mm_malloc(va)` finds the frame behind a user address of the game's directory `updir`, and puts a
table and a frame there where there is none. It is called by the loader, page by page, while the
kernel's own directory is loaded: that maps memory from address `0` on as well, and the tables and
frames are used at those addresses.

What a sequence of such calls does to memory is `Extended`: the places in `S` have got pages of the
free list, the other frames are what they were. The calls fail when there are not enough pages, and
only then (`Extends`).

## Main definitions

* `pgdirWalk` — `pgdir_walk(pgdir, va, 1)`, with the address of the entry; `none` when `page_alloc`
  returns `NULL`
* `mmMalloc` — `mm_malloc(va, len)`, for the user directory at `updir`
* `Extended` — the tree with directory `u` has been extended to the places in `S`, with pages of the
  free list: it was `l`, and is `l'`
* `Extends` — the outcome of extending the tree: there are not enough pages, or it has been done

## Main results

* `Extends.bind` — one thing after another
* `mmMalloc_extends`, `mmMalloc_place` — what `mm_malloc` does
-/

namespace OsLab

/-! ## The code -/

/-- `*p`, for a word at the low address `p`. -/
def Memory.low (m : Memory) (p : UInt32) : UInt32 := m.index (p + KOFFSET) 0

/-- `*p = v` -/
def Memory.setLow (m : Memory) (p v : UInt32) : Memory := m.setIndex (p + KOFFSET) 0 v

/-- `if(!(*pde & PTE_P)) { … }` of `pgdir_walk` -/
def walkTable (pgdir va : UInt32) (m : Memory) : Option Memory :=
  if Present (m.index pgdir (PDX va)) then some m
  else (newPage m).map fun r => r.2.setIndex pgdir (PDX va) (page2pa r.1 ||| 0x7)

/-- `(pte_t *)(PTE_ADDR(*pde) + PTX(va) * 4)` -/
def walkPte (pgdir va : UInt32) (m : Memory) : UInt32 :=
  PTE_ADDR (m.index pgdir (PDX va)) + UInt32.ofNat (PTX va) * 4

/-- `if(!(*pte & PTE_P)) { … }` of `pgdir_walk` -/
def walkFrame (pte : UInt32) (m : Memory) : Option Memory :=
  if Present (m.low pte) then some m
  else (newPage m).map fun r =>
    let m := r.2.setLow pte (page2pa r.1)
    m.setLow pte (m.low pte ||| 0x7)

/-- `pgdir_walk(pgdir, va, 1)`, with the address of the entry; `none` when `page_alloc` returns
`NULL`. -/
def pgdirWalk (pgdir va : UInt32) (m : Memory) : Option (UInt32 × Memory) :=
  (walkTable pgdir va m).bind fun m =>
    (walkFrame (walkPte pgdir va m) m).map fun m' => (walkPte pgdir va m, m')

/-- `mm_malloc(va, len)`, for the user directory at `updir`. It does not look at `len`. -/
def mmMalloc (updir va : UInt32) (m : Memory) : Option (UInt32 × Memory) :=
  (pgdirWalk updir va m).map fun r => (PTE_ADDR (r.2.low r.1) + UInt32.ofNat (PGOFF va), r.2)

/-! ## Places that have got a page -/

/-- The tree with directory `u` has been extended to the places in `S`, with pages of the free list:
it was `l`, and is `l'`. -/
structure Extended (u : ℕ) (S : Finset Pos) (m : Memory) (l : List ℕ) (m' : Memory) (l' : List ℕ) :
    Prop where
  free : FreeList m' l'
  own : OwnTree m' l' u
  suffix : l' <:+ l
  count : l'.length + (positions m' u).card = l.length + (positions m u).card
  dom : positions m' u = positions m u ∪ S
  place : ∀ x q, pageAt m u x = some q → pageAt m' u x = some q
  new : ∀ x q, pageAt m' u x = some q → pageAt m u x = some q ∨ q ∈ l
  frames : ∀ i j q, .frame i j ∉ S → pageAt m u (.frame i j) = some q → m'.frames q = m.frames q
  kernel : ∀ i, 768 ≤ i → m'.entry u i = m.entry u i
  out : ∀ q, q ∉ l → (∀ x, pageAt m u x ≠ some q) →
    m'.frames q = m.frames q ∧ m'.pages q = m.pages q

/-- The outcome of extending the tree: there are not enough pages, or it has been done. -/
def Extends (u : ℕ) (S : Finset Pos) (m : Memory) (l : List ℕ) : Option Memory → Prop
  | none => l.length + (positions m u).card < (positions m u ∪ S).card
  | some m' => ∃ l', Extended u S m l m' l'

section Extended

variable {u t n p : ℕ} {S S' : Finset Pos} {m m' m'' : Memory} {l l' l'' : List ℕ} {x : Pos}

/-- Nothing is missing. -/
theorem Extended.refl (hl : FreeList m l) (ho : OwnTree m l u) (hS : S ⊆ positions m u) :
    Extended u S m l m l :=
  ⟨hl, ho, List.suffix_rfl, rfl, (Finset.union_eq_left.mpr hS).symm, fun _ _ h => h,
    fun _ _ h => .inl h, fun _ _ _ _ _ => rfl, fun _ _ => rfl, fun _ _ _ => ⟨rfl, rfl⟩⟩

theorem Extended.trans (h : Extended u S m l m' l') (h' : Extended u S' m' l' m'' l'') :
    Extended u (S ∪ S') m l m'' l'' := by
  have hnew : ∀ x q, pageAt m'' u x = some q → pageAt m u x = some q ∨ q ∈ l := fun x q hx => by
    rcases h'.new x q hx with hx | hq
    · exact h.new x q hx
    · exact .inr (h.suffix.subset hq)
  refine ⟨h'.free, h'.own, h'.suffix.trans h.suffix, h'.count.trans h.count, ?_,
    fun x q hx => h'.place x q (h.place x q hx), hnew, fun i j q hS hq => ?_, fun i hi => ?_,
    fun q hq hx => ?_⟩
  · rw [h'.dom, h.dom, Finset.union_assoc]
  · rw [Finset.mem_union, not_or] at hS
    rw [h'.frames i j q hS.2 (h.place _ q hq), h.frames i j q hS.1 hq]
  · rw [h'.kernel i hi, h.kernel i hi]
  · obtain ⟨hf, hp⟩ := h.out q hq hx
    have hl' : q ∉ l' := fun hq' => hq (h.suffix.subset hq')
    have hx' : ∀ x, pageAt m' u x ≠ some q := fun x hq' => by
      rcases h.new x q hq' with hq' | hq'
      · exact hx x hq'
      · exact hq hq'
    obtain ⟨hf', hp'⟩ := h'.out q hl' hx'
    exact ⟨hf'.trans hf, hp'.trans hp⟩

/-- **One place gets the first page of the list.** -/
theorem Attached.extended (h : Attached m m' l u x t n p) (hl : FreeList m (p :: l))
    (ho : OwnTree m (p :: l) u) (hx : pageAt m u x = none)
    (ht : ∃ y, pageAt m u y = some t ∧ ∀ i j, y ≠ .frame i j)
    (hkernel : ∀ i, 768 ≤ i → m'.entry u i = m.entry u i) :
    Extended u {x} m (p :: l) m' l := by
  have hself : pageAt m' u x = some p := by rw [h.place, Function.update_self]
  have hother : ∀ y, y ≠ x → pageAt m' u y = pageAt m u y := fun y hy => by
    rw [h.place, Function.update_of_ne hy]
  have hnot : x ∉ positions m u := by
    rw [mem_positions, hx]
    exact Bool.false_ne_true
  have hdom : positions m' u = positions m u ∪ {x} := by
    ext y
    rw [Finset.mem_union, Finset.mem_singleton, mem_positions, mem_positions]
    rcases eq_or_ne y x with rfl | hy
    · rw [hself]
      exact iff_of_true rfl (.inr rfl)
    · rw [hother y hy]
      exact (or_iff_left hy).symm
  obtain ⟨y, hy, hyf⟩ := ht
  refine ⟨h.free, ho.attach hl.nodup (hl.lt p (List.mem_cons_self ..)) h.place,
    List.suffix_cons p l, ?_, hdom, fun z q hz => ?_, fun z q hz => ?_, fun i j q _ hq => ?_,
    hkernel,
    fun q hq hz => ?_⟩
  · rw [hdom, Finset.card_union_of_disjoint (Finset.disjoint_singleton_right.mpr hnot),
      Finset.card_singleton, List.length_cons]
    omega
  · rcases eq_or_ne z x with rfl | hne
    · rw [hx] at hz
      exact absurd hz.symm (Option.some_ne_none q)
    · rw [hother z hne, hz]
  · rcases eq_or_ne z x with rfl | hne
    · rw [hself] at hz
      rw [← Option.some.inj hz]
      exact .inr (List.mem_cons_self ..)
    · rw [hother z hne] at hz
      exact .inl hz
  · exact h.frames q (ho.ne_head hq) (ho.ne_of_ne hq hy (Ne.symm (hyf i j)))
  · have hqp : q ≠ p := fun heq => hq (heq ▸ List.mem_cons_self ..)
    have hqt : q ≠ t := fun heq => hz y (heq ▸ hy)
    exact ⟨h.frames q hqp hqt, h.pages q hqp⟩

/-- **One thing after another.** -/
theorem Extends.bind {r : Option Memory} {f : Memory → Option Memory} (h : Extends u S m l r)
    (hf : ∀ m' l', r = some m' → Extended u S m l m' l' → Extends u S' m' l' (f m')) :
    Extends u (S ∪ S') m l (r.bind f) := by
  cases r with
  | none =>
    have hle : (positions m u ∪ S).card ≤ (positions m u ∪ (S ∪ S')).card :=
      Finset.card_le_card (Finset.union_subset_union_right Finset.subset_union_left)
    exact Nat.lt_of_lt_of_le h hle
  | some m' =>
    obtain ⟨l', h'⟩ := h
    have hnext := hf m' l' rfl h'
    rw [Option.bind_some]
    cases hm : f m' with
    | none =>
      rw [hm] at hnext
      have hcount := h'.count
      have hlt : l'.length + (positions m' u).card < (positions m' u ∪ S').card := hnext
      rw [h'.dom] at hlt hcount
      rw [Finset.union_assoc] at hlt
      show l.length + (positions m u).card < (positions m u ∪ (S ∪ S')).card
      omega
    | some m'' =>
      rw [hm] at hnext
      obtain ⟨l'', h''⟩ := hnext
      exact ⟨l'', h'.trans h''⟩

/-- **A loop** each round of which extends the tree. -/
theorem Extends.countUpM {S : ℕ → Finset Pos} {f : ℕ → Memory → Option Memory} {n : ℕ}
    (hl : FreeList m l) (ho : OwnTree m l u)
    (hf : ∀ i < n, ∀ m' l', FreeList m' l' → OwnTree m' l' u → Extends u (S i) m' l' (f i m')) :
    Extends u ((Finset.range n).biUnion S) m l (countUpM f m n) := by
  induction n with
  | zero => exact ⟨l, .refl hl ho (Finset.empty_subset _)⟩
  | succ n ih =>
    rw [Finset.range_add_one, Finset.biUnion_insert, Finset.union_comm]
    exact (ih fun i hi => hf i (Nat.lt_succ_of_lt hi)).bind fun m' l' _ h =>
      hf n (Nat.lt_succ_self n) m' l' h.free h.own

/-- What was possible with the pages there were. -/
theorem Extends.exists_eq_some {r : Option Memory} (h : Extends u S m l r)
    (hroom : (positions m u ∪ S).card ≤ l.length + (positions m u).card) :
    ∃ m' l', r = some m' ∧ Extended u S m l m' l' := by
  cases r with
  | none => exact absurd hroom (Nat.not_le.mpr h)
  | some m' =>
    obtain ⟨l', h'⟩ := h
    exact ⟨m', l', rfl, h'⟩

theorem Extended.card_le (h : Extended u S m l m' l') :
    (positions m u ∪ S).card ≤ l.length + (positions m u).card := by
  have hcount := h.count
  rw [h.dom] at hcount
  omega

end Extended

/-! ## `mm_malloc` -/

/-- The place of the table for a user address. -/
def tablePos (va : UInt32) (h : va < KOFFSET) : Pos := .table ⟨PDX va, PDX_lt h⟩

section Walk

variable {u : ℕ} {va : UInt32} {m m' : Memory} {l l' : List ℕ} {t p i : ℕ} {v : UInt32}

/-- A table in low memory. -/
theorem low_address (t i : ℕ) :
    page2pa t + UInt32.ofNat i * 4 + KOFFSET + 4 * UInt32.ofNat 0 =
      page2kva t + 4 * UInt32.ofNat i := by
  have hzero : 4 * UInt32.ofNat 0 = 0 := rfl
  rw [hzero, UInt32.add_zero, page2kva, UInt32.mul_comm, UInt32.add_assoc, UInt32.add_assoc,
    UInt32.add_comm KOFFSET]

theorem low_eq (ht : t < 2 ^ 20) (hi : i < 1024) :
    m.low (page2pa t + UInt32.ofNat i * 4) = m.entry t i := by
  rw [← Memory.index_page ht hi, Memory.low, Memory.index, low_address, Memory.index]

theorem setLow_eq (t i : ℕ) :
    m.setLow (page2pa t + UInt32.ofNat i * 4) v = m.setIndex (page2kva t) i v := by
  rw [Memory.setLow, Memory.setIndex, low_address, Memory.setIndex]

/-- The entry is written twice. -/
@[simp] theorem setEntry_setEntry (m : Memory) (p i : ℕ) (v w : UInt32) :
    (m.setEntry p i v).setEntry p i w = m.setEntry p i w := by
  rw [Memory.setEntry, Memory.setEntry, Memory.setEntry, Memory.setFrame, Memory.setFrame,
    Memory.setFrame]
  simp only [Function.update_self, Function.update_idem]
  congr 2
  refine ByteBlock.ext_get fun k hk => ?_
  simp only [ByteBlock.set32, ByteBlock.get_ofFn, if_pos hk]
  split <;> rfl

/-- No page is left for a place. -/
theorem extends_none {x : Pos} (h : x ∉ positions m u) : Extends u {x} m [] none := by
  show 0 + (positions m u).card < (positions m u ∪ {x}).card
  rw [Finset.card_union_of_disjoint (Finset.disjoint_singleton_right.mpr h), Finset.card_singleton]
  omega

/-- The first `if` of `pgdir_walk`, where there is no table: the first page of the list is one. -/
theorem walkTable_new (hl : FreeList m (p :: l)) (ho : OwnTree m (p :: l) u) (hva : va < KOFFSET)
    (hempty : pageAt m u (tablePos va hva) = none) :
    ∃ m', walkTable (page2kva u) va m = some m' ∧
      Attached m m' l u (tablePos va hva) u (PDX va) p := by
  have hu20 : u < 2 ^ 20 := Nat.lt_trans (ho.lt .dir u rfl) (by decide)
  have hlt := PDX_lt hva
  have htable : m.target u (PDX va) = none := hempty
  obtain ⟨m₁, hnew, hat⟩ := hl.newTable (i := ⟨PDX va, hlt⟩) hu20 (ho.ne_head (pageAt_dir m u))
    hempty fun j t ht =>
      ⟨ho.ne_head ht, ho.ne_of_ne ht (pageAt_dir m u) (Pos.table_ne_dir j)⟩
  rw [walkTable, Memory.index_page hu20 (by omega), if_neg (Memory.target_eq_none.mp htable), hnew]
  exact ⟨_, rfl, hat⟩

/-- The first `if` of `pgdir_walk`. -/
theorem walkTable_extends (hl : FreeList m l) (ho : OwnTree m l u) (hva : va < KOFFSET) :
    Extends u {tablePos va hva} m l (walkTable (page2kva u) va m) := by
  have hu20 : u < 2 ^ 20 := Nat.lt_trans (ho.lt .dir u rfl) (by decide)
  have hlt := PDX_lt hva
  have htable : pageAt m u (tablePos va hva) = m.target u (PDX va) := rfl
  by_cases h : Present (m.entry u (PDX va))
  · rw [walkTable, Memory.index_page hu20 (by omega), if_pos h]
    refine ⟨l, .refl hl ho (Finset.singleton_subset_iff.mpr ?_)⟩
    rw [mem_positions, htable, Memory.target, if_pos h]
    rfl
  · have hempty : pageAt m u (tablePos va hva) = none := htable.trans (Memory.target_eq_none.mpr h)
    have hnot : tablePos va hva ∉ positions m u := by
      rw [mem_positions, hempty]
      exact Bool.false_ne_true
    cases l with
    | nil =>
      rw [walkTable, Memory.index_page hu20 (by omega), if_neg h, hl.newPage_nil]
      exact extends_none hnot
    | cons p l =>
      obtain ⟨m', hm', hat⟩ := walkTable_new hl ho hva hempty
      rw [hm']
      refine ⟨l, hat.extended hl ho hempty ⟨.dir, rfl, fun i j => (Pos.frame_ne_dir i j).symm⟩
        fun k hk => hat.entry_of_ne k ?_⟩
      omega

/-- The address of the entry. -/
theorem walkPte_eq (hu : u < 2 ^ 20) (hva : va < KOFFSET)
    (ht : pageAt m u (tablePos va hva) = some t) :
    walkPte (page2kva u) va m = page2pa t + UInt32.ofNat (PTX va) * 4 := by
  have hlt := PDX_lt hva
  have ht : m.target u (PDX va) = some t := ht
  rw [walkPte, Memory.index_page hu (by omega), PTE_ADDR_eq, (Memory.target_eq_some.mp ht).2]

/-- The second `if` of `pgdir_walk`, where there is no frame: the first page of the list is one. The
entry is written twice. -/
theorem walkFrame_new (hl : FreeList m (p :: l)) (ho : OwnTree m (p :: l) u) (hva : va < KOFFSET)
    (ht : pageAt m u (tablePos va hva) = some t) (hempty : pageAt m u (userPos va hva) = none) :
    ∃ m', walkFrame (page2pa t + UInt32.ofNat (PTX va) * 4) m = some m' ∧
      Attached m m' l u (userPos va hva) t (PTX va) p := by
  have ht20 : t < 2 ^ 20 := Nat.lt_trans (ho.lt _ t ht) (by decide)
  have hlt := PTX_lt va
  have hframe : pageAt m u (userPos va hva) = m.target t (PTX va) :=
    pageAt_frame (i := ⟨PDX va, PDX_lt hva⟩) ht ⟨PTX va, hlt⟩
  obtain ⟨m₁, hnew, hat⟩ := hl.newFrame (i := ⟨PDX va, PDX_lt hva⟩) (j := ⟨PTX va, hlt⟩) ht ht20
    (ho.ne_head ht) (ho.ne_of_ne ht (pageAt_dir m u) (Pos.table_ne_dir _))
    (ho.ne_head (pageAt_dir m u)) fun k s hs =>
      ⟨ho.ne_head hs, fun hk => ho.ne_of_ne hs ht fun heq => hk (Pos.table.inj heq)⟩
  have htwice : (m₁.setLow (page2pa t + UInt32.ofNat (PTX va) * 4) (page2pa p)).setLow
      (page2pa t + UInt32.ofNat (PTX va) * 4)
      ((m₁.setLow (page2pa t + UInt32.ofNat (PTX va) * 4) (page2pa p)).low
        (page2pa t + UInt32.ofNat (PTX va) * 4) ||| 0x7) =
      m₁.setIndex (page2kva t) (PTX va) (page2pa p ||| 0x7) := by
    rw [setLow_eq, setLow_eq, low_eq ht20 hlt, Memory.setIndex_eq ht20 hlt,
      Memory.setIndex_eq ht20 hlt, Memory.setIndex_eq ht20 hlt,
      Memory.entry_setEntry_self hlt, setEntry_setEntry]
  rw [walkFrame, low_eq ht20 hlt, if_neg (Memory.target_eq_none.mp (hframe.symm.trans hempty)),
    hnew,
    Option.map_some]
  dsimp only
  rw [htwice]
  exact ⟨_, rfl, hat⟩

/-- The second `if` of `pgdir_walk`. -/
theorem walkFrame_extends (hl : FreeList m l) (ho : OwnTree m l u) (hva : va < KOFFSET)
    (ht : pageAt m u (tablePos va hva) = some t) :
    Extends u {userPos va hva} m l (walkFrame (page2pa t + UInt32.ofNat (PTX va) * 4) m) := by
  have ht20 : t < 2 ^ 20 := Nat.lt_trans (ho.lt _ t ht) (by decide)
  have hlt := PTX_lt va
  have hframe : pageAt m u (userPos va hva) = m.target t (PTX va) :=
    pageAt_frame (i := ⟨PDX va, PDX_lt hva⟩) ht ⟨PTX va, hlt⟩
  by_cases h : Present (m.entry t (PTX va))
  · rw [walkFrame, low_eq ht20 hlt, if_pos h]
    refine ⟨l, .refl hl ho (Finset.singleton_subset_iff.mpr ?_)⟩
    rw [mem_positions, hframe, Memory.target, if_pos h]
    rfl
  · have hempty : pageAt m u (userPos va hva) = none := hframe.trans (Memory.target_eq_none.mpr h)
    have hnot : userPos va hva ∉ positions m u := by
      rw [mem_positions, hempty]
      exact Bool.false_ne_true
    cases l with
    | nil =>
      rw [walkFrame, low_eq ht20 hlt, if_neg h, hl.newPage_nil]
      exact extends_none hnot
    | cons p l =>
      have htu : t ≠ u := ho.ne_of_ne ht (pageAt_dir m u) (Pos.table_ne_dir _)
      obtain ⟨m', hm', hat⟩ := walkFrame_new hl ho hva ht hempty
      rw [hm']
      refine ⟨l, hat.extended hl ho hempty
        ⟨tablePos va hva, ht, fun i j => (Pos.frame_ne_table i _ j).symm⟩ fun k hk => ?_⟩
      exact Memory.entry_congr (hat.frames u (ho.ne_head (pageAt_dir m u)) (Ne.symm htu)) k

/-- What `mm_malloc` leaves in memory. -/
theorem map_snd_mmMalloc (pgdir va : UInt32) (m : Memory) :
    (mmMalloc pgdir va m).map Prod.snd =
      (walkTable pgdir va m).bind fun m => walkFrame (walkPte pgdir va m) m := by
  rw [mmMalloc, pgdirWalk]
  cases walkTable pgdir va m with
  | none => rfl
  | some m₁ =>
    rw [Option.bind_some, Option.bind_some, Option.map_map, Option.map_map]
    exact Option.map_id'

/-- **What `mm_malloc` does.** -/
theorem mmMalloc_extends (hl : FreeList m l) (ho : OwnTree m l u) (hva : va < KOFFSET) :
    Extends u ({tablePos va hva} ∪ {userPos va hva}) m l
      ((mmMalloc (page2kva u) va m).map Prod.snd) := by
  have hu20 : u < 2 ^ 20 := Nat.lt_trans (ho.lt .dir u rfl) (by decide)
  rw [map_snd_mmMalloc]
  refine (walkTable_extends hl ho hva).bind fun m' l' _ h => ?_
  have hin : tablePos va hva ∈ positions m' u := by
    rw [h.dom]
    exact Finset.mem_union_right _ (Finset.mem_singleton_self _)
  obtain ⟨t, ht⟩ := Option.isSome_iff_exists.mp (mem_positions.mp hin)
  rw [walkPte_eq hu20 hva ht]
  exact walkFrame_extends h.free h.own hva ht

theorem mmMalloc_eq_some {pgdir addr : UInt32} (hr : mmMalloc pgdir va m = some (addr, m')) :
    ∃ m₁, walkTable pgdir va m = some m₁ ∧ walkFrame (walkPte pgdir va m₁) m₁ = some m' ∧
      addr = PTE_ADDR (m'.low (walkPte pgdir va m₁)) + UInt32.ofNat (PGOFF va) := by
  rw [mmMalloc, Option.map_eq_some_iff] at hr
  obtain ⟨r, hr, heq⟩ := hr
  rw [pgdirWalk, Option.bind_eq_some_iff] at hr
  obtain ⟨m₁, hm₁, hr⟩ := hr
  obtain ⟨m₂, hm₂, rfl⟩ := Option.map_eq_some_iff.mp hr
  have h₁ := congrArg Prod.fst heq
  have h₂ := congrArg Prod.snd heq
  dsimp only at h₁ h₂
  rw [← h₂]
  exact ⟨m₁, hm₁, hm₂, h₁.symm⟩

/-- The address that `mm_malloc` returns. -/
theorem mmMalloc_place {addr : UInt32} (hl : FreeList m l) (ho : OwnTree m l u) (hva : va < KOFFSET)
    (hr : mmMalloc (page2kva u) va m = some (addr, m')) :
    ∃ p, pageAt m' u (userPos va hva) = some p ∧ p < 2 ^ 20 ∧
      addr = page2pa p + UInt32.ofNat (PGOFF va) := by
  have hu20 : u < 2 ^ 20 := Nat.lt_trans (ho.lt .dir u rfl) (by decide)
  obtain ⟨m₁, hm₁, hm₂, haddr⟩ := mmMalloc_eq_some hr
  have hext := walkTable_extends hl ho hva
  rw [hm₁] at hext
  obtain ⟨l₁, h₁⟩ := hext
  have hin : tablePos va hva ∈ positions m₁ u := by
    rw [h₁.dom]
    exact Finset.mem_union_right _ (Finset.mem_singleton_self _)
  obtain ⟨t, ht⟩ := Option.isSome_iff_exists.mp (mem_positions.mp hin)
  have ht20 : t < 2 ^ 20 := Nat.lt_trans (h₁.own.lt _ t ht) (by decide)
  have hext₂ := walkFrame_extends h₁.free h₁.own hva ht
  rw [walkPte_eq hu20 hva ht] at hm₂ haddr
  rw [hm₂] at hext₂
  obtain ⟨l₂, h₂⟩ := hext₂
  have hin₂ : userPos va hva ∈ positions m' u := by
    rw [h₂.dom]
    exact Finset.mem_union_right _ (Finset.mem_singleton_self _)
  obtain ⟨p, hp⟩ := Option.isSome_iff_exists.mp (mem_positions.mp hin₂)
  have hframe : pageAt m' u (userPos va hva) = m'.target t (PTX va) :=
    pageAt_frame (i := ⟨PDX va, PDX_lt hva⟩) (h₂.place _ t ht) ⟨PTX va, PTX_lt va⟩
  refine ⟨p, hp, Nat.lt_trans (h₂.own.lt _ p hp) (by decide), ?_⟩
  rw [haddr, low_eq ht20 (PTX_lt va), PTE_ADDR_eq,
    (Memory.target_eq_some.mp (hframe.symm.trans hp)).2]

end Walk

end OsLab

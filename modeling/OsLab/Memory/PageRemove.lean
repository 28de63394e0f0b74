import OsLab.Memory.Fork
import OsLab.Memory.PageWalk

/-!
# `page_lookup` and `page_remove`

`page_lookup` is to store the address of the entry it finds through `pte_store`, if the caller wants
it. The test is the wrong way around: it stores when `pte_store` is `NULL`. `page_remove` asks for
the entry, is not given it, and clears the word that an uninitialised local happens to point to.

The kernel finds memory at the low addresses as well as from `KOFFSET` on, so a null pointer leads
to page 0 and a wild one to any page.

## Main definitions

* `PageLookup` — what `page_lookup` returns, with `*pte_store` and memory after it
* `Mapped` — the page of `va` is mapped: `t` is its table, and `p` its frame
* `RemovesOne` — one page is unmapped
* `StoresEntry` — the entry is handed out to the caller that wants it, and memory stays what it is

## Main results

* `removesOne_iff`, `storesEntry_iff` — the two functions do what they are for where no page is
  mapped
-/

namespace OsLab

/-! ## The code -/

/-- `pgdir_walk(pgdir, va, 0)`: the address of the entry, or `NULL`. -/
def pgdirWalkFind (pgdir va : UInt32) (m : Memory) : UInt32 :=
  if ¬Present (m.index pgdir (PDX va)) then 0
  else if ¬Present (m.low (walkPte pgdir va m)) then 0
  else walkPte pgdir va m

/-- `*p = v`, at an address of either kind. -/
def Memory.setWord (m : Memory) (p v : UInt32) : Memory :=
  if p < KOFFSET then m.setLow p v else m.setIndex p 0 v

/-- What `page_lookup` returns, with `*pte_store` and memory after it. -/
structure PageLookup where
  page : Option ℕ
  pte_store : Option UInt32
  mem : Memory

/-- `page_lookup(pgdir, va, pte_store)`. `pte_store` is `none` for a null pointer, and otherwise the
contents of the variable that it points to. -/
def pageLookup (pgdir va : UInt32) (pte_store : Option UInt32) (m : Memory) : PageLookup :=
  let pte := pgdirWalkFind pgdir va m
  if pte = 0 then ⟨none, pte_store, m⟩
  else
    match pte_store with
    | none =>
      let m := m.setWord 0 pte
      ⟨some (pa2page (PTE_ADDR (m.low pte))), none, m⟩
    | some v => ⟨some (pa2page (PTE_ADDR (m.low pte))), some v, m⟩

/-- `-- pp->pp_ref` -/
def Memory.decRef (m : Memory) (pp : ℕ) : Memory :=
  { m with
    pages := Function.update m.pages pp { m.pages pp with pp_ref := (m.pages pp).pp_ref - 1 } }

/-- `page_decref(pp)` -/
def pageDecref (pp : ℕ) (m : Memory) : Memory :=
  let m := m.decRef pp
  if (m.pages pp).pp_ref = 0 then pageFree pp m else m

/-- `page_remove(pgdir, va)`. Its local `pte` holds `garbage` when `page_lookup` is called. -/
def pageRemove (pgdir va garbage : UInt32) (m : Memory) : Memory :=
  let r := pageLookup pgdir va (some garbage) m
  match r.page, r.pte_store with
  | some pginfo, some pte => (pageDecref pginfo r.mem).setWord pte 0
  | _, _ => r.mem

/-! ## What they are for -/

/-- The page of `va` is mapped: `t` is its table, and `p` its frame. -/
structure Mapped (m : Memory) (u : ℕ) (va : UInt32) (t p : ℕ) : Prop where
  table : m.target u (PDX va) = some t
  frame : m.target t (PTX va) = some p

/-- **One page is unmapped.** Its entry is cleared, its frame has one reference less and is free if
that was the last one, and no other entry changes. -/
structure RemovesOne (u : ℕ) (va : UInt32) (m m' : Memory) : Prop where
  entry : ∀ t p, Mapped m u va t p → m'.entry t (PTX va) = 0
  ref : ∀ t p, Mapped m u va t p → (m'.pages p).pp_ref = (m.pages p).pp_ref - 1
  free : ∀ t p l, Mapped m u va t p → FreeList m l →
    ∃ l', FreeList m' l' ∧ ∀ q, q ∈ l' ↔ q ∈ l ∨ q = p ∧ (m.pages p).pp_ref = 1
  others : ∀ t p, Mapped m u va t p →
    ∀ q i, i < 1024 → (q ≠ t ∨ i ≠ PTX va) → m'.entry q i = m.entry q i
  unmapped : (∀ t p, ¬Mapped m u va t p) → m' = m

/-- **The entry is handed out** to the caller that wants it, and memory stays what it is. -/
structure StoresEntry (u : ℕ) (va : UInt32) (m : Memory) : Prop where
  stored : ∀ v t p, Mapped m u va t p →
    (pageLookup (page2kva u) va (some v) m).pte_store = some (page2pa t + UInt32.ofNat (PTX va) * 4)
  unmapped : ∀ v, (∀ t p, ¬Mapped m u va t p) →
    (pageLookup (page2kva u) va (some v) m).pte_store = some v
  kept : ∀ pte_store, (pageLookup (page2kva u) va pte_store m).mem = m

section Lookup

variable {m : Memory} {u t p : ℕ} {va garbage : UInt32}

theorem PDX_lt_1024 (va : UInt32) : PDX va < 1024 := by
  have hlt := va.toNat_lt
  rw [PDX_eq]
  omega

theorem Mapped.walkPte_eq (h : Mapped m u va t p) (hu : u < npages) :
    walkPte (page2kva u) va m = page2pa t + UInt32.ofNat (PTX va) * 4 := by
  rw [walkPte, Memory.index_page (Nat.lt_trans hu (by decide)) (PDX_lt_1024 va), PTE_ADDR_eq,
    (Memory.target_eq_some.mp h.table).2]

/-- A page that is mapped is found, unless its entry is at address 0. -/
theorem Mapped.pgdirWalkFind_eq (h : Mapped m u va t p) (hu : u < npages) :
    pgdirWalkFind (page2kva u) va m = page2pa t + UInt32.ofNat (PTX va) * 4 := by
  obtain ⟨htable, hnum⟩ := Memory.target_eq_some.mp h.table
  have ht : t < 2 ^ 20 := hnum ▸ PGNUM_lt _
  have hframe := (Memory.target_eq_some.mp h.frame).1
  rw [pgdirWalkFind, Memory.index_page (Nat.lt_trans hu (by decide)) (PDX_lt_1024 va),
    if_neg (not_not.mpr htable), h.walkPte_eq hu, low_eq ht (PTX_lt va),
    if_neg (not_not.mpr hframe)]

/-- Nothing is found where no page is mapped. -/
theorem pgdirWalkFind_unmapped (h : ∀ t p, ¬Mapped m u va t p) (hu : u < npages) :
    pgdirWalkFind (page2kva u) va m = 0 := by
  have hu20 : u < 2 ^ 20 := Nat.lt_trans hu (by decide)
  rw [pgdirWalkFind, Memory.index_page hu20 (PDX_lt_1024 va)]
  split
  · rfl
  · next hpresent =>
    have htable : m.target u (PDX va) = some (PGNUM (m.entry u (PDX va))) :=
      Memory.target_eq_some.mpr ⟨not_not.mp hpresent, rfl⟩
    have hpte : walkPte (page2kva u) va m =
        page2pa (PGNUM (m.entry u (PDX va))) + UInt32.ofNat (PTX va) * 4 := by
      rw [walkPte, Memory.index_page hu20 (PDX_lt_1024 va), PTE_ADDR_eq]
    rw [hpte, low_eq (PGNUM_lt _) (PTX_lt va)]
    split
    · rfl
    · next hframe =>
        exact absurd ⟨htable, Memory.target_eq_some.mpr ⟨not_not.mp hframe, rfl⟩⟩ (h _ _)

/-- A caller that wants the entry finds its variable as it was. -/
theorem pageLookup_some (pgdir va v : UInt32) (m : Memory) :
    pageLookup pgdir va (some v) m =
      ⟨if pgdirWalkFind pgdir va m = 0 then none
        else some (pa2page (PTE_ADDR (m.low (pgdirWalkFind pgdir va m)))), some v, m⟩ := by
  by_cases h : pgdirWalkFind pgdir va m = 0
  · simp only [pageLookup, if_pos h]
  · simp only [pageLookup, if_neg h]

theorem pageLookup_unmapped (h : ∀ t p, ¬Mapped m u va t p) (hu : u < npages)
    (pte_store : Option UInt32) :
    pageLookup (page2kva u) va pte_store m = ⟨none, pte_store, m⟩ := by
  simp [pageLookup, pgdirWalkFind_unmapped h hu]

/-- **`page_lookup`** hands out no entry. -/
theorem storesEntry_iff (hu : u < npages) : StoresEntry u va m ↔ ∀ t p, ¬Mapped m u va t p := by
  constructor
  · intro h t p hmap
    -- whatever the variable holds, it keeps
    have hkept : ∀ v, some v = some (page2pa t + UInt32.ofNat (PTX va) * 4) := fun v => by
      have hstored := h.stored v t p hmap
      rwa [pageLookup_some] at hstored
    exact absurd ((hkept 0).trans (hkept 1).symm) (by decide)
  · intro h
    refine ⟨fun v t p hmap => absurd hmap (h t p), fun v _ => ?_, fun pte_store => ?_⟩
    · rw [pageLookup_some]
    · rw [pageLookup_unmapped h hu]

end Lookup

section Remove

variable {m : Memory} {u t p q i : ℕ} {va garbage : UInt32}

@[simp] theorem entry_pageDecref (pp : ℕ) (m : Memory) (q i : ℕ) :
    (pageDecref pp m).entry q i = m.entry q i := by
  rw [pageDecref]
  split <;> rfl

/-- A write to the first word of page `q`. -/
theorem setWord_page2pa (hq : q < 2 ^ 18) (v : UInt32) :
    m.setWord (page2pa q) v = m.setEntry q 0 v := by
  have hlow : page2pa q < KOFFSET := by
    rw [UInt32.lt_iff_toNat_lt, toNat_page2pa (Nat.lt_trans hq (by decide))]
    show 4096 * q < 0xC0000000
    omega
  have hzero : page2pa q + UInt32.ofNat 0 * 4 = page2pa q := by
    rw [show UInt32.ofNat 0 * 4 = 0 from rfl, UInt32.add_zero]
  rw [Memory.setWord, if_pos hlow]
  conv_lhs => rw [← hzero]
  rw [setLow_eq, Memory.setIndex_eq (Nat.lt_trans hq (by decide)) (by decide)]

/-- **`page_remove`** clears the word that its local points to. -/
theorem Mapped.pageRemove_eq (h : Mapped m u va t p) (hu : u < npages) (garbage : UInt32) :
    pageRemove (page2kva u) va garbage m = m ∨
      pageRemove (page2kva u) va garbage m = (pageDecref p m).setWord garbage 0 := by
  have hnum := (Memory.target_eq_some.mp h.table).2
  have ht : t < 2 ^ 20 := hnum ▸ PGNUM_lt _
  obtain ⟨-, hframe⟩ := Memory.target_eq_some.mp h.frame
  rw [pageRemove, pageLookup_some, h.pgdirWalkFind_eq hu, low_eq ht (PTX_lt va), pa2page,
    PTE_ADDR_eq,
    hframe, PGNUM_page2pa (hframe ▸ PGNUM_lt _)]
  by_cases hnull : page2pa t + UInt32.ofNat (PTX va) * 4 = 0
  · rw [if_pos hnull]
    exact .inl rfl
  · rw [if_neg hnull]
    exact .inr rfl

/-- **`page_remove`** unmaps no page. -/
theorem removesOne_iff (hu : u < npages) :
    (∀ garbage, RemovesOne u va m (pageRemove (page2kva u) va garbage m)) ↔
      ∀ t p, ¬Mapped m u va t p := by
  constructor
  · intro h t p hmap
    -- the local points to another page than the table
    obtain ⟨q, hq, hqt⟩ : ∃ q, q < 2 ^ 18 ∧ q ≠ t := by
      rcases eq_or_ne t 0 with rfl | hne
      · exact ⟨1, by decide, by decide⟩
      · exact ⟨0, by decide, Ne.symm hne⟩
    have hentry :
        (pageRemove (page2kva u) va (page2pa q) m).entry t (PTX va) = m.entry t (PTX va) := by
      rcases hmap.pageRemove_eq hu (page2pa q) with heq | heq <;> rw [heq]
      rw [setWord_page2pa hq, Memory.entry_setEntry_of_ne (.inl (Ne.symm hqt)), entry_pageDecref]
    have hcleared := (h (page2pa q)).entry t p hmap
    rw [hentry] at hcleared
    have hpresent := (Memory.target_eq_some.mp hmap.frame).1
    rw [hcleared] at hpresent
    exact not_present_zero hpresent
  · intro h garbage
    have hsame : pageRemove (page2kva u) va garbage m = m := by
      rw [pageRemove, pageLookup_unmapped h hu]
    rw [hsame]
    exact ⟨fun t p hmap => absurd hmap (h t p), fun t p hmap => absurd hmap (h t p),
      fun t p _ hmap => absurd hmap (h t p), fun t p hmap => absurd hmap (h t p), fun _ => rfl⟩

end Remove

/-- **Where `page_remove` and `page_lookup` do what they are for**: where the address is not
mapped. -/
theorem pageRemove_iff (u : ℕ) (va : UInt32) (m : Memory) (hu : u < npages) :
    ((∀ garbage, RemovesOne u va m (pageRemove (page2kva u) va garbage m)) ↔
        ∀ t p, ¬Mapped m u va t p) ∧
      (StoresEntry u va m ↔ ∀ t p, ¬Mapped m u va t p) :=
  ⟨removesOne_iff hu, storesEntry_iff hu⟩

theorem pageRemove_iff_small :
    (∀ garbage, RemovesOne 5 0 smallMemory (pageRemove (page2kva 5) 0 garbage smallMemory)) ↔
      ∀ t p, ¬Mapped smallMemory 5 0 t p :=
  (pageRemove_iff 5 0 smallMemory (by decide)).1

/-- The page that a process has is mapped and not removed. -/
theorem pageRemove_keeps :
    Mapped smallMemory 5 0x400000 6 7 ∧
      ¬(∀ garbage, RemovesOne 5 0x400000 smallMemory
        (pageRemove (page2kva 5) 0x400000 garbage smallMemory)) ∧
      ¬StoresEntry 5 0x400000 smallMemory := by
  have hmap : Mapped smallMemory 5 0x400000 6 7 := by
    refine ⟨Memory.target_page2pa ?_ (by decide), Memory.target_page2pa ?_ (by decide)⟩
    · rw [smallMemory, Memory.entry_setEntry_of_ne (.inl (by decide))]
      exact Memory.entry_setEntry_self (by decide)
    · exact Memory.entry_setEntry_self (by decide)
  refine ⟨hmap, fun h => ?_, fun h => ?_⟩
  · exact (removesOne_iff (by decide)).mp h 6 7 hmap
  · exact (storesEntry_iff (by decide)).mp h 6 7 hmap

end OsLab

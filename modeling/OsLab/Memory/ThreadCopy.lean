import Mathlib.Data.List.GetD
import OsLab.Memory.Fork

/-!
# `thread_copy`

What `create_thread` does to memory: the new directory is a copy of the creator's, with the same
tables behind it, but for the entry of the last 4 MiB of user memory. There a new table is put whose
1024 entries lead to new frames, the thread's stack.

The pages are taken from the free list in order, one for the directory, one for the table and then
one in each round of the loop (`StackMapped`).

## Main definitions

* `threadCopy` — `thread_copy(pcb_index)`, `none` when `page_alloc` returns `NULL`
* `StackMapped` — after `n` rounds of the loop that started with memory `m₁`: the first `n` pages of
  the list `l` are behind the first `n` entries of the table in page `t`
* `ThreadMade` — memory `m'` after `thread_copy`, where it was `m` before, with the creator's
  directory in page `f` and the free list `l`: the thread's directory is in page `d`, the table of
  its stack in page `t`, and the `j`-th page of its stack in page `stack j`
* `SharesAllButStack` — everything but the stack is shared, between the directories that `cr3` and
  `cr3'` lead to

## Main results

* `threadCopy_shares` — the thread's memory is the creator's but for the stack
-/

namespace OsLab

/-! ## The code -/

/-- The bytes that a page table maps. -/
def PT_SIZE : UInt32 := 0x400000

/-- `(KOFFSET - PT_SIZE) / PT_SIZE` -/
def stackIndex : ℕ := ((KOFFSET - PT_SIZE) / PT_SIZE).toNat

/-- One entry's turn in the loop of `thread_copy`. -/
def threadFrame (child_t : UInt32) (j : ℕ) (m : Memory) : Option Memory :=
  (newPage m).map fun r => r.2.setIndex child_t j (page2pa r.1 ||| 0x7)

/-- `thread_copy(pcb_index)`, `none` when `page_alloc` returns `NULL`. -/
def threadCopy (pcb_index : ℤ) (k : Core) : Option Core :=
  (newPage k.mem).bind fun r =>
    let procs := k.procs.modify pcb_index fun q => { q with cr3 := cr3Val (page2pa r.1 >>> 12) }
    let child := page2kva r.1
    let father := procs.cur.cr3 + 0xc0000000
    let m := r.2.memcpy child father (4 * 2 ^ 10)
    (newPage m).bind fun r =>
      let m := r.2.setIndex child stackIndex (page2pa r.1 ||| 0x7)
      let child_t := PTE_ADDR (m.index child stackIndex) + KOFFSET
      (countUpM (threadFrame child_t) m NR_PTE).map fun m => ⟨procs, m⟩

/-! ## The loop -/

/-- After `n` rounds of the loop that started with memory `m₁`: the first `n` pages of the list `l`
are behind the first `n` entries of the table in page `t`. -/
structure StackMapped (m₁ : Memory) (l : List ℕ) (t n : ℕ) (m : Memory) : Prop where
  free : FreeList m (l.drop n)
  entry : ∀ j < n, m.entry t j = page2pa (l.getD j 0) ||| 0x7
  zero : ∀ j < n, m.frames (l.getD j 0) = zeroFrame
  kept : ∀ q, q ≠ t → q ∉ l → m.frames q = m₁.frames q

section Loop

variable {m₁ m : Memory} {l : List ℕ} {t n : ℕ}

/-- **One round.** -/
theorem StackMapped.step (h : StackMapped m₁ l t n m) (hnodup : l.Nodup) (ht : t < 2 ^ 20)
    (htl : t ∉ l) (hn : n < l.length) (hn' : n < 1024) :
    ∃ m', threadFrame (page2kva t) n m = some m' ∧ StackMapped m₁ l t (n + 1) m' := by
  obtain ⟨p, hp⟩ : ∃ p, p = l.getD n 0 := ⟨_, rfl⟩
  have hget : l.getD n 0 = l[n] := List.getD_eq_getElem l 0 hn
  have hdrop : l.drop n = p :: l.drop (n + 1) := by
    rw [hp, hget]
    exact List.drop_eq_getElem_cons hn
  have hpl : p ∈ l := by
    rw [hp, hget]
    exact List.getElem_mem hn
  have htp : t ≠ p := fun heq => htl (heq ▸ hpl)
  have hfree := h.free
  rw [hdrop] at hfree
  obtain ⟨m₂, hnew, hfree₂, hframes, -⟩ := hfree.alloc
  have hother : ∀ j < n, l.getD j 0 ≠ p := fun j hj heq => by
    rw [hp, hget, List.getD_eq_getElem l 0 (by omega)] at heq
    exact absurd (hnodup.getElem_inj_iff.mp heq) (by omega)
  have hmem : ∀ j < n, l.getD j 0 ∈ l := fun j hj => by
    rw [List.getD_eq_getElem l 0 (by omega)]
    exact List.getElem_mem _
  refine ⟨m₂.setEntry t n (page2pa p ||| 0x7), ?_, ?_, fun j hj => ?_, fun j hj => ?_,
    fun q hqt hql => ?_⟩
  · rw [threadFrame, hnew, Option.map_some, Memory.setIndex_eq ht hn']
  · exact hfree₂.congr rfl fun q _ => rfl
  · rcases Nat.lt_succ_iff_lt_or_eq.mp hj with hlt' | rfl
    · rw [Memory.entry_setEntry_of_ne (.inr (by omega)),
        Memory.entry_congr
          (show m₂.frames t = m.frames t by rw [hframes, Function.update_of_ne htp])]
      exact h.entry j hlt'
    · rw [Memory.entry_setEntry_self hn', hp]
  · rcases Nat.lt_succ_iff_lt_or_eq.mp hj with hlt' | rfl
    · have hne : l.getD j 0 ≠ t := fun heq => htl (heq ▸ hmem j hlt')
      rw [Memory.frames_setEntry, Function.update_of_ne hne, hframes,
        Function.update_of_ne (hother j hlt')]
      exact h.zero j hlt'
    · rw [← hp, Memory.frames_setEntry, Function.update_of_ne (Ne.symm htp), hframes,
        Function.update_self]
  · have hqp : q ≠ p := fun heq => hql (heq ▸ hpl)
    rw [Memory.frames_setEntry, Function.update_of_ne hqt, hframes, Function.update_of_ne hqp]
    exact h.kept q hqt hql

/-- **The loop** maps the whole stack. -/
theorem stackMapped_loop (hl : FreeList m₁ l) (ht : t < 2 ^ 20) (htl : t ∉ l)
    (hlen : NR_PTE ≤ l.length) :
    ∃ m, countUpM (threadFrame (page2kva t)) m₁ NR_PTE = some m ∧ StackMapped m₁ l t NR_PTE m := by
  refine countUpM_induction (P := fun n m => StackMapped m₁ l t n m) ⟨?_, ?_, ?_, fun q _ _ => rfl⟩
    fun n hn m h => h.step hl.nodup ht htl (by omega) hn
  · rwa [List.drop_zero]
  · exact fun j hj => absurd hj (Nat.not_lt_zero j)
  · exact fun j hj => absurd hj (Nat.not_lt_zero j)

end Loop

/-! ## The thread's memory -/

/-- Memory `m'` after `thread_copy`, where it was `m` before, with the creator's directory in page
`f` and the free list `l`: the thread's directory is in page `d`, the table of its stack in page
`t`, and the `j`-th page of its stack in page `stack j`. -/
structure ThreadMade (m : Memory) (f : ℕ) (l : List ℕ) (m' : Memory) (d t : ℕ) (stack : ℕ → ℕ) :
    Prop where
  entry : ∀ i, i ≠ stackIndex → m'.entry d i = m.entry f i
  table : m'.entry d stackIndex = page2pa t ||| 0x7
  frame : ∀ j < 1024, m'.entry t j = page2pa (stack j) ||| 0x7
  mem : t ∈ l ∧ ∀ j < 1024, stack j ∈ l
  lt : ∀ p ∈ l, p < npages
  inj : ∀ i < 1024, ∀ j < 1024, stack i = stack j → i = j
  zero : ∀ j < 1024, m'.frames (stack j) = zeroFrame
  kept : ∀ q, q ∉ l → m'.frames q = m.frames q

/-- The pages that `thread_copy` has taken are different, and `l'` is what is left of the list. -/
structure ThreadTaken (l l' : List ℕ) (d t : ℕ) (stack : ℕ → ℕ) : Prop where
  dir : d ∈ l ∧ d ∉ l'
  table : t ∉ l' ∧ t ≠ d
  frame : ∀ j < 1024, stack j ∉ l' ∧ stack j ≠ d ∧ stack j ≠ t
  rest : l' ⊆ l

/-- The user addresses below the stack. -/
def STACK_BASE : UInt32 := KOFFSET - PT_SIZE

/-- **Everything but the stack is shared**, between the directories that `cr3` and `cr3'` lead
to. -/
structure SharesAllButStack (m m' : Memory) (l : List ℕ) (cr3 cr3' : UInt32) : Prop where
  /-- The thread's translation is the creator's, which is what it was. -/
  shared : ∀ va < STACK_BASE, translate m' cr3' va = translate m cr3 va
  creator : ∀ va < KOFFSET, translate m' cr3 va = translate m cr3 va
  /-- Each page of the stack has a frame of its own, full of zeros, to which no other directory
  leads whose pages were in use before. -/
  stack : ∃ stack : ℕ → ℕ,
    (∀ va, STACK_BASE ≤ va → va < KOFFSET →
      translate m' cr3' va = some (4096 * stack (PTX va) + PGOFF va)) ∧
    (∀ j < 1024, stack j ∈ l ∧ m'.frames (stack j) = zeroFrame) ∧
    (∀ i < 1024, ∀ j < 1024, stack i = stack j → i = j) ∧
    ∀ e, (∀ x p, pageAt m e x = some p → p ∉ l) → ∀ x, ∀ j < 1024, pageAt m' e x ≠ some (stack j)
  kernel : ∀ i, 768 ≤ i → m'.entry (PGNUM cr3') i = m.entry (PGNUM cr3) i
  /-- Nothing that was in use has changed. -/
  kept : ∀ q, q ∉ l → m'.frames q = m.frames q

section Thread

variable {m m' : Memory} {l : List ℕ} {f d t : ℕ} {stack : ℕ → ℕ}

theorem stackIndex_eq : stackIndex = 767 := by decide

/-- **What `thread_copy` does.** -/
theorem threadCopy_made {k : Core} {pcb_index : ℤ} (hi : pcb_index ≠ k.procs.current)
    (haligned : PTE_ADDR k.procs.cur.cr3 = k.procs.cur.cr3) (hf : PGNUM k.procs.cur.cr3 < npages)
    (hl : FreeList k.mem l) (hfl : PGNUM k.procs.cur.cr3 ∉ l) (hlen : 1026 ≤ l.length) :
    ∃ d t m' stack l', threadCopy pcb_index k =
        some ⟨k.procs.modify pcb_index fun q => { q with cr3 := page2pa d }, m'⟩ ∧
      FreeList m' l' ∧ ThreadTaken l l' d t stack ∧
      ThreadMade k.mem (PGNUM k.procs.cur.cr3) l m' d t stack := by
  obtain ⟨f, hfe⟩ : ∃ f, f = PGNUM k.procs.cur.cr3 := ⟨_, rfl⟩
  rw [← hfe] at hf hfl ⊢
  obtain ⟨d, t, rest, rfl⟩ : ∃ d t rest, l = d :: t :: rest := by
    match l, hlen with
    | d :: t :: rest, _ => exact ⟨d, t, rest, rfl⟩
  have hlt := hl.lt
  have hnodup := hl.nodup
  have hd20 : d < 2 ^ 20 := Nat.lt_trans (hlt d (by simp)) (by decide)
  have ht20 : t < 2 ^ 20 := Nat.lt_trans (hlt t (by simp)) (by decide)
  have hf20 : f < 2 ^ 20 := Nat.lt_trans hf (by decide)
  obtain ⟨hd, hrest⟩ := List.nodup_cons.mp hnodup
  obtain ⟨ht, -⟩ := List.nodup_cons.mp hrest
  have hdt : d ≠ t := fun heq => hd (heq ▸ List.mem_cons_self ..)
  have hdr : d ∉ rest := fun hmem => hd (List.mem_cons_of_mem t hmem)
  have hfd : f ≠ d := fun heq => hfl (heq ▸ List.mem_cons_self ..)
  obtain ⟨m₁, hnew₁, hfree₁, hframes₁, -⟩ := hl.alloc
  have hfather :
      (k.procs.modify pcb_index fun q => { q with cr3 := cr3Val (page2pa d >>> 12) }).cur.cr3 +
      0xc0000000 = page2kva f := by
    have hcur : (k.procs.modify pcb_index fun q =>
        { q with cr3 := cr3Val (page2pa d >>> 12) }).cur = k.procs.cur :=
      Procs.pcb_table_modify_of_ne _ _ (Ne.symm hi)
    rw [hcur, hfe, page2kva, ← PTE_ADDR_eq, haligned]
    rfl
  -- the directory is copied
  have hcopy : m₁.memcpy (page2kva d) (page2kva f) (4 * 2 ^ 10) = m₁.setFrame d (m₁.frames f) :=
    Memory.memcpy_page hd20 hf20
  have hfree₂ : FreeList (m₁.setFrame d (m₁.frames f)) (t :: rest) :=
    hfree₁.congr rfl fun q _ => rfl
  obtain ⟨m₃, hnew₃, hfree₃, hframes₃, -⟩ := hfree₂.alloc
  have hindex : stackIndex < 1024 := by decide
  -- the entry of the stack is replaced
  obtain ⟨m₄, hm₄⟩ : ∃ m₄, m₄ = m₃.setEntry d stackIndex (page2pa t ||| 0x7) := ⟨_, rfl⟩
  have hfree₄ : FreeList m₄ rest := hm₄ ▸ hfree₃.congr rfl fun q _ => rfl
  have hself : m₄.entry d stackIndex = page2pa t ||| 0x7 := by
    rw [hm₄, Memory.entry_setEntry_self hindex]
  have hchild : PTE_ADDR (m₄.index (page2kva d) stackIndex) + KOFFSET = page2kva t := by
    rw [Memory.index_page hd20 hindex, hself, PTE_ADDR_eq, PGNUM_page2pa_or ht20, page2kva]
  have hlength : NR_PTE ≤ rest.length := by
    simp only [List.length_cons] at hlen
    show 1024 ≤ rest.length
    omega
  obtain ⟨m₅, hloop, h⟩ := stackMapped_loop hfree₄ ht20 ht hlength
  have hget : ∀ j < 1024, rest.getD j 0 ∈ rest := fun j hj => by
    rw [List.getD_eq_getElem rest 0 (Nat.lt_of_lt_of_le hj hlength)]
    exact List.getElem_mem _
  have hd₅ : ∀ i, m₅.entry d i = m₄.entry d i := Memory.entry_congr (h.kept d hdt hdr)
  have htaken : ThreadTaken (d :: t :: rest) (rest.drop NR_PTE) d t fun j => rest.getD j 0 := by
    refine ⟨⟨List.mem_cons_self .., fun hmem => hdr (List.mem_of_mem_drop hmem)⟩,
      ⟨fun hmem => ht (List.mem_of_mem_drop hmem), Ne.symm hdt⟩, fun j hj => ⟨fun hmem => ?_,
        fun heq => hdr (heq ▸ hget j hj), fun heq => ht (heq ▸ hget j hj)⟩, fun p hp => ?_⟩
    · have hj' : j < rest.length := Nat.lt_of_lt_of_le hj hlength
      rw [List.getD_eq_getElem rest 0 hj'] at hmem
      refine (List.disjoint_take_drop hrest.of_cons (Nat.le_refl NR_PTE)) ?_ hmem
      exact List.mem_take_iff_getElem.mpr ⟨j, Nat.lt_min.mpr ⟨hj, hj'⟩, rfl⟩
    · exact List.mem_cons_of_mem d (List.mem_cons_of_mem t (List.mem_of_mem_drop hp))
  refine ⟨d, t, m₅, fun j => rest.getD j 0, _, ?_, h.free, htaken, fun i hi => ?_, ?_, h.entry,
    ⟨by simp, fun j hj => ?_⟩, hlt, fun i hi j hj heq => ?_, h.zero, fun q hq => ?_⟩
  · rw [threadCopy, hnew₁, Option.bind_some]
    dsimp only
    rw [hfather, hcopy, hnew₃, Option.bind_some]
    dsimp only
    rw [Memory.setIndex_eq hd20 hindex, ← hm₄, hchild, hloop, Option.map_some, cr3Val_page2pa hd20]
  · rw [hd₅, hm₄, Memory.entry_setEntry_of_ne (.inr hi)]
    have hframe₃ : m₃.frames d = k.mem.frames f := by
      rw [hframes₃, Function.update_of_ne hdt, Memory.frames_setFrame, Function.update_self,
        hframes₁,
        Function.update_of_ne hfd]
    rw [Memory.entry, hframe₃, Memory.entry]
  · rw [hd₅, hself]
  · exact List.mem_cons_of_mem d (List.mem_cons_of_mem t (hget j hj))
  · have hi' : i < rest.length := Nat.lt_of_lt_of_le hi hlength
    have hj' : j < rest.length := Nat.lt_of_lt_of_le hj hlength
    have heq : rest.getD i 0 = rest.getD j 0 := heq
    rw [List.getD_eq_getElem rest 0 hi', List.getD_eq_getElem rest 0 hj'] at heq
    exact (List.nodup_cons.mp hrest).2.getElem_inj_iff.mp heq
  · simp only [List.mem_cons, not_or] at hq
    rw [h.kept q hq.2.1 hq.2.2, hm₄, Memory.frames_setEntry, Function.update_of_ne hq.1, hframes₃,
      Function.update_of_ne hq.2.1, Memory.frames_setFrame, Function.update_of_ne hq.1, hframes₁,
      Function.update_of_ne hq.1]

/-- A directory whose pages were in use leads where it led. -/
theorem ThreadMade.pageAt_eq (h : ThreadMade m f l m' d t stack) {e : ℕ}
    (he : ∀ x p, pageAt m e x = some p → p ∉ l) : pageAt m' e = pageAt m e :=
  pageAt_congr (h.kept e (he .dir e rfl)) fun i s hs => h.kept s (he (.table i) s hs)

/-- **The thread's address space.** -/
theorem ThreadMade.shares (h : ThreadMade m f l m' d t stack) (hd : d ∈ l) {cr3 : UInt32}
    (hcr3 : PGNUM cr3 = f) (hapart : ∀ x p, pageAt m f x = some p → p ∉ l) :
    SharesAllButStack m m' l cr3 (page2pa d) := by
  have hd20 : d < 2 ^ 20 := Nat.lt_trans (h.lt d hd) (by decide)
  have ht20 : t < 2 ^ 20 := Nat.lt_trans (h.lt t h.mem.1) (by decide)
  have hnum : PGNUM (page2pa d) = d := PGNUM_page2pa hd20
  refine ⟨fun va hva => ?_, fun va hva => ?_, ⟨stack, fun va hlo hva => ?_,
    fun j hj => ⟨h.mem.2 j hj, h.zero j hj⟩, h.inj, fun e he x j hj hx => ?_⟩, fun i hi => ?_,
    h.kept⟩
  · have hlt : va.toNat < 3217031168 := UInt32.lt_iff_toNat_lt.mp hva
    have hPDX := PDX_eq va
    have hne : PDX va ≠ stackIndex := by
      rw [stackIndex_eq]
      omega
    have htable : m'.target d (PDX va) = m.target f (PDX va) := by
      rw [Memory.target, Memory.target, h.entry _ hne]
    rw [translate, translate, hnum, hcr3, htable]
    cases ht : m.target f (PDX va) with
    | none => rfl
    | some s =>
      have hs : s ∉ l := hapart (.table ⟨PDX va, by omega⟩) s ht
      rw [Option.bind_some, Option.bind_some,
        Memory.target_congr (Memory.entry_congr (h.kept s hs) _)]
  · rw [translate_user hva, translate_user hva, hcr3, h.pageAt_eq hapart]
  · have hlo' : 3217031168 ≤ va.toNat := UInt32.le_iff_toNat_le.mp hlo
    have hva' : va.toNat < 0xC0000000 := UInt32.lt_iff_toNat_lt.mp hva
    have hPDX := PDX_eq va
    have heq : PDX va = stackIndex := by
      rw [stackIndex_eq]
      omega
    have hstack20 : stack (PTX va) < 2 ^ 20 :=
      Nat.lt_trans (h.lt _ (h.mem.2 _ (PTX_lt va))) (by decide)
    rw [translate, hnum, heq, Memory.target_page2pa h.table ht20, Option.bind_some,
      Memory.target_page2pa (h.frame _ (PTX_lt va)) hstack20, Option.map_some]
  · rw [h.pageAt_eq he] at hx
    exact he x _ hx (h.mem.2 j hj)
  · rw [hnum, hcr3, h.entry i (by rw [stackIndex_eq]; omega)]

end Thread

/-- **What a thread shares.** From any state in which the creator's pages are not on the free list
and at least 1026 pages are, `thread_copy` gives the thread the creator's memory with a stack of its
own. -/
theorem threadCopy_shares {k : Core} {l : List ℕ} {pcb_index : ℤ} (hi : pcb_index ≠ k.procs.current)
    (haligned : PTE_ADDR k.procs.cur.cr3 = k.procs.cur.cr3) (hf : PGNUM k.procs.cur.cr3 < npages)
    (hl : FreeList k.mem l)
    (hapart : ∀ x p, pageAt k.mem (PGNUM k.procs.cur.cr3) x = some p → p ∉ l)
    (hlen : 1026 ≤ l.length) :
    ∃ k', threadCopy pcb_index k = some k' ∧
      SharesAllButStack k.mem k'.mem l k.procs.cur.cr3 (k'.procs.pcb_table pcb_index).cr3 := by
  obtain ⟨d, t, m', stack, l', hcopy, -, htaken, h⟩ :=
    threadCopy_made hi haligned hf hl (hapart .dir _ rfl) hlen
  have hd := htaken.dir.1
  refine ⟨_, hcopy, ?_⟩
  dsimp only
  rw [Procs.pcb_table_modify_self]
  exact h.shares hd rfl hapart

/-- A machine that has just started, with one process that has a page at `0x400000`. -/
def threadCore : Core :=
  ⟨⟨fun _ => smallPCB, 0⟩, pageInit { smallMemory with page_free_list := none }⟩

theorem threadCopy_shares_small :
    ∃ l, FreeList threadCore.mem l ∧ ∃ k', threadCopy 1 threadCore = some k' ∧
      SharesAllButStack threadCore.mem k'.mem l (page2pa 5) (k'.procs.pcb_table 1).cr3 := by
  obtain ⟨l, hl, hmem, -, hframes⟩ :=
    freeList_pageInit (m := { smallMemory with page_free_list := none }) rfl
  have hnum : PGNUM threadCore.procs.cur.cr3 = 5 := PGNUM_page2pa (by decide)
  have hmem₀ : threadCore.mem = pageInit { smallMemory with page_free_list := none } := rfl
  have hkept : ∀ q, threadCore.mem.frames q = smallMemory.frames q := fun q => by
    rw [hmem₀, hframes]
  have hsame : pageAt threadCore.mem 5 = pageAt smallMemory 5 :=
    pageAt_congr (hkept 5) fun _ s _ => hkept s
  have hlen : 1026 ≤ l.length := by
    rw [hl.length_eq hmem]
    decide
  refine ⟨l, hl, threadCopy_shares (k := threadCore) (by decide) (by decide) ?_ hl
    (fun x p hx hp => ?_) hlen⟩
  · rw [hnum]
    decide
  · rw [hnum, hsame] at hx
    have hle : 1024 < p := ((hmem p).mp hp).1
    rcases pageAt_smallMemory hx with ⟨-, rfl⟩ | ⟨-, rfl⟩ | ⟨-, rfl⟩ <;> omega

end OsLab

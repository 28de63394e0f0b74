import OsLab.Memory.LoaderImage
import OsLab.Memory.ThreadCopy
import OsLab.Process.Boot

/-!
# Process creation that fails

`process_fork` and `create_thread` with the memory they allocate. Neither of them looks at what it
is given: `get_pcb` returns an uninitialised local, `garbage`, when no slot is free, and the process
is made in that slot; `page_alloc` returns `NULL` when the free list is empty, and the code writes
`pp_ref` through it.

So there is no way for creation to fail that leaves things as they are. It either has the pages, and
takes them (`CreatedIn`), or it dereferences `NULL`.

## Main definitions

* `forkCore` — `process_fork` up to its call of `schedule`, `none` when `NULL` is dereferenced
* `createThreadCore` — `create_thread`, `none` when `NULL` is dereferenced
* `FailsCleanly` — a call returns, and has changed nothing
* `CreatedIn` — a process has been made in the given slot, and its directory taken off the free list
* `FailsBadly` — `NULL` is dereferenced, or the process is made in a slot that is not free

## Main results

* `creation_not_clean` — in every state in which creation should fail it does one or the other
-/

namespace OsLab

/-! ## The code -/

/-- `process_fork` up to its call of `schedule`, `none` when `NULL` is dereferenced. -/
def forkCore (garbage : ℤ) (k : Core) : Option Core :=
  let p := forkCaller k.procs
  let c := getPcbOr garbage p.pcb_table
  let p := p.modify c fun q => processReady (pcbNew (-1) p.cur.pid c q)
  (copy c ⟨p, k.mem⟩).map fun k =>
    ⟨k.procs.modify c fun q => { q with fcb := copyFcb k.procs.cur.fcb q.fcb, eax := -1 }, k.mem⟩

/-- `process_fork`, which ends with `schedule`. -/
def processForkCore (garbage : ℤ) (k : Core) : Option Core :=
  (forkCore garbage k).bind fun k => (schedule k.procs).map fun p => ⟨p, k.mem⟩

/-- `create_thread`, `none` when `NULL` is dereferenced. -/
def createThreadCore (garbage : ℤ) (k : Core) : Option Core :=
  let c := getPcbOr garbage k.procs.pcb_table
  let p := k.procs.modify c fun q => processReady (pcbNew (-2) k.procs.cur.pid c q)
  threadCopy c ⟨p, k.mem⟩

/-! ## The free list -/

section Free

variable {k k' : Core} {m m' : Memory} {l : List ℕ} {c garbage : ℤ} {t tf : UInt32} {i j : ℕ}

theorem copyFrame_free (h : FreeList m l) (hr : copyFrame t tf j m = some m') :
    ∃ l', FreeList m' l' ∧ l' <:+ l := by
  rw [copyFrame] at hr
  split at hr
  · obtain ⟨⟨p, m₁⟩, hnew, rfl⟩ := Option.map_eq_some_iff.mp hr
    obtain ⟨l', rfl, hfree⟩ := h.of_newPage hnew
    exact ⟨l', (hfree.setIndex ..).memcpy .., List.suffix_cons p l'⟩
  · obtain rfl := Option.some.inj hr
    exact ⟨l, h, List.suffix_rfl⟩

theorem copyTable_free (h : FreeList m l) (hr : copyTable t tf i m = some m') :
    ∃ l', FreeList m' l' ∧ l' <:+ l := by
  rw [copyTable] at hr
  split at hr
  · obtain ⟨⟨p, m₁⟩, hnew, hloop⟩ := Option.bind_eq_some_iff.mp hr
    obtain ⟨l₁, rfl, hfree⟩ := h.of_newPage hnew
    refine countUpM_of_eq_some (P := fun _ m => ∃ l', FreeList m l' ∧ l' <:+ p :: l₁)
      ⟨l₁, hfree.setIndex .., List.suffix_cons p l₁⟩ ?_ hloop
    rintro j - m₂ m₃ ⟨l₂, h₂, hs₂⟩ hr
    obtain ⟨l₃, h₃, hs₃⟩ := copyFrame_free h₂ hr
    exact ⟨l₃, h₃, hs₃.trans hs₂⟩
  · obtain rfl := Option.some.inj hr
    exact ⟨l, h, List.suffix_rfl⟩

/-- **`copy`** takes pages off the list, at least the first, for the directory. -/
theorem copy_free {procs : Procs} (h : FreeList m l) (hr : copy c ⟨procs, m⟩ = some k') :
    ∃ d rest l', l = d :: rest ∧ FreeList k'.mem l' ∧ l' <:+ rest ∧
      k'.procs = procs.modify c fun q => { q with cr3 := page2pa d } := by
  obtain ⟨⟨d, m₁⟩, hnew, hr⟩ := Option.bind_eq_some_iff.mp hr
  obtain ⟨rest, rfl, hfree⟩ := h.of_newPage hnew
  obtain ⟨m₂, hloop, rfl⟩ := Option.map_eq_some_iff.mp hr
  have hd20 : d < 2 ^ 20 := Nat.lt_trans (h.lt d (List.mem_cons_self ..)) (by decide)
  obtain ⟨l', hl', hsuffix⟩ : ∃ l', FreeList m₂ l' ∧ l' <:+ rest := by
    refine countUpM_of_eq_some (P := fun _ m => ∃ l', FreeList m l' ∧ l' <:+ rest)
      ⟨rest, hfree.memcpy .., List.suffix_rfl⟩ ?_ hloop
    rintro i - m₃ m₄ ⟨l₃, h₃, hs₃⟩ hr
    obtain ⟨l₄, h₄, hs₄⟩ := copyTable_free h₃ hr
    exact ⟨l₄, h₄, hs₄.trans hs₃⟩
  exact ⟨d, rest, l', rfl, hl', hsuffix, by rw [cr3Val_page2pa hd20]⟩

/-- The loop of `thread_copy` takes one page in each round, or fails. -/
theorem threadFrames_cases (h : FreeList m l) (t : UInt32) (n : ℕ) :
    (∃ m', countUpM (threadFrame t) m n = some m' ∧ n ≤ l.length ∧ FreeList m' (l.drop n)) ∨
      countUpM (threadFrame t) m n = none ∧ l.length < n := by
  refine countUpM_or (P := fun j m => j ≤ l.length ∧ FreeList m (l.drop j)) ⟨Nat.zero_le _, h⟩ ?_
  rintro j hj m₁ ⟨hle, hfree⟩
  rcases Nat.lt_or_ge j l.length with hlt | hge
  · rw [List.drop_eq_getElem_cons hlt] at hfree
    obtain ⟨m₂, hnew, hfree₂, -⟩ := hfree.alloc
    refine .inl ⟨_, ?_, hlt, hfree₂.setIndex t j (page2pa l[j] ||| 0x7)⟩
    rw [threadFrame, hnew, Option.map_some]
  · rw [List.drop_eq_nil_of_le hge] at hfree
    exact .inr ⟨by rw [threadFrame, hfree.newPage_nil, Option.map_none], by omega⟩

/-- **`thread_copy`** takes the first 1026 pages of the list, or fails. -/
theorem threadCopy_cases (h : FreeList m l) (c : ℤ) (procs : Procs) :
    (∃ d k', threadCopy c ⟨procs, m⟩ = some k' ∧ 1026 ≤ l.length ∧ d ∈ l ∧ d ∉ l.drop 1026 ∧
      FreeList k'.mem (l.drop 1026) ∧
      k'.procs = procs.modify c fun q => { q with cr3 := page2pa d }) ∨
      threadCopy c ⟨procs, m⟩ = none ∧ l.length < 1026 := by
  match l, h with
  | [], h => exact .inr ⟨by rw [threadCopy, h.newPage_nil, Option.bind_none], by decide⟩
  | [d], h =>
    obtain ⟨m₁, hnew₁, hfree₁, -⟩ := h.alloc
    refine .inr ⟨?_, (by decide : 1 < 1026)⟩
    rw [threadCopy, hnew₁, Option.bind_some]
    dsimp only
    rw [(hfree₁.memcpy ..).newPage_nil, Option.bind_none]
  | d :: t :: rest, h =>
    have hd20 : d < 2 ^ 20 := Nat.lt_trans (h.lt d (List.mem_cons_self ..)) (by decide)
    obtain ⟨hd, -⟩ := List.nodup_cons.mp h.nodup
    obtain ⟨m₁, hnew₁, hfree₁, -⟩ := h.alloc
    rw [threadCopy, hnew₁, Option.bind_some, cr3Val_page2pa hd20]
    dsimp only
    generalize hm : m₁.memcpy _ _ _ = m
    obtain ⟨m₂, hnew₂, hfree₂, -⟩ := (hm ▸ hfree₁.memcpy .. : FreeList m (t :: rest)).alloc
    rw [hnew₂, Option.bind_some]
    dsimp only
    generalize PTE_ADDR _ + KOFFSET = child_t
    refine (threadFrames_cases (hfree₂.setIndex (page2kva d) stackIndex (page2pa t ||| 0x7)) child_t
      NR_PTE).imp ?_ ?_
    · rintro ⟨m₃, hloop, hle, hfree₃⟩
      refine ⟨d, _, by rw [hloop, Option.map_some], Nat.add_le_add_right hle 2,
        List.mem_cons_self .., fun hmem => hd ?_, hfree₃, rfl⟩
      exact List.mem_cons_of_mem t (List.mem_of_mem_drop hmem)
    · rintro ⟨hnone, hlt⟩
      exact ⟨by rw [hnone, Option.map_none], Nat.add_lt_add_right hlt 2⟩

end Free

/-! ## Failing cleanly -/

/-- `p` is on the free list. -/
def Free (m : Memory) (p : ℕ) : Prop := ∃ l, FreeList m l ∧ p ∈ l

/-- Nothing has changed but the caller's result register. -/
structure NothingChanged (k k' : Core) : Prop where
  pcb : ∀ i, 0 ≤ i → i < MAX_PCB → (k.procs.pcb_table i).status ≠ -1 → i ≠ k.procs.current →
    k'.procs.pcb_table i = k.procs.pcb_table i
  caller : ∃ eax, k'.procs.pcb_table k.procs.current = { k.procs.cur with eax := eax }
  /-- The pages of a process, its directory and tables among them. -/
  pages : ∀ i, 0 ≤ i → i < MAX_PCB → (k.procs.pcb_table i).status ≠ -1 →
    ∀ x p, pageAt k.mem (PGNUM (k.procs.pcb_table i).cr3) x = some p →
      k'.mem.frames p = k.mem.frames p
  free : ∀ p, Free k'.mem p ↔ Free k.mem p

/-- A call returns, and has changed nothing. -/
def FailsCleanly (k : Core) (r : Option Core) : Prop := ∃ k', r = some k' ∧ NothingChanged k k'

/-- Every slot is taken. -/
def NoSlot (p : Procs) : Prop := ∀ i, 0 ≤ i → i < MAX_PCB → (p.pcb_table i).status ≠ -1

/-- A process has been made in the given slot, and its directory taken off the free list. -/
structure CreatedIn (pid slot : ℤ) (k k' : Core) : Prop where
  pid : (k'.procs.pcb_table slot).pid = pid
  status : (k'.procs.pcb_table slot).status = Ready
  taken : ∃ d, Free k.mem d ∧ ¬Free k'.mem d ∧ (k'.procs.pcb_table slot).cr3 = page2pa d

/-- `NULL` is dereferenced, or the process is made in a slot that is not free. -/
def FailsBadly (pid garbage : ℤ) (k : Core) (r : Option Core) : Prop :=
  r = none ∨ NoSlot k.procs ∧ ∃ k', r = some k' ∧ CreatedIn pid garbage k k'

section Creation

variable {k k' : Core} {m : Memory} {l l' : List ℕ} {pid slot garbage : ℤ} {p : ℕ}

theorem FreeList.free_iff (h : FreeList m l) : Free m p ↔ p ∈ l := by
  constructor
  · rintro ⟨l', h', hp⟩
    rwa [h.linked.unique h'.linked]
  · exact fun hp => ⟨l, h, hp⟩

theorem CreatedIn.not_nothingChanged (h : CreatedIn pid slot k k') : ¬NothingChanged k k' := by
  obtain ⟨d, hfree, htaken, -⟩ := h.taken
  exact fun hu => htaken ((hu.free d).mpr hfree)

/-- `get_pcb` returns `garbage`. -/
theorem NoSlot.getPcbOr (h : NoSlot k.procs) : getPcbOr garbage k.procs.pcb_table = garbage := by
  have hnone : getPcb k.procs.pcb_table = none :=
    findSlot_eq_none.mpr fun j hj hlt => decide_eq_false (h j hj hlt)
  rw [OsLab.getPcbOr, hnone]
  rfl

/-- In `process_fork` it does so too. -/
theorem NoSlot.forkSlot (h : NoSlot k.procs) : forkSlot garbage k.procs = garbage := by
  have hcaller : NoSlot (⟨forkCaller k.procs, k.mem⟩ : Core).procs := fun i hi hlt => by
    show ((forkCaller k.procs).pcb_table i).status ≠ -1
    rw [forkCaller]
    rcases eq_or_ne i k.procs.current with rfl | hne
    · rw [Procs.pcb_table_modify_self]
      exact (by decide : Ready ≠ -1)
    · rw [Procs.pcb_table_modify_of_ne _ _ hne]
      exact h i hi hlt
  exact hcaller.getPcbOr

/-- The process that forks is not in the slot that is found. -/
theorem forkSlot_ne_current {i : ℤ} (hi : 0 ≤ i) (hlt : i < MAX_PCB)
    (hfree : (k.procs.pcb_table i).status = -1) (hcur : k.procs.cur.status ≠ -1) :
    forkSlot garbage k.procs ≠ k.procs.current := by
  have hne : i ≠ k.procs.current := by
    rintro rfl
    exact hcur hfree
  have hfree' : ((forkCaller k.procs).pcb_table i).status = -1 := by
    rw [forkCaller, Procs.pcb_table_modify_of_ne _ _ hne, hfree]
  obtain ⟨c, hc⟩ := exists_getPcb hi hlt hfree'
  obtain ⟨-, -, hstatus, -⟩ := getPcb_eq_some hc
  rw [forkSlot, getPcbOr, hc, Option.getD_some]
  rintro rfl
  rw [forkCaller, Procs.pcb_table_modify_self] at hstatus
  exact absurd (show Ready = -1 from hstatus) (by decide)

/-! ### `process_fork` -/

/-- What `process_fork` does to the process table. -/
theorem forkCore_eq_some (hl : FreeList k.mem l) (h : forkCore garbage k = some k') :
    ∃ d rest l', l = d :: rest ∧ FreeList k'.mem l' ∧ l' <:+ rest ∧
      k'.procs = forkChild (page2pa d) garbage k.procs := by
  rw [forkCore] at h
  obtain ⟨k₁, hcopy, rfl⟩ := Option.map_eq_some_iff.mp h
  obtain ⟨d, rest, l', hlist, hl', hsuffix, hprocs⟩ := copy_free hl hcopy
  have hnew : k₁.procs =
      newProcess (-1) (forkSlot garbage k.procs) (page2pa d) (forkCaller k.procs) := by
    rw [hprocs, Procs.modify_modify]
    rfl
  refine ⟨d, rest, l', hlist, hl', hsuffix, ?_⟩
  rw [forkChild, ← hnew]
  rfl

theorem forkCore_created (hl : FreeList k.mem l) (h : forkCore garbage k = some k') :
    CreatedIn (-1) (forkSlot garbage k.procs) k k' := by
  obtain ⟨d, rest, l', rfl, hl', hsuffix, hprocs⟩ := forkCore_eq_some hl h
  have hd : d ∉ l' := fun hmem => (List.nodup_cons.mp hl.nodup).1 (hsuffix.subset hmem)
  rw [forkChild, newProcess, Procs.modify_modify] at hprocs
  refine ⟨?_, ?_, d, hl.free_iff.mpr (List.mem_cons_self ..), fun hfree =>
    hd (hl'.free_iff.mp hfree),
    ?_⟩ <;> rw [hprocs, Procs.pcb_table_modify_self] <;> rfl

/-- `process_fork` in terms of `copy`, which finds the caller's address space as it was. -/
theorem forkCore_eq_copy (garbage : ℤ) (k : Core) :
    ∃ p : Procs, p.current = k.procs.current ∧ p.cur.cr3 = k.procs.cur.cr3 ∧
      (copy (forkSlot garbage k.procs) ⟨p, k.mem⟩ = none → forkCore garbage k = none) ∧
      ∀ d m, copy (forkSlot garbage k.procs) ⟨p, k.mem⟩ =
          some ⟨p.modify (forkSlot garbage k.procs) fun q => { q with cr3 := page2pa d }, m⟩ →
        forkCore garbage k = some ⟨forkChild (page2pa d) garbage k.procs, m⟩ := by
  have hcaller : ∀ j, ((forkCaller k.procs).pcb_table j).cr3 = (k.procs.pcb_table j).cr3 :=
    Procs.modify_frame (g := PCB.cr3) fun q => rfl
  refine ⟨(forkCaller k.procs).modify (forkSlot garbage k.procs) fun q =>
      processReady (pcbNew (-1) (forkCaller k.procs).cur.pid (forkSlot garbage k.procs) q),
    rfl, ?_, fun hnone => ?_, fun d m hcopy => ?_⟩
  · exact (Procs.modify_frame (g := PCB.cr3) (fun q => by rfl) _).trans (hcaller _)
  · exact Option.map_eq_none_iff.mpr hnone
  · rw [Procs.modify_modify] at hcopy
    exact Option.map_eq_some_iff.mpr ⟨_, hcopy, rfl⟩

/-- The memory of a process that forks: his pages are pages of memory, and not on the free list. -/
theorem forkCore_cases (hs : Space k.mem k.procs.cur.cr3) (hl : FreeList k.mem l)
    (hapart : ∀ x p, pageAt k.mem (PGNUM k.procs.cur.cr3) x = some p → p ∉ l)
    (hslot : forkSlot garbage k.procs ≠ k.procs.current) :
    (∃ d m l', forkCore garbage k = some ⟨forkChild (page2pa d) garbage k.procs, m⟩ ∧
      d < npages ∧ Grown k.mem l (PGNUM k.procs.cur.cr3) d
        (positions k.mem (PGNUM k.procs.cur.cr3)) m l') ∨
      forkCore garbage k = none ∧ l.length < (positions k.mem (PGNUM k.procs.cur.cr3)).card := by
  obtain ⟨p, hcur, hcr3, hnone, hsome⟩ := forkCore_eq_copy garbage k
  rw [← hcur] at hslot
  rw [← hcr3] at hs hapart ⊢
  rcases copy_cases (k := ⟨p, k.mem⟩) hslot hs hl hapart with
    ⟨d, m, l', hcopy, hd, hg⟩ | ⟨hcopy, hfew⟩
  · exact .inl ⟨d, m, l', hsome d m hcopy, hd, hg⟩
  · exact .inr ⟨hnone hcopy, hfew⟩

theorem forkCore_eq_none (hs : Space k.mem k.procs.cur.cr3) (hl : FreeList k.mem l)
    (hapart : ∀ x p, pageAt k.mem (PGNUM k.procs.cur.cr3) x = some p → p ∉ l)
    (hfew : l.length < (positions k.mem (PGNUM k.procs.cur.cr3)).card)
    (hslot : forkSlot garbage k.procs ≠ k.procs.current) : forkCore garbage k = none := by
  rcases forkCore_cases hs hl hapart hslot with ⟨d, m, l', -, -, hg⟩ | ⟨hnone, -⟩
  · have hcount := hg.count
    omega
  · exact hnone

/-! ### `create_thread` -/

/-- What `create_thread` does to the process table. -/
theorem createThreadCore_cases (hl : FreeList k.mem l) (garbage : ℤ) :
    (∃ d k', createThreadCore garbage k = some k' ∧ 1026 ≤ l.length ∧ d ∈ l ∧ d ∉ l.drop 1026 ∧
      FreeList k'.mem (l.drop 1026) ∧ k'.procs = createThread (page2pa d) garbage k.procs) ∨
      createThreadCore garbage k = none ∧ l.length < 1026 := by
  refine (threadCopy_cases hl _ _).imp_left ?_
  rintro ⟨d, k', hcopy, hlen, hd, hdrop, hl', hprocs⟩
  refine ⟨d, k', hcopy, hlen, hd, hdrop, hl', ?_⟩
  rw [hprocs, Procs.modify_modify]
  rfl

/-- What it does to memory. -/
theorem createThreadCore_made (haligned : PTE_ADDR k.procs.cur.cr3 = k.procs.cur.cr3)
    (hf : PGNUM k.procs.cur.cr3 < npages) (hl : FreeList k.mem l)
    (hfl : PGNUM k.procs.cur.cr3 ∉ l)
    (hslot : getPcbOr garbage k.procs.pcb_table ≠ k.procs.current)
    (h : createThreadCore garbage k = some k') :
    ∃ d t stack l', k'.procs = createThread (page2pa d) garbage k.procs ∧ FreeList k'.mem l' ∧
      ThreadTaken l l' d t stack ∧
      ThreadMade k.mem (PGNUM k.procs.cur.cr3) l k'.mem d t stack := by
  obtain ⟨p, hp⟩ : ∃ p, p = k.procs.modify (getPcbOr garbage k.procs.pcb_table) fun q =>
      processReady (pcbNew (-2) k.procs.cur.pid (getPcbOr garbage k.procs.pcb_table) q) := ⟨_, rfl⟩
  have hcur : p.current = k.procs.current := by
    rw [hp]
    rfl
  have hcr3 : p.cur.cr3 = k.procs.cur.cr3 := by
    rw [hp]
    exact Procs.modify_frame (g := PCB.cr3) (fun q => by rfl) _
  rw [← hcur] at hslot
  rw [← hcr3] at haligned hf hfl ⊢
  rcases createThreadCore_cases hl garbage with ⟨-, -, -, hlen, -⟩ | ⟨hnone, -⟩
  · obtain ⟨d, t, m', stack, l', hcopy, hfree, htaken, hmade⟩ :=
      threadCopy_made (k := ⟨p, k.mem⟩) hslot haligned hf hl hfl hlen
    rw [createThreadCore, ← hp, hcopy] at h
    obtain rfl := Option.some.inj h
    refine ⟨d, t, stack, l', ?_, hfree, htaken, hmade⟩
    rw [createThread, newProcess, hp, Procs.modify_modify]
  · rw [hnone] at h
    exact absurd h.symm (Option.some_ne_none k')

theorem createThreadCore_created (hl : FreeList k.mem l)
    (h : createThreadCore garbage k = some k') :
    CreatedIn (-2) (getPcbOr garbage k.procs.pcb_table) k k' := by
  rcases createThreadCore_cases hl garbage with ⟨d, k₁, hk₁, -, hd, hdrop, hl', hprocs⟩ | ⟨hnone, -⟩
  · obtain rfl : k₁ = k' := Option.some.inj (hk₁.symm.trans h)
    rw [createThread, newProcess] at hprocs
    refine ⟨?_, ?_, d, hl.free_iff.mpr hd, fun hfree => hdrop (hl'.free_iff.mp hfree), ?_⟩ <;>
      rw [hprocs, Procs.pcb_table_modify_self] <;> rfl
  · rw [hnone] at h
    exact absurd h.symm (Option.some_ne_none k')

end Creation

/-- **Creation does not fail cleanly.** In every state in which no slot is free, or too few pages
are, `process_fork` and `create_thread` dereference `NULL` or make the process in a slot that is
taken, and take its pages off the free list. -/
theorem creation_not_clean {k : Core} {l : List ℕ} (hcur : k.procs.cur.status ≠ -1)
    (hs : Space k.mem k.procs.cur.cr3) (hl : FreeList k.mem l)
    (hapart : ∀ x p, pageAt k.mem (PGNUM k.procs.cur.cr3) x = some p → p ∉ l) (garbage : ℤ) :
    (NoSlot k.procs ∨ l.length < (positions k.mem (PGNUM k.procs.cur.cr3)).card →
      FailsBadly (-1) garbage k (forkCore garbage k) ∧
      ¬FailsCleanly k (processForkCore garbage k)) ∧
    (NoSlot k.procs ∨ l.length < 1026 →
      FailsBadly (-2) garbage k (createThreadCore garbage k) ∧
      ¬FailsCleanly k (createThreadCore garbage k)) := by
  refine ⟨fun hfail => ⟨?_, ?_⟩, fun hfail => ⟨?_, ?_⟩⟩
  · rcases hr : forkCore garbage k with _ | k'
    · exact .inl rfl
    · have hcreated := forkCore_created hl hr
      by_cases hno : NoSlot k.procs
      · rw [hno.forkSlot] at hcreated
        exact .inr ⟨hno, k', rfl, hcreated⟩
      · -- a slot is free, so there are too few pages
        have hfew := hfail.resolve_left hno
        simp only [NoSlot, not_forall, not_not] at hno
        obtain ⟨i, hi, hlt, hfree⟩ := hno
        rw [forkCore_eq_none hs hl hapart hfew (forkSlot_ne_current hi hlt hfree hcur)] at hr
        exact absurd hr.symm (Option.some_ne_none k')
  · rintro ⟨k', hr, hu⟩
    obtain ⟨k₁, hk₁, hsched⟩ := Option.bind_eq_some_iff.mp hr
    obtain ⟨p, -, rfl⟩ := Option.map_eq_some_iff.mp hsched
    obtain ⟨d, hd, htaken, -⟩ := (forkCore_created hl hk₁).taken
    exact htaken ((hu.free d).mpr hd)
  · rcases hr : createThreadCore garbage k with _ | k'
    · exact .inl rfl
    · have hcreated := createThreadCore_created hl hr
      rcases hfail with hno | hfew
      · rw [hno.getPcbOr] at hcreated
        exact .inr ⟨hno, k', rfl, hcreated⟩
      · rcases createThreadCore_cases hl garbage with ⟨d, k₁, -, hlen, -⟩ | ⟨hnone, -⟩
        · omega
        · rw [hnone] at hr
          exact absurd hr.symm (Option.some_ne_none k')
  · rintro ⟨k', hr, hu⟩
    exact (createThreadCore_created hl hr).not_nothingChanged hu

/-- All slots are taken by processes that run in the memory of `smallCore`. -/
theorem creation_not_clean_small :
    (FailsBadly (-1) 2 smallCore (forkCore 2 smallCore) ∧
      ¬FailsCleanly smallCore (processForkCore 2 smallCore)) ∧
    FailsBadly (-2) 2 smallCore (createThreadCore 2 smallCore) ∧
      ¬FailsCleanly smallCore (createThreadCore 2 smallCore) := by
  have hno : NoSlot smallCore.procs := fun _ _ _ => (by decide : Running ≠ -1)
  obtain ⟨hfork, hthread⟩ := creation_not_clean (k := smallCore) (by decide : Running ≠ -1)
    space_smallMemory freeList_smallMemory apart_smallMemory 2
  exact ⟨hfork (.inl hno), hthread (.inl hno)⟩

/-! ## Threads until the pages run out -/

/-- `n` calls of `create_thread`. -/
def createThreads (garbage : ℤ) (k : Core) (n : ℕ) : Option Core :=
  countUpM (fun _ => createThreadCore garbage) k n

/-- Each call takes 1026 pages. -/
theorem createThreads_ends {k : Core} {l : List ℕ} (hl : FreeList k.mem l) (garbage : ℤ) {n : ℕ}
    (hn : 1026 * n ≤ l.length) :
    ∃ k', createThreads garbage k n = some k' ∧ FreeList k'.mem (l.drop (1026 * n)) := by
  refine countUpM_induction (P := fun n (k : Core) => FreeList k.mem (l.drop (1026 * n)))
    hl ?_
  intro i hi k₁ h
  have hlen : 1026 ≤ (l.drop (1026 * i)).length := by
    rw [List.length_drop]
    omega
  rcases createThreadCore_cases h garbage with ⟨d, k₂, hk₂, -, -, -, hfree, -⟩ | ⟨-, hfew⟩
  · rw [List.drop_drop] at hfree
    exact ⟨k₂, hk₂, hfree⟩
  · omega

/-- The game runs, before it has been given any memory. -/
def gameCore : Core :=
  ⟨⟨slotTable [processReady idlePcb, { gameRunning with cr3 := page2pa bootTables.updir }], 1⟩,
    pageInit (initMm bootTables bootMemory)⟩

/-- After 30 threads there are not enough pages for another. -/
theorem createThread_not_clean :
    ∃ k l, createThreads 0 gameCore 30 = some k ∧ FreeList k.mem l ∧ l.length < 1026 ∧
      ¬FailsCleanly k (createThreadCore 0 k) := by
  obtain ⟨l, hl⟩ := loadStart_pageInit bootTables bootMemory rfl
  have hlen : l.length = 31743 := hl.length
  obtain ⟨k, hk, hfree⟩ := createThreads_ends (k := gameCore) hl.free 0 (n := 30) (by omega)
  have hfew : (l.drop (1026 * 30)).length < 1026 := by
    rw [List.length_drop]
    omega
  refine ⟨k, _, hk, hfree, hfew, ?_⟩
  rintro ⟨k', hr, -⟩
  rcases createThreadCore_cases hfree 0 with ⟨d, k₁, -, henough, -⟩ | ⟨hnone, -⟩
  · omega
  · rw [hnone] at hr
    exact absurd hr.symm (Option.some_ne_none k')

end OsLab

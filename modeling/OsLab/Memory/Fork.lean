import OsLab.Memory.Copy
import OsLab.Memory.UserWrites

/-!
# The child's address space

What `copy` leaves behind: the child's tree is the father's, with other pages, so that the child
finds at every user address what the father finds there, and what one of them writes later does not
concern the other.

## Main results

* `copy_isolates` — the child's address space is equal to the father's and apart from it
-/

namespace OsLab

/-- `b` is an address space of its own that equals `a`; the pages it has come from `l`. `m` is
memory before it was made, and `m'` after. -/
structure Isolated (m m' : Memory) (l : List ℕ) (a b : UInt32) : Prop where
  mapped : ∀ va < KOFFSET, (translate m' b va).isSome = (translate m a va).isSome
  byte : ∀ va < KOFFSET, userByte m' b va = userByte m a va
  fresh : ∀ x p, pageAt m' (PGNUM b) x = some p → p ∈ l
  distinct : ∀ x y p, pageAt m' (PGNUM b) x = some p → pageAt m' (PGNUM b) y = some p → x = y
  apart : PagesApart m' (PGNUM a) (PGNUM b)
  /-- The father's directory, tables and frames are unchanged. -/
  father : ∀ x p, pageAt m (PGNUM a) x = some p → m'.frames p = m.frames p ∧ m'.pages p = m.pages p
  kernel : ∀ i, 768 ≤ i → i < 800 → m'.entry (PGNUM b) i = m.entry (PGNUM a) i
  /-- The child does not see what the father writes, -/
  child_reads : ∀ va < KOFFSET, ∀ v, ∀ vb < KOFFSET,
    userByte (userWrite a va v m') b vb = userByte m' b vb
  /-- nor the father what the child writes. -/
  father_reads : ∀ va < KOFFSET, ∀ v, ∀ vb < KOFFSET,
    userByte (userWrite b va v m') a vb = userByte m' a vb
  /-- They do not see it either when both go on writing, unless the father has his own tables mapped
  and changes them. -/
  interleaved : Plain m (PGNUM a) → ∀ ws : List Store, (∀ w ∈ ws, w.cr3 = a ∨ w.cr3 = b) →
    ∀ va < KOFFSET,
      userByte (userWrites m' ws) a va =
        userByte (userWrites m' (ws.filter fun w => w.cr3 = a)) a va ∧
      userByte (userWrites m' ws) b va =
        userByte (userWrites m' (ws.filter fun w => w.cr3 = b)) b va

section Tree

variable {m₀ m : Memory} {l₀ l : List ℕ} {f d : ℕ}

/-- The father's tree is what it was. -/
theorem Grown.pageAt_father {S : Finset Pos} (h : Grown m₀ l₀ f d S m l) (ha : Apart m₀ f l₀) :
    pageAt m f = pageAt m₀ f :=
  pageAt_eq_of_frames fun _ _ hx => h.father ha hx

theorem Grown.pagesApart {S : Finset Pos} (h : Grown m₀ l₀ f d S m l) (ha : Apart m₀ f l₀) :
    PagesApart m f d := by
  intro x y p hx hy
  rw [h.pageAt_father ha] at hx
  exact (ha x p hx).1 (h.mem_of_pageAt hy)

/-- The child's tree has no page in two places. -/
theorem Grown.plain {S : Finset Pos} (h : Grown m₀ l₀ f d S m l) : Plain m d := by
  refine fun i j p hp => ⟨h.ne_of_ne hp (pageAt_dir m d) (Pos.frame_ne_dir i j), fun k hk => ?_⟩
  exact h.ne_of_ne hp hk (Pos.frame_ne_table i k j) rfl

/-- The child has a page where the father has one. -/
theorem Grown.isSome_pageAt (h : Grown m₀ l₀ f d (positions m₀ f) m l) (x : Pos) :
    (pageAt m d x).isSome = (pageAt m₀ f x).isSome := by
  rw [Bool.eq_iff_iff, ← h.dom x, mem_positions]

/-- The child's bytes are the father's. -/
theorem Grown.frames_eq (h : Grown m₀ l₀ f d (positions m₀ f) m l) (i : Fin 768) (j : Fin 1024) :
    (pageAt m d (.frame i j)).map m.frames = (pageAt m₀ f (.frame i j)).map m₀.frames := by
  have hsome := h.isSome_pageAt (.frame i j)
  cases hq : pageAt m₀ f (.frame i j) with
  | none =>
    rw [hq, Option.isSome_none] at hsome
    have hp : pageAt m d (.frame i j) = none := by
      rw [← Option.not_isSome_iff_eq_none, hsome]
      exact Bool.false_ne_true
    rw [hp]
    rfl
  | some q =>
    rw [hq] at hsome
    obtain ⟨p, hp⟩ := Option.isSome_iff_exists.mp hsome
    rw [hp, Option.map_some, Option.map_some, h.frame i j p q hp hq]

end Tree

/-- **`fork` makes an equal but isolated address space.** -/
theorem copy_isolates {k : Core} {l : List ℕ} {pcb_index : ℤ} (hi : pcb_index ≠ k.procs.current)
    (hs : Space k.mem k.procs.cur.cr3) (hl : FreeList k.mem l)
    (hapart : ∀ x p, pageAt k.mem (PGNUM k.procs.cur.cr3) x = some p → p ∉ l)
    (hneed : (positions k.mem (PGNUM k.procs.cur.cr3)).card ≤ l.length) :
    ∃ k', copy pcb_index k = some k' ∧
      Isolated k.mem k'.mem l k.procs.cur.cr3 (k'.procs.pcb_table pcb_index).cr3 := by
  obtain ⟨d, m, l', hcopy, hd, h⟩ := copy_grown hi hs hl hapart hneed
  have ha : Apart k.mem (PGNUM k.procs.cur.cr3) l := fun x p hx => ⟨hapart x p hx, hs.lt x p hx⟩
  refine ⟨_, hcopy, ?_⟩
  have hcr3 : ((k.procs.modify pcb_index fun q => { q with cr3 := page2pa d }).pcb_table
      pcb_index).cr3 = page2pa d := by
    rw [Procs.pcb_table_modify_self]
  have hnum : PGNUM (page2pa d) = d := PGNUM_page2pa (Nat.lt_trans hd (by decide))
  dsimp only
  rw [hcr3]
  have happ := h.pagesApart ha
  have hfather := h.pageAt_father ha
  have hplain := h.plain
  rw [← hnum] at h happ hplain
  refine ⟨fun va hva => ?_, fun va hva => ?_, fun x p hx => h.mem_of_pageAt hx, h.inj, happ,
    fun x p hx => h.kept p (hapart x p hx), h.kernel,
    fun va hva v vb hvb => happ.userByte_userWrite hva hvb,
    fun va hva v vb hvb => happ.symm.userByte_userWrite hva hvb,
    fun hf ws hws va hva => ⟨?_, ?_⟩⟩
  · rw [translate_user hva, translate_user hva, Option.isSome_map, Option.isSome_map]
    exact h.isSome_pageAt _
  · have hframes := h.frames_eq ⟨PDX va, PDX_lt hva⟩ ⟨PTX va, PTX_lt va⟩
    have hget := congrArg (Option.map fun b : Frame => b.get (PGOFF va)) hframes
    rw [Option.map_map, Option.map_map] at hget
    rw [userByte_eq hva, userByte_eq hva]
    exact hget
  · exact userByte_userWrites (fun w hw => (hws w hw).symm) hplain (hf.congr hfather) happ.symm hva
  · exact userByte_userWrites hws (hf.congr hfather) hplain happ hva

/-- Three pages are free; only page `7` is not full of zeros. -/
def emptyMemory : Memory where
  pages p := ⟨if p = 1025 then some 1026 else if p = 1026 then some 1027 else none, 0⟩
  page_free_list := some 1025
  frames p := if p = 7 then ByteBlock.ofFn 4096 UInt8.ofNat else zeroFrame

/-- Page `5` is the directory of a process with one table, in page `6`, and one frame, page
`7`. -/
def smallMemory : Memory :=
  (emptyMemory.setEntry 5 1 (page2pa 6 ||| 0x7)).setEntry 6 0 (page2pa 7 ||| 0x7)

/-- A process that runs in a small address space. -/
def smallPCB : PCB :=
  { eax := 0, fcb := fun _ => -1, pid := 0, ppid := 0, status := Running, time_count := 0
    sleep_time := Sleeptime, cr3 := page2pa 5, pcb_index := 0, block_sem_index := -1 }

/-- That process is running. -/
def smallCore : Core := ⟨⟨fun _ => smallPCB, 0⟩, smallMemory⟩

theorem freeList_smallMemory : FreeList smallMemory [1025, 1026, 1027] := by
  refine ⟨⟨rfl, rfl, rfl, rfl⟩, ?_⟩
  decide

theorem pageAt_smallMemory {x : Pos} {p : ℕ} (h : pageAt smallMemory 5 x = some p) :
    (x = .dir ∧ p = 5) ∨ (x = .table 1 ∧ p = 6) ∨ (x = .frame 1 0 ∧ p = 7) := by
  have hzero : ∀ q, q ≠ 7 → emptyMemory.frames q = zeroFrame := fun q hq => if_neg hq
  have hempty : ∀ y, y ≠ .dir → pageAt emptyMemory 5 y = none := fun y hy =>
    pageAt_eq_none (fun i => Memory.target_zeroFrame (hzero 5 (by decide)) i) hy
  have hnotable : ∀ i t, pageAt emptyMemory 5 (.table i) ≠ some t := fun i t ht => by
    rw [hempty (.table i) (Pos.table_ne_dir i)] at ht
    exact Option.some_ne_none t ht.symm
  set m := emptyMemory.setEntry 5 1 (page2pa 6 ||| 0x7) with hm
  have hother : ∀ q, q ≠ 5 → m.frames q = emptyMemory.frames q := fun q hq => by
    rw [hm, Memory.frames_setEntry, Function.update_of_ne hq]
  have htable : pageAt m 5 = Function.update (pageAt emptyMemory 5) (.table 1) (some 6) :=
    pageAt_newTable (hempty (.table 1) (Pos.table_ne_dir 1)) (by decide)
      (fun j t ht => absurd ht (hnotable j t)) rfl
      (by rw [hother 6 (by decide), hzero 6 (by decide)])
      (by rw [hm, Memory.frames_setEntry, Function.update_self]; rfl)
      fun q _ hq => hother q hq
  have hone : ∀ i t, pageAt m 5 (.table i) = some t → i = 1 ∧ t = 6 := by
    intro i t ht
    rw [htable, Function.update_apply] at ht
    split at ht
    · next heq => exact ⟨Pos.table.inj heq, (Option.some.inj ht).symm⟩
    · exact absurd ht (hnotable i t)
  have hframe : pageAt smallMemory 5 = Function.update (pageAt m 5) (.frame 1 0) (some 7) := by
    refine pageAt_newFrame (t := 6) (by rw [htable, Function.update_self]) (by decide) (by decide)
      (by decide) (by decide) (fun k s hs => ?_) rfl ?_ fun q _ hq => ?_
    · obtain ⟨rfl, rfl⟩ := hone k s hs
      exact ⟨by decide, fun hne => absurd rfl hne⟩
    · rw [smallMemory, Memory.frames_setEntry, Function.update_self]
      rfl
    · rw [smallMemory, Memory.frames_setEntry, Function.update_of_ne hq]
  rw [hframe, Function.update_apply] at h
  split at h
  · next heq => exact .inr (.inr ⟨heq, (Option.some.inj h).symm⟩)
  rw [htable, Function.update_apply] at h
  split at h
  · next heq => exact .inr (.inl ⟨heq, (Option.some.inj h).symm⟩)
  rcases eq_or_ne x .dir with rfl | hx
  · exact .inl ⟨rfl, (Option.some.inj h).symm⟩
  · rw [hempty x hx] at h
    exact absurd h.symm (Option.some_ne_none p)

theorem space_smallMemory : Space smallMemory (page2pa 5) := by
  refine ⟨by decide, fun x p h => ?_⟩
  rw [PGNUM_page2pa (by decide)] at h
  rcases pageAt_smallMemory h with ⟨-, rfl⟩ | ⟨-, rfl⟩ | ⟨-, rfl⟩ <;> decide

theorem card_smallMemory : (positions smallMemory 5).card ≤ 3 := by
  have hsub : positions smallMemory 5 ⊆ {.dir, .table 1, .frame 1 0} := by
    intro x hx
    obtain ⟨p, hp⟩ := Option.isSome_iff_exists.mp (mem_positions.mp hx)
    rw [Finset.mem_insert, Finset.mem_insert, Finset.mem_singleton]
    rcases pageAt_smallMemory hp with ⟨h, -⟩ | ⟨h, -⟩ | ⟨h, -⟩
    · exact .inl h
    · exact .inr (.inl h)
    · exact .inr (.inr h)
  exact (Finset.card_le_card hsub).trans Finset.card_le_three

theorem card_smallCore :
    (positions smallCore.mem (PGNUM smallCore.procs.cur.cr3)).card ≤ [1025, 1026, 1027].length := by
  have hnum : PGNUM smallCore.procs.cur.cr3 = 5 := PGNUM_page2pa (by decide)
  rw [hnum]
  exact card_smallMemory

theorem apart_smallMemory (x : Pos) (p : ℕ)
    (h : pageAt smallMemory (PGNUM (page2pa 5)) x = some p) :
    p ∉ [1025, 1026, 1027] := by
  rw [PGNUM_page2pa (by decide)] at h
  rcases pageAt_smallMemory h with ⟨-, rfl⟩ | ⟨-, rfl⟩ | ⟨-, rfl⟩ <;> decide

theorem copy_isolates_small :
    ∃ k', copy 1 smallCore = some k' ∧
      Isolated smallMemory k'.mem [1025, 1026, 1027] (page2pa 5) (k'.procs.pcb_table 1).cr3 :=
  copy_isolates (k := smallCore) (by decide) space_smallMemory freeList_smallMemory
    apart_smallMemory card_smallCore

end OsLab

import OsLab.Memory.LoaderImage
import OsLab.Memory.Ownership

/-!
# The game's address space

What `loader` leaves, whatever the game's file holds: the pages of the user directory are pages from
the list, each at one place, but for the directory itself and for the first 4 MiB, where
`create_video_mapping` has put a table of the kernel that leads to the video memory.

## Main definitions

* `UserSegments` — no segment of the game reaches into the kernel's part of the address space
* `KernelReady` — the kernel's static data are clear, as far as they matter here
* `KernelPlace` — the places where the user directory leads to the kernel's own pages
* `GameSpace` — the address space of the game, where memory was `m₀` at the beginning

## Main results

* `gameSpace` — the pages of the tree
* `GameSpace.owned` — the game owns its stack, and the whole tree if nothing is amiss with the
  kernel's pages in it
-/

namespace OsLab

/-- No segment of the game reaches into the kernel's part of the address space. -/
def UserSegments (stack : Mem) (d : Disk) : Prop :=
  ∀ i < phnum (elfBuffer stack d), (programHeader (elfBuffer stack d) i).type = PT_LOAD →
    (programHeader (elfBuffer stack d) i).last ≤ KOFFSET.toNat

/-- The kernel's static data are clear, as far as they matter here. -/
structure KernelReady (P : KernelPages) (m : Memory) : Prop where
  list : m.page_free_list = none
  vdtable : m.frames P.vdtable = zeroFrame

/-- The kernel is behind the video memory, where its linker script puts it. -/
structure BehindVideo (P : KernelPages) : Prop where
  updir : 0xb0 ≤ P.updir
  vdtable : 0xb0 ≤ P.vdtable
  kpdir : 0xb0 ≤ P.kpdir

/-- The places where the user directory leads to the kernel's own pages. -/
def KernelPlace (P : KernelPages) (p : ℕ) : Pos → Prop
  | .dir => p = P.updir
  | .table i => (i : ℕ) = 0 ∧ p = P.vdtable
  | .frame i j => (i : ℕ) = 0 ∧ p = j ∧ 0xa0 ≤ p ∧ p < 0xb0

theorem KernelPlace.le {P : KernelPages} {p : ℕ} {x : Pos} (h : KernelPlace P p x) : p ≤ 1024 := by
  cases x with
  | dir => exact h.trans_le P.updir_le
  | table i => exact h.2.trans_le P.vdtable_le
  | frame i j =>
    have hlt := h.2.2.2
    omega

/-- **The address space of the game**, where memory was `m₀` at the beginning. -/
structure GameSpace (P : KernelPages) (m₀ m : Memory) (l : List ℕ) : Prop where
  free : FreeList m l
  high : ∀ p ∈ l, 1024 < p
  pages : ∀ x p, pageAt m P.updir x = some p →
    KernelPlace P p x ∨ 1024 < p ∧ p < npages ∧ p ∉ l
  inj : ∀ x y p, 1024 < p → pageAt m P.updir x = some p → pageAt m P.updir y = some p → x = y
  stack : ∀ x ∈ stackPlaces, (pageAt m P.updir x).isSome
  kernel : ∀ q ≤ 1024, q ≠ P.updir → q ≠ P.vdtable → m.frames q = m₀.frames q
  entry : ∀ j, 768 ≤ j → j < 800 → m.entry P.updir j = m₀.entry P.kpdir j

section Video

variable {P : KernelPages} {m : Memory} {p i : ℕ}

theorem makePde_page2pa (hp : p < 2 ^ 20) : makePde (page2pa p) = page2pa p ||| 0x7 := by
  show PTE_ADDR (page2pa p) ||| 0x7 = _
  rw [PTE_ADDR_eq, PGNUM_page2pa hp]

theorem videoAddress (hi : i < 16) : 0xa0000 + UInt32.ofNat (4096 * i) = page2pa (i + 0xa0) := by
  apply UInt32.toNat_inj.mp
  rw [toNat_page2pa (by omega), UInt32.toNat_add, UInt32.toNat_ofNat']
  show (0xa0000 + 4096 * i % 2 ^ 32) % 2 ^ 32 = _
  omega

/-- What `create_video_mapping` writes. -/
structure VideoMapped (P : KernelPages) (m m' : Memory) (n : ℕ) : Prop where
  pages : m'.pages = m.pages
  list : m'.page_free_list = m.page_free_list
  table : m'.entry P.updir 0 = page2pa P.vdtable ||| 0x7
  frame : ∀ j < 1024, m'.entry P.vdtable j =
    if 0xa0 ≤ j ∧ j < 0xa0 + n then page2pa j ||| 0x7 else m.entry P.vdtable j

theorem videoMapped (P : KernelPages) (m : Memory) :
    VideoMapped P m (createVideoMapping P m) 16 := by
  have hu := P.updir_le
  have hvd := P.vdtable_le
  rw [createVideoMapping, makePde_page2pa (by omega)]
  refine countUp_induction (n := 16) (P := fun n m' => VideoMapped P m m' n) ?_ fun n hn m' h => ?_
  · rw [Memory.setIndex_eq (by omega) (by omega)]
    refine ⟨rfl, rfl, Memory.entry_setEntry_self (by omega), fun j _ => ?_⟩
    rw [Memory.entry_setEntry_of_ne (.inl P.vdtable_ne), if_neg (by omega)]
  · rw [videoAddress hn, makePde_page2pa (by omega), Memory.setIndex_eq (by omega) (by omega)]
    refine ⟨h.pages, h.list, ?_, fun j hj => ?_⟩
    · rw [Memory.entry_setEntry_of_ne (.inl P.vdtable_ne.symm), h.table]
    · rcases eq_or_ne j (n + 0xa0) with rfl | hne
      · rw [Memory.entry_setEntry_self (by omega), if_pos (by omega)]
      · rw [Memory.entry_setEntry_of_ne (.inr hne), h.frame j hj]
        exact if_congr (by omega) rfl rfl

/-- The table of the first 4 MiB. -/
theorem VideoMapped.pageAt_table {m' : Memory} {n : ℕ} (h : VideoMapped P m m' n) {i : Fin 768}
    (hi : (i : ℕ) = 0) : pageAt m' P.updir (.table i) = some P.vdtable := by
  have hvd := P.vdtable_le
  have ht : m'.entry P.updir i = page2pa P.vdtable ||| 0x7 := by rw [hi, h.table]
  exact Memory.target_page2pa ht (by omega)

/-- The video memory. -/
theorem VideoMapped.pageAt_frame {m' : Memory} (h : VideoMapped P m m' 16) {i : Fin 768}
    {j : Fin 1024} (hi : (i : ℕ) = 0) (hj : 0xa0 ≤ (j : ℕ)) (hlt : (j : ℕ) < 0xb0) :
    pageAt m' P.updir (.frame i j) = some j := by
  rw [OsLab.pageAt_frame (h.pageAt_table hi)]
  refine Memory.target_page2pa ?_ (Nat.lt_trans hlt (by decide))
  rw [h.frame j j.isLt, if_pos ⟨hj, hlt⟩]

/-- The first 4 MiB afterwards. -/
theorem VideoMapped.kernelPlace {m' : Memory} {x : Pos} (h : VideoMapped P m m' 16)
    (hv : m.frames P.vdtable = zeroFrame)
    (hx : x = .dir ∨ (∃ i : Fin 768, (i : ℕ) = 0 ∧ x = .table i) ∨
      ∃ (i : Fin 768) (j : Fin 1024), (i : ℕ) = 0 ∧ x = .frame i j)
    (hp : pageAt m' P.updir x = some p) : KernelPlace P p x := by
  rcases hx with rfl | ⟨i, hi, rfl⟩ | ⟨i, j, hi, rfl⟩
  · exact (Option.some.inj hp).symm
  · exact ⟨hi, Option.some.inj (hp.symm.trans (h.pageAt_table hi))⟩
  · rw [OsLab.pageAt_frame (h.pageAt_table hi)] at hp
    have hj := j.isLt
    have hentry := h.frame j hj
    obtain ⟨hpresent, hnum⟩ := Memory.target_eq_some.mp hp
    rw [hentry] at hpresent hnum
    by_cases hin : 0xa0 ≤ (j : ℕ) ∧ (j : ℕ) < 0xa0 + 16
    · rw [if_pos hin, PGNUM_page2pa_or (by omega)] at hnum
      exact ⟨hi, hnum.symm, by omega, by omega⟩
    · rw [if_neg hin, entry_zeroFrame hv] at hpresent
      exact absurd hpresent not_present_zero

end Video

section Load

variable {P : KernelPages} {stack : Mem} {d : Disk} {m₀ m m' : Memory} {l l' : List ℕ}
  {S : Finset Pos} {R : Reserve} {sole : Set ℤ} {dir : ℤ → ℕ}

/-- What `init_mm` leaves of the kernel. -/
theorem initMm_kernel (P : KernelPages) (m : Memory) :
    (∀ q, q ≠ P.updir → (initMm P m).frames q = m.frames q) ∧
      ∀ j, 768 ≤ j → j < 800 → (initMm P m).entry P.updir j = m.entry P.kpdir j := by
  have hu := P.updir_le
  have hk := P.kpdir_le
  obtain ⟨f, hcpy, -, hkernel⟩ := Memory.memcpy_kernel (m := m.setFrame P.updir zeroFrame)
    (Function.update_self ..) (p := P.updir) (q := P.kpdir) (by omega) (by omega)
  rw [initMm, Memory.memset_page (by omega), hcpy]
  refine ⟨fun q hq => ?_, fun j hj hlt => ?_⟩
  · rw [Memory.frames_setFrame, Function.update_of_ne hq, Memory.frames_setFrame,
      Function.update_of_ne hq]
  · rw [hkernel j hj hlt]
    refine Memory.entry_congr ?_ j
    rw [Memory.frames_setFrame, Function.update_of_ne P.kpdir_ne]

/-- **The loop over the program headers** extends the tree. -/
theorem loadHeaders_extends (hseg : UserSegments stack d) (hl : FreeList m l)
    (ho : OwnTree m l P.updir) :
    ∃ S, Extends P.updir S m l (countUpM (loadHeader d (elfOff stack d) (elfBuffer stack d)
      (page2kva P.updir)) m (phnum (elfBuffer stack d))) := by
  refine ⟨_, Extends.countUpM (S := fun i =>
    if (programHeader (elfBuffer stack d) i).type = PT_LOAD then
      placesOf (pagesFrom (programHeader (elfBuffer stack d) i).vaddr.toNat
        (programHeader (elfBuffer stack d) i).last) else ∅) hl ho fun i hi m' l' hl' ho' => ?_⟩
  rw [loadHeader]
  split
  · next htype =>
    have hlast : (programHeader (elfBuffer stack d) i).last ≤ 3 * 2 ^ 30 := hseg i hi htype
    exact loadSegment_extends hlast hl' ho' (by rw [ProgramHeader.last]; omega) (by omega)
  · exact ⟨l', .refl hl' ho' (Finset.empty_subset _)⟩

/-- The stack's places are among those that the loader asks for. -/
theorem stackPlaces_subset {T : Finset ℕ} (hT : T = stackPages) {x : Pos} (hx : x ∈ stackPlaces) :
    x ∈ placesOf T := by
  obtain ⟨i, j, hi, rfl⟩ := eq_frame_of_mem_stackPlaces hx
  have hj := j.isLt
  have hplace : Pos.frame i j = framePlace (1024 * i + j) := by
    rw [framePlace, Pos.frame.injEq, Fin.ext_iff, Fin.ext_iff, Fin.val_ofNat, Fin.val_ofNat]
    omega
  have hpages : ∀ k ∈ T, k < 786432 := fun k hk => by
    rw [hT, stackPages, Finset.mem_filter, Finset.mem_range] at hk
    exact hk.1
  rw [hplace, framePlace_mem hpages (by omega), hT, stackPages, Finset.mem_filter,
    Finset.mem_range]
  omega

/-- What is loaded before the video memory is mapped. -/
theorem loadMemory_extended (hseg : UserSegments stack d) (hl : FreeList (pageInit m) l)
    (ho : OwnTree (pageInit m) l P.updir) (hm : loadMemory P stack d m = some m') :
    ∃ m₁ S l', (∀ x ∈ stackPlaces, x ∈ S) ∧ Extended P.updir S (pageInit m) l m₁ l' ∧
      createVideoMapping P m₁ = m' := by
  obtain ⟨n, hn⟩ : ∃ n, n = 1024 := ⟨_, rfl⟩
  obtain ⟨T, hT⟩ : ∃ T, T = stackPages := ⟨_, rfl⟩
  rw [loadMemory_eq P stack d m hn] at hm
  obtain ⟨m₁, hm₁, rfl⟩ := Option.map_eq_some_iff.mp hm
  obtain ⟨S, hS⟩ := loadHeaders_extends hseg hl ho
  have hext := hS.bind fun m' l' _ h => loadStack_extends h.free h.own hn
  rw [hm₁, ← hT] at hext
  obtain ⟨l', h'⟩ := hext
  exact ⟨m₁, S ∪ placesOf T, l', fun x hx =>
    Finset.mem_union_right S (stackPlaces_subset hT hx), h', rfl⟩

/-- The video memory when the game has been loaded. -/
theorem loadMemory_video (hm : loadMemory P stack d m = some m') {i : Fin 768} {j : Fin 1024}
    (hi : (i : ℕ) = 0) (hj : 0xa0 ≤ (j : ℕ)) (hlt : (j : ℕ) < 0xb0) :
    pageAt m' P.updir (.frame i j) = some j := by
  obtain ⟨n, hn⟩ : ∃ n, n = 1024 := ⟨_, rfl⟩
  rw [loadMemory_eq P stack d m hn] at hm
  obtain ⟨m₁, -, rfl⟩ := Option.map_eq_some_iff.mp hm
  exact (videoMapped P m₁).pageAt_frame hi hj hlt

/-- **The pages of the game.** -/
theorem gameSpace (hseg : UserSegments stack d) (hready : KernelReady P m₀)
    (hm : loadMemory P stack d (initMm P m₀) = some m) : ∃ l, GameSpace P m₀ m l := by
  have hu := P.updir_le
  have hv := P.vdtable_le
  have hk := P.kpdir_le
  obtain ⟨l₀, h₀⟩ := loadStart_pageInit P m₀ hready.list
  obtain ⟨m₁, S, l, hS, h, rfl⟩ := loadMemory_extended hseg h₀.free h₀.own hm
  obtain ⟨-, -, -, -, hinit⟩ :=
    freeList_pageInit (m := initMm P m₀) ((initMm_spec P m₀).2.trans hready.list)
  -- the kernel's other pages are as they were
  have hout : ∀ q ≤ 1024, q ≠ P.updir → m₁.frames q = m₀.frames q := fun q hq hqu => by
    have hnot : q ∉ l₀ := fun hmem => Nat.not_lt.mpr hq (h₀.high q hmem)
    have htree : ∀ x, pageAt (pageInit (initMm P m₀)) P.updir x ≠ some q := fun x hx => by
      have hpos : x ∈ positions (pageInit (initMm P m₀)) P.updir :=
        mem_positions.mpr (by rw [hx]; rfl)
      rw [h₀.empty, Finset.mem_singleton] at hpos
      subst hpos
      exact hqu (Option.some.inj hx).symm
    rw [(h.out q hnot htree).1, hinit, (initMm_kernel P m₀).1 q hqu]
  have hvideo := videoMapped P m₁
  have hclear := (hout P.vdtable hv P.vdtable_ne).trans hready.vdtable
  obtain ⟨hframes, hentry⟩ := createVideoMapping_spec P m₁
  -- a page of the tree before is the directory or comes from the list
  have hnew : ∀ x p, x ≠ .dir → pageAt m₁ P.updir x = some p → 1024 < p ∧ p < npages ∧ p ∉ l :=
    fun x p hx hp => by
      rcases h.new x p hp with hold | hmem
      · have hpos : x ∈ positions (pageInit (initMm P m₀)) P.updir :=
          mem_positions.mpr (by rw [hold]; rfl)
        rw [h₀.empty, Finset.mem_singleton] at hpos
        exact absurd hpos hx
      · exact ⟨h₀.high p hmem, h.own.lt x p hp, h.own.notMem x p hp⟩
  -- and behind the first 4 MiB the tree is what it was
  have htable : ∀ i : Fin 768, (i : ℕ) ≠ 0 →
      pageAt (createVideoMapping P m₁) P.updir (.table i) = pageAt m₁ P.updir (.table i) :=
    fun i hi => Memory.target_congr (hentry i hi)
  have hframe : ∀ (i : Fin 768) (j : Fin 1024), (i : ℕ) ≠ 0 →
      pageAt (createVideoMapping P m₁) P.updir (.frame i j) = pageAt m₁ P.updir (.frame i j) :=
    fun i j hi => by
      cases ht : pageAt m₁ P.updir (.table i) with
      | none => rw [pageAt_frame_none ht, pageAt_frame_none ((htable i hi).trans ht)]
      | some t =>
        have hlt := (hnew _ t (Pos.table_ne_dir i) ht).1
        rw [pageAt_frame ht, pageAt_frame ((htable i hi).trans ht)]
        exact Memory.target_congr (Memory.entry_congr (hframes t (by omega) (by omega)) j)
  have hcases : ∀ x p, pageAt (createVideoMapping P m₁) P.updir x = some p →
      KernelPlace P p x ∨ x ≠ .dir ∧ pageAt m₁ P.updir x = some p := by
    intro x p hp
    cases x with
    | dir => exact .inl (hvideo.kernelPlace hclear (.inl rfl) hp)
    | table i =>
      by_cases hi : (i : ℕ) = 0
      · exact .inl (hvideo.kernelPlace hclear (.inr (.inl ⟨i, hi, rfl⟩)) hp)
      · exact .inr ⟨Pos.table_ne_dir i, (htable i hi).symm.trans hp⟩
    | frame i j =>
      by_cases hi : (i : ℕ) = 0
      · exact .inl (hvideo.kernelPlace hclear (.inr (.inr ⟨i, j, hi, rfl⟩)) hp)
      · exact .inr ⟨Pos.frame_ne_dir i j, (hframe i j hi).symm.trans hp⟩
  refine ⟨l, h.free.congr hvideo.list fun q _ => by rw [hvideo.pages],
    fun p hp => h₀.high p (h.suffix.subset hp), fun x p hp => ?_, fun x y p hlt hx hy => ?_,
    fun x hx => ?_, fun q hq hqu hqv => ?_, fun j hj hlt => ?_⟩
  · exact (hcases x p hp).imp_right fun ⟨hxd, hp₁⟩ => hnew x p hxd hp₁
  · have hx₁ := (hcases x p hx).resolve_left fun hk => Nat.not_lt.mpr hk.le hlt
    have hy₁ := (hcases y p hy).resolve_left fun hk => Nat.not_lt.mpr hk.le hlt
    exact h.own.inj x y p hx₁.2 hy₁.2
  · have hpos : x ∈ positions m₁ P.updir := by
      rw [h.dom]
      exact Finset.mem_union_right _ (hS x hx)
    obtain ⟨i, j, hi, rfl⟩ := eq_frame_of_mem_stackPlaces hx
    rw [hframe i j (by omega)]
    exact mem_positions.mp hpos
  · rw [hframes q hqu hqv, hout q hq hqu]
  · rw [hentry j (by omega), h.kernel j hj, ← (initMm_kernel P m₀).2 j hj hlt]
    exact Memory.entry_congr (by rw [hinit]) j

/-- A page of the kernel is in one place only, and the data are not among its tables. -/
theorem KernelPlace.eq (hP : BehindVideo P) {x y : Pos} {p : ℕ} (hx : KernelPlace P p x)
    (hy : KernelPlace P p y) : x = y := by
  have hu := hP.updir
  have hv := hP.vdtable
  have hne := P.vdtable_ne
  cases x with
  | dir =>
    cases y with
    | dir => rfl
    | table i => exact absurd (hy.2.symm.trans hx) hne
    | frame i j =>
      have hlt := hy.2.2.2
      rw [hx] at hlt
      omega
  | table i =>
    cases y with
    | dir => exact absurd (hx.2.symm.trans hy) hne
    | table k => rw [Fin.ext (hx.1.trans hy.1.symm)]
    | frame k j =>
      have hlt := hy.2.2.2
      rw [hx.2] at hlt
      omega
  | frame i j =>
    have hlt := hx.2.2.2
    cases y with
    | dir =>
      rw [hy] at hlt
      omega
    | table k =>
      rw [hy.2] at hlt
      omega
    | frame k j' => rw [Fin.ext (hx.1.trans hy.1.symm), Fin.ext (hx.2.1.symm.trans hy.2.1)]

/-- No page of the game's is in two places. -/
theorem GameSpace.eq_of_pageAt (h : GameSpace P m₀ m l) (hP : BehindVideo P) {x y : Pos} {p : ℕ}
    (hx : pageAt m P.updir x = some p) (hy : pageAt m P.updir y = some p) : x = y := by
  by_cases hlt : 1024 < p
  · exact h.inj x y p hlt hx hy
  · have hkx := (h.pages x p hx).resolve_right fun hr => hlt hr.1
    have hky := (h.pages y p hy).resolve_right fun hr => hlt hr.1
    exact hkx.eq hP hky

/-- **Who owns what when the game has been loaded.** The game is in slot 1. -/
theorem GameSpace.owned (h : GameSpace P m₀ m l) (hP : BehindVideo P) (hdir : dir 1 = P.updir)
    (hkept : ∀ p ∈ R.kept, p ≤ 1024)
    (hstill : ∀ p ∈ R.still, p ≠ P.updir ∧ p ≠ P.vdtable ∧ ¬(0xa0 ≤ p ∧ p < 0xb0))
    (himage : R.image = m₀.frames) (hkpdir : R.kpdir = P.kpdir)
    (hsole : (1 : ℤ) ∈ sole → ∀ x p, KernelPlace P p x → p ∉ R.kept) :
    Owned R m l {1} sole dir := by
  have hin : ∀ {i x p}, i ∈ ({1} : Set ℤ) → pageAt m (dir i) x = some p →
      pageAt m P.updir x = some p := fun hi hx => by
    rwa [Set.mem_singleton_iff.mp hi, hdir] at hx
  refine ⟨h.free, ⟨fun p hp hk => ?_, fun i hi x p hx hp => ?_, fun i hi x _ j hj y p hx hy => ?_,
    fun i hi hs x p hx hk => ?_, fun i hi x hd j hj y p hx hy => ?_, fun i hi x hd p hx hp => ?_⟩,
    fun i hi x p hx => ?_, fun i hi x hx => ?_, fun p hp => ?_, fun i hi j hj hlt => ?_⟩
  · exact Nat.not_lt.mpr (hkept p hk) (h.high p hp)
  · rcases h.pages x p (hin hi hx) with hk | ⟨-, -, hnot⟩
    · exact Nat.not_lt.mpr hk.le (h.high p hp)
    · exact hnot hp
  · exact ⟨(Set.mem_singleton_iff.mp hi).trans (Set.mem_singleton_iff.mp hj).symm,
      h.eq_of_pageAt hP (hin hi hx) (hin hj hy)⟩
  · rw [Set.mem_singleton_iff.mp hi] at hs
    rcases h.pages x p (hin hi hx) with hkx | hr
    · exact hsole hs x p hkx hk
    · exact Nat.not_lt.mpr (hkept p hk) hr.1
  · exact h.eq_of_pageAt hP (hin hi hx) (hin hj hy) ▸ hd
  · obtain ⟨a, b, rfl⟩ := hd
    rcases h.pages (.frame a b) p (hin hi hx) with hk | hr
    · exact (hstill p hp).2.2 hk.2.2
    · exact Nat.not_lt.mpr (hkept p (R.still_kept hp)) hr.1
  · rcases h.pages x p (hin hi hx) with hk | hr
    · exact Nat.lt_of_le_of_lt hk.le (by decide)
    · exact hr.2.1
  · rw [Set.mem_singleton_iff.mp hi, hdir]
    exact h.stack x hx
  · obtain ⟨hpu, hpv, -⟩ := hstill p hp
    rw [himage]
    exact h.kernel p (hkept p (R.still_kept hp)) hpu hpv
  · rw [Set.mem_singleton_iff.mp hi, hdir, Reserve.entry, himage, hkpdir]
    exact h.entry j hj hlt

end Load

end OsLab

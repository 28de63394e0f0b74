import OsLab.Memory.Loader

/-!
# One segment

What the loop over the pages of a segment does: every page that the segment touches gets a frame,
and the frame holds the bytes of the file. `segByte` says which byte comes where: the bytes of the
file, then whatever else is in the last sector they are in, and zeros after that.

## Main definitions

* `segByte` — the byte that comes to byte `k` of the segment: a byte of the file, or of the rest of
  its last sector, or zero
* `SegmentOk` — what is promised of a segment of a file whose first block is `b`
* `LoopAt` — where the loop is: at the start of the segment or of a later page of it, when `num`
  bytes of the file have been loaded

## Main results

* `loadSegment_extends` — the loop ends, and it fails only for want of pages
* `loadSegment_bytes` — what is in memory afterwards
-/

namespace OsLab

/-! ## Places by page number -/

/-- The place of the frame of user page `n`. -/
def framePlace (n : ℕ) : Pos := .frame (Fin.ofNat 768 (n / 1024)) (Fin.ofNat 1024 n)

/-- The place of its table. -/
def tablePlace (n : ℕ) : Pos := .table (Fin.ofNat 768 (n / 1024))

/-- The places that the given user pages need. -/
def placesOf (s : Finset ℕ) : Finset Pos := s.biUnion fun n => {tablePlace n} ∪ {framePlace n}

/-- The pages from the one of `va` on that are in front of `e`. -/
def pagesFrom (va e : ℕ) : Finset ℕ :=
  (Finset.range 786432).filter fun n => va < e ∧ va / 4096 ≤ n ∧ 4096 * n < e

section Places

variable {n k : ℕ} {s : Finset ℕ} {va : UInt32} {v e : ℕ}

theorem framePlace_inj (hn : n < 786432) (hk : k < 786432) (h : framePlace n = framePlace k) :
    n = k := by
  obtain ⟨h₁, h₂⟩ := Pos.frame.inj h
  have h₁ := congrArg Fin.val h₁
  have h₂ := congrArg Fin.val h₂
  simp only [Fin.val_ofNat] at h₁ h₂
  omega

theorem framePlace_mem (hs : ∀ k ∈ s, k < 786432) (hn : n < 786432) :
    framePlace n ∈ placesOf s ↔ n ∈ s := by
  simp only [placesOf, Finset.mem_biUnion, Finset.mem_union, Finset.mem_singleton]
  constructor
  · rintro ⟨k, hk, h | h⟩
    · exact absurd h (Pos.frame_ne_table _ _ _)
    · rwa [framePlace_inj hn (hs k hk) h]
  · exact fun h => ⟨n, h, .inr rfl⟩

theorem lt_of_mem_pagesFrom (h : n ∈ pagesFrom v e) : n < 786432 := by
  rw [pagesFrom, Finset.mem_filter, Finset.mem_range] at h
  exact h.1

theorem mem_pagesFrom (he : e ≤ 3 * 2 ^ 30) :
    n ∈ pagesFrom v e ↔ v < e ∧ v / 4096 ≤ n ∧ 4096 * n < e := by
  rw [pagesFrom, Finset.mem_filter, Finset.mem_range]
  exact and_iff_right_of_imp fun h => by omega

theorem pagesFrom_of_le (h : e ≤ v) : pagesFrom v e = ∅ := by
  rw [pagesFrom, Finset.filter_eq_empty_iff]
  intro n _
  omega

/-- The page of `v`, and the rest. -/
theorem pagesFrom_of_lt (he : e ≤ 3 * 2 ^ 30) (h : v < e) :
    pagesFrom v e = {v / 4096} ∪ pagesFrom (4096 * (v / 4096) + 4096) e := by
  ext n
  rw [Finset.mem_union, Finset.mem_singleton, mem_pagesFrom he, mem_pagesFrom he]
  omega

@[simp] theorem placesOf_union (s s' : Finset ℕ) : placesOf (s ∪ s') = placesOf s ∪ placesOf s' :=
  Finset.union_biUnion

@[simp] theorem placesOf_singleton (n : ℕ) : placesOf {n} = {tablePlace n} ∪ {framePlace n} :=
  Finset.singleton_biUnion

theorem toNat_lt_KOFFSET (h : va < KOFFSET) : va.toNat < 3 * 2 ^ 30 := UInt32.lt_iff_toNat_lt.mp h

theorem userPos_eq (h : va < KOFFSET) : userPos va h = framePlace (va.toNat / 4096) := by
  have hlt := toNat_lt_KOFFSET h
  have hdir := PDX_eq va
  have htable := PTX_eq va
  rw [userPos, framePlace, Pos.frame.injEq, Fin.ext_iff, Fin.ext_iff, Fin.val_ofNat, Fin.val_ofNat]
  dsimp only
  omega

theorem tablePos_eq (h : va < KOFFSET) : tablePos va h = tablePlace (va.toNat / 4096) := by
  have hlt := toNat_lt_KOFFSET h
  have hdir := PDX_eq va
  rw [tablePos, tablePlace, Pos.table.injEq, Fin.ext_iff, Fin.val_ofNat]
  dsimp only
  omega

end Places

/-! ## One page -/

section Page

variable {u p : ℕ} {S : Finset Pos} {m m' : Memory} {l l' : List ℕ} {i : Fin 768} {j : Fin 1024}
  {va num : UInt32} {d : Disk} {elf_off : UInt32} {ph : ProgramHeader}

/-- What a frame holds does not matter for the tree. -/
theorem OwnTree.frames_setFrame (h : OwnTree m l u) (hp : pageAt m u (.frame i j) = some p)
    (f : Frame) {x : Pos} {q : ℕ} (hx : ∀ a b, x ≠ .frame a b) (hq : pageAt m u x = some q) :
    (m.setFrame p f).frames q = m.frames q := by
  rw [Memory.frames_setFrame, Function.update_of_ne (h.ne_of_ne hq hp (hx i j))]

theorem OwnTree.pageAt_setFrame (h : OwnTree m l u) (hp : pageAt m u (.frame i j) = some p)
    (f : Frame) : pageAt (m.setFrame p f) u = pageAt m u :=
  pageAt_congr (h.frames_setFrame hp f (fun a b => (Pos.frame_ne_dir a b).symm) rfl) fun k _ ht =>
    h.frames_setFrame hp f (fun a b => (Pos.frame_ne_table a k b).symm) ht

/-- A frame that has been made is filled. -/
theorem Extended.setFrame (h : Extended u S m l m' l') (hp : pageAt m' u (.frame i j) = some p)
    (hS : .frame i j ∈ S) (f : Frame) : Extended u S m l (m'.setFrame p f) l' := by
  have htree := h.own.pageAt_setFrame hp f
  have hpos : positions (m'.setFrame p f) u = positions m' u := by
    ext x
    rw [mem_positions, mem_positions, htree]
  refine ⟨h.free.congr rfl fun q _ => rfl, ⟨?_, ?_, ?_⟩, h.suffix, ?_, ?_, ?_, ?_,
    fun a b q hab hq => ?_, fun k hk => ?_, fun q hq hx => ?_⟩
  · rw [htree]
    exact h.own.lt
  · rw [htree]
    exact h.own.notMem
  · rw [htree]
    exact h.own.inj
  · rw [hpos, h.count]
  · rw [hpos, h.dom]
  · rw [htree]
    exact h.place
  · rw [htree]
    exact h.new
  · have hqp : q ≠ p := h.own.ne_of_ne (h.place _ q hq) hp fun heq => hab (heq ▸ hS)
    rw [Memory.frames_setFrame, Function.update_of_ne hqp, h.frames a b q hab hq]
  · have hdir := h.own.frames_setFrame hp f (fun a b => (Pos.frame_ne_dir a b).symm) rfl
    rw [Memory.entry_congr hdir, h.kernel k hk]
  · have hqp : q ≠ p := by
      rintro rfl
      rcases h.new _ q hp with hp | hp
      · exact hx _ hp
      · exact hq hp
    rw [Memory.frames_setFrame, Function.update_of_ne hqp]
    exact h.out q hq hx

theorem toNat_PTE_ADDR (va : UInt32) : (PTE_ADDR va).toNat = 4096 * (va.toNat / 4096) := by
  rw [PTE_ADDR_eq, toNat_page2pa (PGNUM_lt va), PGNUM_eq]

theorem PTE_ADDR_lt (h : va < KOFFSET) : PTE_ADDR va < KOFFSET := by
  have hlt := toNat_lt_KOFFSET h
  rw [UInt32.lt_iff_toNat_lt, toNat_PTE_ADDR]
  show 4096 * (va.toNat / 4096) < 3 * 2 ^ 30
  omega

/-- **One page**: what it does, and what is in the frame then. -/
theorem loadPage_spec (hl : FreeList m l) (ho : OwnTree m l u) (hva : va < KOFFSET) :
    Extends u (placesOf {va.toNat / 4096}) m l (loadPage d elf_off ph (page2kva u) va num m) ∧
      ∀ m', loadPage d elf_off ph (page2kva u) va num m = some m' →
        ∃ p, pageAt m' u (framePlace (va.toNat / 4096)) = some p ∧
          ∀ a < 4096, (m'.frames p).get a = secBuf d elf_off ph va num a := by
  have hva' := PTE_ADDR_lt hva
  have hpage : (PTE_ADDR va).toNat / 4096 = va.toNat / 4096 := by
    rw [toNat_PTE_ADDR]
    omega
  have hext := mmMalloc_extends hl ho hva'
  rw [tablePos_eq hva', userPos_eq hva', hpage, ← placesOf_singleton] at hext
  rw [loadPage]
  cases hr : mmMalloc (page2kva u) (PTE_ADDR va) m with
  | none =>
    rw [hr] at hext
    exact ⟨hext, fun m' hm' => absurd hm'.symm (Option.some_ne_none m')⟩
  | some r =>
    obtain ⟨addr, m₁⟩ := r
    obtain ⟨p, hp, hp20, haddr⟩ := mmMalloc_place hl ho hva' hr
    rw [userPos_eq hva', hpage] at hp
    rw [hr] at hext
    obtain ⟨l', h⟩ := hext
    have hoff : PGOFF (PTE_ADDR va) = 0 := by
      rw [PGOFF_eq, toNat_PTE_ADDR]
      omega
    have haddr' : addr.toNat = 4096 * p + 0 := by
      rw [haddr, hoff, show UInt32.ofNat 0 = 0 from rfl, UInt32.add_zero, toNat_page2pa hp20,
        Nat.add_zero]
    rw [Option.map_some]
    dsimp only
    rw [haddr', Memory.poke_page _ (Nat.le_refl _)]
    have hmem : framePlace (va.toNat / 4096) ∈ placesOf {va.toNat / 4096} := by
      rw [placesOf_singleton]
      exact Finset.mem_union_right _ (Finset.mem_singleton_self _)
    have h' := h.setFrame hp hmem (ByteBlock.ofFn 4096 fun k =>
      if 0 ≤ k ∧ k < 0 + PGSIZE then secBuf d elf_off ph va num ((k - 0 : ℕ) : ℤ)
      else (m₁.frames p).get k)
    refine ⟨⟨l', h'⟩, fun m' hm' => ⟨p, ?_, fun a ha => ?_⟩⟩
    · obtain rfl := Option.some.inj hm'
      rw [h.own.pageAt_setFrame hp]
      exact hp
    · obtain rfl := Option.some.inj hm'
      rw [Memory.frames_setFrame, Function.update_self, ByteBlock.get_ofFn, if_pos ha,
        if_pos ⟨Nat.zero_le a, by simpa [PGSIZE] using ha⟩]
      rfl

end Page

/-! ## All pages -/

/-- The address behind a segment. -/
def ProgramHeader.last (ph : ProgramHeader) : ℕ := ph.vaddr.toNat + ph.memsz.toNat

section Segment

variable {u e fuel : ℕ} {m m' : Memory} {l : List ℕ} {va num : UInt32} {d : Disk} {elf_off : UInt32}
  {ph : ProgramHeader}

/-- The comparison in the loop does not overflow. -/
theorem lt_last_iff (he : ph.last ≤ 3 * 2 ^ 30) :
    va < ph.vaddr + ph.memsz ↔ va.toNat < ph.last := by
  have hadd : (ph.vaddr + ph.memsz).toNat = ph.last := by
    rw [UInt32.toNat_add, ProgramHeader.last]
    rw [ProgramHeader.last] at he
    omega
  rw [UInt32.lt_iff_toNat_lt, hadd]

/-- The next page. -/
theorem toNat_next (h : va.toNat < 3 * 2 ^ 30) :
    (PTE_ADDR va + 0x1000).toNat = 4096 * (va.toNat / 4096) + 4096 := by
  rw [UInt32.toNat_add, toNat_PTE_ADDR]
  show (4096 * (va.toNat / 4096) + 4096) % 2 ^ 32 = _
  omega

/-- **The loop over the pages** fails only for want of pages. -/
theorem loadSegment_extends (he : ph.last ≤ 3 * 2 ^ 30) (hl : FreeList m l) (ho : OwnTree m l u)
    (hva : va.toNat < ph.last + 4096) (hfuel : ph.last + 4096 ≤ 4096 * (va.toNat / 4096 + fuel)) :
    Extends u (placesOf (pagesFrom va.toNat ph.last)) m l
      (loadSegment d elf_off ph (page2kva u) fuel va num m) := by
  induction fuel generalizing va num m l with
  | zero => omega
  | succ fuel ih =>
    rw [loadSegment]
    split
    · next hlt =>
      rw [lt_last_iff he] at hlt
      have huser : va < KOFFSET := UInt32.lt_iff_toNat_lt.mpr (by
        show va.toNat < 3 * 2 ^ 30
        omega)
      have hnext := @toNat_next va (by omega)
      rw [pagesFrom_of_lt he hlt, placesOf_union, ← hnext]
      refine (loadPage_spec hl ho huser).1.bind fun m' l' _ h => ?_
      exact ih h.free h.own (by omega) (by omega)
    · next hle =>
      rw [lt_last_iff he] at hle
      rw [pagesFrom_of_le (by omega)]
      exact ⟨l, .refl hl ho (Finset.empty_subset _)⟩

/-! ### What is loaded -/

/-- The byte that comes to byte `k` of the segment: a byte of the file, or of the rest of its last
sector, or zero. -/
def segByte (d : Disk) (b : ℕ) (ph : ProgramHeader) (k : ℕ) : UInt8 :=
  if k < ph.filesz.toNat ∨ 0 < ph.filesz.toNat ∧
      (ph.off.toNat + k) / 512 = (ph.off.toNat + ph.filesz.toNat - 1) / 512 then
    diskByte d (512 * b + ph.off.toNat + k)
  else 0

/-- The byte at a user address. -/
def ByteAt (m : Memory) (u v : ℕ) (b : UInt8) : Prop :=
  ∃ p, pageAt m u (framePlace (v / 4096)) = some p ∧ (m.frames p).get (v % 4096) = b

/-- What is promised of a segment of a file whose first block is `b`. -/
structure SegmentOk (b : ℕ) (ph : ProgramHeader) : Prop where
  aligned : ph.off.toNat % 4096 = ph.vaddr.toNat % 4096
  filesz_le : ph.filesz.toNat ≤ ph.memsz.toNat
  onDisk : 0 < ph.filesz.toNat → 512 * b + ph.off.toNat + ph.filesz.toNat ≤ 2 ^ 29
  user : ph.last ≤ 3 * 2 ^ 30

/-- Where the loop is: at the start of the segment or of a later page of it, when `num` bytes of the
file have been loaded. -/
structure LoopAt (ph : ProgramHeader) (va num : UInt32) : Prop where
  start : va = ph.vaddr ∨ ph.vaddr.toNat < va.toNat ∧ va.toNat % 4096 = 0
  num : num.toNat = min ph.filesz.toNat (va.toNat - ph.vaddr.toNat)

theorem LoopAt.le (h : LoopAt ph va num) : ph.vaddr.toNat ≤ va.toNat := by
  rcases h.start with h | h
  · rw [h]
  · exact h.1.le

/-- The bytes of the file that go into the page. -/
theorem LoopAt.toNat_pageRest (h : LoopAt ph va num) :
    (pageRest ph va num).toNat =
      min (4096 - va.toNat % 4096) (ph.filesz.toNat - num.toNat) := by
  have hnum := h.num
  have hle : num ≤ ph.filesz := UInt32.le_iff_toNat_le.mpr (by omega)
  have hsub := UInt32.toNat_sub_of_le _ _ hle
  have hrest : (UInt32.ofNat (PGSIZE - PGOFF va)).toNat = 4096 - va.toNat % 4096 := by
    rw [UInt32.toNat_ofNat', PGOFF_eq, PGSIZE]
    omega
  rw [pageRest]
  split
  · next hlt =>
    rw [UInt32.lt_iff_toNat_lt, hsub, hrest] at hlt
    omega
  · next hge =>
    rw [UInt32.lt_iff_toNat_lt, hsub, hrest] at hge
    omega

theorem LoopAt.next (h : LoopAt ph va num) (hva : va.toNat < 3 * 2 ^ 30) :
    LoopAt ph (PTE_ADDR va + 0x1000) (num + pageRest ph va num) := by
  have hle := h.le
  have hnext := toNat_next hva
  have hrest := h.toNat_pageRest
  have hnum := h.num
  have hfile := ph.filesz.toNat_lt
  refine ⟨.inr (by omega), ?_⟩
  rw [UInt32.toNat_add, hnext, hrest]
  omega

/-- The offset that `readseg` is called with. -/
theorem int32_elfOffset (h : elf_off.toNat * 512 + ph.off.toNat + num.toNat < 2 ^ 31) :
    int32 ((elf_off * 512 + ph.off + num).toNat : ℤ) =
      ((512 * elf_off.toNat + ph.off.toNat + num.toNat : ℕ) : ℤ) := by
  have hmul : (elf_off * 512).toNat = elf_off.toNat * 512 := by
    rw [UInt32.toNat_mul]
    show elf_off.toNat * 512 % 2 ^ 32 = _
    omega
  have hadd : (elf_off * 512 + ph.off + num).toNat =
      512 * elf_off.toNat + ph.off.toNat + num.toNat := by
    rw [UInt32.toNat_add, UInt32.toNat_add, hmul]
    omega
  rw [hadd, int32_eq (by omega) (by omega)]

/-- **What is in `sec_buf`.** -/
theorem LoopAt.secBuf_eq (h : LoopAt ph va num) (hs : SegmentOk elf_off.toNat ph) {k : ℕ}
    (hk : va.toNat ≤ ph.vaddr.toNat + k)
    (hpage : (ph.vaddr.toNat + k) / 4096 = va.toNat / 4096) :
    secBuf d elf_off ph va num ((ph.vaddr.toNat + k) % 4096 : ℕ) =
      segByte d elf_off.toNat ph k := by
  have hle := h.le
  have hnum := h.num
  have hrest := h.toNat_pageRest
  have haligned := hs.aligned
  have hstart : va.toNat = ph.vaddr.toNat ∨ va.toNat % 4096 = 0 := by
    rcases h.start with h | h
    · exact .inl (by rw [h])
    · exact .inr h.2
  rw [secBuf, segByte]
  split
  · next hne =>
    have hpos : 0 < (pageRest ph va num).toNat := by
      rw [Nat.pos_iff_ne_zero]
      exact fun h0 => hne (UInt32.toNat_inj.mp h0)
    have hdisk := hs.onDisk (by omega)
    rw [int32_elfOffset (by omega), readseg_mem (by omega), PGOFF_eq]
    refine if_ctx_congr (by omega) (fun hin => ?_) fun _ => rfl
    congr 1
    omega
  · next hzero =>
    have hzero : (pageRest ph va num).toNat = 0 := by
      rw [not_not.mp hzero]
      rfl
    rw [if_neg (by omega)]

/-- **The bytes of the segment** are in memory after the loop. -/
theorem loadSegment_bytes (hs : SegmentOk elf_off.toNat ph) (hl : FreeList m l) (ho : OwnTree m l u)
    (hat : LoopAt ph va num) (hva : va.toNat < ph.last + 4096)
    (hfuel : ph.last + 4096 ≤ 4096 * (va.toNat / 4096 + fuel))
    (hm : loadSegment d elf_off ph (page2kva u) fuel va num m = some m') {k : ℕ}
    (hk : va.toNat ≤ ph.vaddr.toNat + k) (hlt : k < ph.memsz.toNat) :
    ByteAt m' u (ph.vaddr.toNat + k) (segByte d elf_off.toNat ph k) := by
  induction fuel generalizing va num m l with
  | zero => omega
  | succ fuel ih =>
    have hlast : ph.vaddr.toNat + k < ph.last := by
      rw [ProgramHeader.last]
      omega
    have huser := hs.user
    have hin : va.toNat < ph.last := by omega
    have hva' : va < KOFFSET := UInt32.lt_iff_toNat_lt.mpr (by
      show va.toNat < 3 * 2 ^ 30
      omega)
    have hnext := @toNat_next va (by omega)
    rw [loadSegment, if_pos ((lt_last_iff huser).mpr hin), Option.bind_eq_some_iff] at hm
    obtain ⟨m₁, hm₁, hm⟩ := hm
    obtain ⟨hext, hbytes⟩ := @loadPage_spec u m l va num d elf_off ph hl ho hva'
    rw [hm₁] at hext
    obtain ⟨l₁, h₁⟩ := hext
    by_cases hpage : (ph.vaddr.toNat + k) / 4096 = va.toNat / 4096
    · obtain ⟨p, hp, hget⟩ := hbytes m₁ hm₁
      have hrest := @loadSegment_extends u fuel m₁ l₁ (PTE_ADDR va + 0x1000)
        (num + pageRest ph va num) d elf_off ph huser h₁.free h₁.own (by omega) (by omega)
      rw [hm] at hrest
      obtain ⟨l', h'⟩ := hrest
      have hout : framePlace (va.toNat / 4096) ∉
          placesOf (pagesFrom (PTE_ADDR va + 0x1000).toNat ph.last) := by
        rw [framePlace_mem (fun k hk => lt_of_mem_pagesFrom hk) (by omega), mem_pagesFrom huser]
        omega
      refine ⟨p, ?_, ?_⟩
      · rw [hpage]
        exact h'.place _ p hp
      · rw [h'.frames _ _ p hout hp, hget _ (Nat.mod_lt _ (by decide)),
          hat.secBuf_eq hs hk hpage]
    · exact ih h₁.free h₁.own (hat.next (by omega)) (by omega) (by omega) hm (by omega)

end Segment

end OsLab

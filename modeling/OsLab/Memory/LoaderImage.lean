import OsLab.Memory.Fork
import OsLab.Memory.LoadSegment

/-!
# The game's image

`loader` from the disk to the finished address space. Each `PT_LOAD` segment of the game's file gets
the pages it touches, and what is in them is what `loadSegment` puts there: the later segments, the
stack and the video table do not come near.

A segment's last file byte may be inside a sector. The rest of that sector is read with it and stays
in the page, also where the segment goes on with bytes that ought to be zero.

## Main definitions

* `gameByte` — byte `k` of segment `i`
* `gamePages` — the pages of the game
* `LoadsGame` — the loader builds the image that the file describes
* `FitsMemory` — there are pages enough for the frames and the tables
* `TailsClear` — behind the last file byte of each segment, its sector holds zeros as far as the
  segment goes

## Main results

* `loadMemory_spec` — which bytes are in the image, and when there are enough pages for it
* `loaderImage_iff` — when the image is the one the file describes
-/

namespace OsLab

/-! ## The file -/

/-- Program header `i` of the file. -/
def gameHeader (data : List UInt8) (i : ℕ) : ProgramHeader := programHeader (fileBuffer data) i

/-- The number of program headers. -/
def gameHeaders (data : List UInt8) : ℕ := phnum (fileBuffer data)

/-- Header `i` of the file is a `PT_LOAD` segment. -/
def IsGameSegment (data : List UInt8) (i : ℕ) : Prop :=
  i < gameHeaders data ∧ (gameHeader data i).type = PT_LOAD

/-- **A game.** -/
structure GameElf (data : List UInt8) : Prop where
  /-- The ELF header and the program headers are in the first 4096 bytes of the file. -/
  header : 52 ≤ data.length
  headers : phoff (fileBuffer data) + 32 * gameHeaders data ≤ min 4096 data.length
  align : ∀ i, IsGameSegment data i →
    (gameHeader data i).off.toNat % 4096 = (gameHeader data i).vaddr.toNat % 4096
  size : ∀ i, IsGameSegment data i →
    (gameHeader data i).filesz.toNat ≤ (gameHeader data i).memsz.toNat
  /-- What is to be loaded is there. -/
  inFile : ∀ i, IsGameSegment data i → 0 < (gameHeader data i).filesz.toNat →
    (gameHeader data i).off.toNat + (gameHeader data i).filesz.toNat ≤ data.length
  low : ∀ i, IsGameSegment data i → 2 ^ 22 ≤ (gameHeader data i).vaddr.toNat
  high : ∀ i, IsGameSegment data i → (gameHeader data i).last ≤ (KOFFSET - STACK_SIZE).toNat
  /-- No two of them touch the same page. -/
  disjoint : ∀ i j, IsGameSegment data i → IsGameSegment data j → i ≠ j →
    ∀ k < (gameHeader data i).memsz.toNat, ∀ l < (gameHeader data j).memsz.toNat,
      ((gameHeader data i).vaddr.toNat + k) / 4096 ≠ ((gameHeader data j).vaddr.toNat + l) / 4096

/-- Byte `k` of segment `i`. -/
def gameByte (data : List UInt8) (i k : ℕ) : UInt8 :=
  if k < (gameHeader data i).filesz.toNat then data.getD ((gameHeader data i).off.toNat + k) 0
  else 0

section File

variable {d : Disk} {data : List UInt8} {b i : ℕ} {stack : Mem}

theorem segOffset_of_lt {v : UInt32} (h : v.toNat < NR_BLOCK) :
    segOffset v = 512 * (v.toNat : ℕ) := by
  simp only [NR_BLOCK, BITMAP_SIZE] at h
  have hmul : (v * 512).toNat = v.toNat * 512 := by
    rw [UInt32.toNat_mul]
    show v.toNat * 512 % 2 ^ 32 = _
    omega
  rw [segOffset, hmul, int32_eq (by omega) (by omega)]
  omega

theorem readBuffer_eq (d : Disk) (buf : Mem) (count offset : ℤ) :
    readBuffer d buf count offset = (readseg 0 count offset ⟨d, buf, []⟩).mem := rfl

/-- A word of a block in a buffer. -/
theorem wordAt_readBuffer {block : ℕ} {o : ℤ} (ho : o = 512 * block) (h : block < NR_BLOCK) {p : ℕ}
    (hp : p + 4 ≤ 512) : wordAt (readBuffer d stack 512 o) (p : ℕ) = (d (block + 1)).get32 p := by
  have hword := @wordAt_readseg ⟨d, stack, []⟩ 0 o block ho h p hp
  rwa [Int.zero_add] at hword

/-- The block that the file starts with. -/
theorem toNat_elfOff (hst : ElfStored d 1 data b) (stack : Mem) : (elfOff stack d).toNat = b := by
  have hdir := @wordAt_readBuffer d stack 256 BITMAP_SIZE (by decide) (by decide) 60 (by decide)
  have hinode := @wordAt_readBuffer d stack _ _ (segOffset_of_lt hst.inode) hst.inode 0 (by decide)
  rw [Nat.cast_ofNat] at hdir
  rw [Nat.cast_zero] at hinode
  have hentry : inodeOffset (d 257) 1 = wordAt (readBuffer d stack 512 BITMAP_SIZE) (32 * 1 + 28) :=
    hdir.symm
  rw [elfOff, ← hentry, hinode, ← hst.first, dataBlockOffset]

theorem first_lt (hst : ElfStored d 1 data b) (helf : GameElf data) : b < NR_BLOCK := by
  have hroom := hst.room
  have hheader := helf.header
  omega

/-- The first bytes of the file are in `buffer`. -/
theorem elfBuffer_eq (hst : ElfStored d 1 data b) (helf : GameElf data) {p : ℕ} (hp : p < 4096)
    (hlt : p < data.length) : elfBuffer stack d (p : ℕ) = fileBuffer data (p : ℕ) := by
  have hb := first_lt hst helf
  have hoff := toNat_elfOff hst stack
  have hread := @readseg_sectors ⟨d, stack, []⟩ 0 4096 (segOffset (elfOff stack d)) b 8 (by decide)
    (by rw [segOffset_of_lt (by omega), hoff])
    (by simp only [NR_BLOCK, BITMAP_SIZE] at hb; omega) p (by omega)
  rw [Int.zero_add] at hread
  rw [elfBuffer, readBuffer_eq, hread, hst.contents p hlt, fileBuffer, Int.toNat_natCast]

theorem programHeader_congr {buf : Mem} (hphoff : phoff buf = phoff (fileBuffer data))
    (h : ∀ k : ℕ, k < 24 → buf ((phoff (fileBuffer data) + 32 * i : ℕ) + k) =
      fileBuffer data ((phoff (fileBuffer data) + 32 * i : ℕ) + k)) :
    programHeader buf i = gameHeader data i := by
  have htype := headerWord_congr h (show 0 ≤ 20 by decide)
  rw [Nat.cast_zero, Int.add_zero] at htype
  have h4 := headerWord_congr h (show 4 ≤ 20 by decide)
  have h8 := headerWord_congr h (show 8 ≤ 20 by decide)
  have h16 := headerWord_congr h (show 16 ≤ 20 by decide)
  have h20 := headerWord_congr h (show 20 ≤ 20 by decide)
  simp only [Nat.cast_ofNat] at h4 h8 h16 h20
  simp only [gameHeader, programHeader, hphoff, htype, h4, h8, h16, h20]

/-- **The headers the loader sees** are those of the file. -/
theorem elfBuffer_headers (hst : ElfStored d 1 data b) (helf : GameElf data) (stack : Mem) :
    phnum (elfBuffer stack d) = gameHeaders data ∧
      ∀ i < gameHeaders data, programHeader (elfBuffer stack d) i = gameHeader data i := by
  have hheaders := helf.headers
  have hbytes : ∀ p : ℕ, p < 4096 → p < data.length →
      elfBuffer stack d (p : ℕ) = fileBuffer data (p : ℕ) := fun p hp hlt =>
    elfBuffer_eq hst helf hp hlt
  obtain ⟨hphoff, hphnum⟩ := sameHeader_of_bytes helf.header hbytes
  refine ⟨hphnum, fun i hi => programHeader_congr hphoff fun k hk => ?_⟩
  rw [← Nat.cast_add]
  exact elfBuffer_eq hst helf (by omega) (by omega)

/-- What `loadSegment` asks of a segment. -/
theorem GameElf.segmentOk (helf : GameElf data) (hst : ElfStored d 1 data b)
    (hi : IsGameSegment data i) : SegmentOk b (gameHeader data i) := by
  refine ⟨helf.align i hi, helf.size i hi, fun hpos => ?_, ?_⟩
  · have hfile := helf.inFile i hi hpos
    have hroom := hst.room
    simp only [NR_BLOCK, BITMAP_SIZE] at hroom
    omega
  · have hhigh := helf.high i hi
    have htop : (KOFFSET - STACK_SIZE).toNat = 0xBFC00000 := by decide
    omega

end File

/-! ## The pages it needs -/

/-- The pages that header `i` asks for. -/
def segmentPages (data : List UInt8) (i : ℕ) : Finset ℕ :=
  if (gameHeader data i).type = PT_LOAD then
    pagesFrom (gameHeader data i).vaddr.toNat (gameHeader data i).last
  else ∅

/-- The pages of the stack. -/
def stackPages : Finset ℕ := (Finset.range 786432).filter (785408 ≤ ·)

/-- The pages of the game. -/
def gamePages (data : List UInt8) : Finset ℕ :=
  (Finset.range (gameHeaders data)).biUnion (segmentPages data) ∪ stackPages

section Pages

variable {data : List UInt8} {s : Finset ℕ} {n : ℕ}

theorem lt_of_mem_segmentPages {i : ℕ} (h : n ∈ segmentPages data i) : n < 786432 := by
  rw [segmentPages] at h
  split at h
  · exact lt_of_mem_pagesFrom h
  · exact absurd h (Finset.notMem_empty n)

theorem lt_of_mem_gamePages (h : n ∈ gamePages data) : n < 786432 := by
  rw [gamePages, Finset.mem_union, Finset.mem_biUnion] at h
  rcases h with ⟨i, -, hi⟩ | hstack
  · exact lt_of_mem_segmentPages hi
  · exact Finset.mem_range.mp (Finset.mem_filter.mp hstack).1

theorem placesOf_biUnion (t : Finset ℕ) (f : ℕ → Finset ℕ) :
    placesOf (t.biUnion f) = t.biUnion fun i => placesOf (f i) :=
  Finset.biUnion_biUnion t f _

theorem tablePlace_eq_iff {k : ℕ} (hn : n < 786432) (hk : k < 786432) :
    tablePlace n = tablePlace k ↔ n / 1024 = k / 1024 := by
  rw [tablePlace, tablePlace, Pos.table.injEq, Fin.ext_iff, Fin.val_ofNat, Fin.val_ofNat]
  omega

/-- A page for each frame, and one for each table. -/
theorem card_placesOf (hs : ∀ n ∈ s, n < 786432) :
    (placesOf s).card = s.card + (s.image (· / 1024)).card := by
  have hplaces : placesOf s = s.image framePlace ∪ s.image tablePlace := by
    ext x
    simp only [placesOf, Finset.mem_biUnion, Finset.mem_union, Finset.mem_singleton,
      Finset.mem_image]
    constructor
    · rintro ⟨n, hn, rfl | rfl⟩
      · exact .inr ⟨n, hn, rfl⟩
      · exact .inl ⟨n, hn, rfl⟩
    · rintro (⟨n, hn, rfl⟩ | ⟨n, hn, rfl⟩)
      · exact ⟨n, hn, .inr rfl⟩
      · exact ⟨n, hn, .inl rfl⟩
  have hapart : Disjoint (s.image framePlace) (s.image tablePlace) := by
    rw [Finset.disjoint_left]
    intro x hx hx'
    obtain ⟨n, -, rfl⟩ := Finset.mem_image.mp hx
    obtain ⟨k, -, hk⟩ := Finset.mem_image.mp hx'
    exact Pos.frame_ne_table _ _ _ hk.symm
  have hframes : (s.image framePlace).card = s.card :=
    Finset.card_image_of_injOn fun n hn k hk h => framePlace_inj (hs n hn) (hs k hk) h
  have htables : (s.image tablePlace).card = (s.image (· / 1024)).card := by
    have himage : s.image tablePlace =
        (s.image (· / 1024)).image fun i => tablePlace (1024 * i) := by
      rw [Finset.image_image]
      refine Finset.image_congr fun n hn => ?_
      have hlt := hs n hn
      rw [Function.comp_apply, tablePlace_eq_iff hlt (by omega)]
      omega
    rw [himage]
    refine Finset.card_image_of_injOn fun i hi j hj h => ?_
    obtain ⟨n, hn, rfl⟩ := Finset.mem_image.mp (Finset.mem_coe.mp hi)
    obtain ⟨k, hk, rfl⟩ := Finset.mem_image.mp (Finset.mem_coe.mp hj)
    have hn' := hs n hn
    have hk' := hs k hk
    have h := (tablePlace_eq_iff (by omega) (by omega)).mp h
    omega
  rw [hplaces, Finset.card_union_of_disjoint hapart, hframes, htables]

end Pages

/-! ## The user directory before -/

section Start

variable {P : KernelPages} {m : Memory}

/-- **`init_mm`** leaves a directory without user entries. -/
theorem initMm_spec (P : KernelPages) (m : Memory) :
    (∀ x, x ≠ .dir → pageAt (initMm P m) P.updir x = none) ∧
      (initMm P m).page_free_list = m.page_free_list := by
  have hu := P.updir_le
  have hk := P.kpdir_le
  have hzero : (m.setFrame P.updir zeroFrame).frames P.updir = zeroFrame := Function.update_self ..
  obtain ⟨f, hcpy, huser, -⟩ := Memory.memcpy_kernel hzero (q := P.kpdir) (by omega) (by omega)
  rw [initMm, Memory.memset_page (by omega), hcpy]
  refine ⟨fun x hx => pageAt_eq_none (fun i => ?_) hx, rfl⟩
  rw [Memory.target_eq_none, huser i i.isLt]
  exact not_present_zero

/-- What `page_init` leaves: all pages are free that are not reserved, and the user directory has no
user entries. -/
structure LoadStart (P : KernelPages) (m : Memory) (l : List ℕ) : Prop where
  free : FreeList m l
  own : OwnTree m l P.updir
  length : l.length = npages - 1025
  high : ∀ p ∈ l, 1024 < p
  empty : positions m P.updir = {.dir}

theorem loadStart_pageInit (P : KernelPages) (m : Memory) (h : m.page_free_list = none) :
    ∃ l, LoadStart P (pageInit (initMm P m)) l := by
  have hu := P.updir_le
  obtain ⟨hempty, hlist⟩ := initMm_spec P m
  obtain ⟨l, hl, hmem, -, hframes⟩ := freeList_pageInit (hlist.trans h)
  have htree : pageAt (pageInit (initMm P m)) P.updir = pageAt (initMm P m) P.updir :=
    pageAt_congr (by rw [hframes]) fun i t _ => by rw [hframes]
  have hdir : ∀ x p, pageAt (pageInit (initMm P m)) P.updir x = some p →
      x = .dir ∧ p = P.updir := by
    intro x p hx
    by_cases hxd : x = .dir
    · subst hxd
      exact ⟨rfl, (Option.some.inj hx).symm⟩
    · rw [htree, hempty x hxd] at hx
      exact absurd hx.symm (Option.some_ne_none p)
  refine ⟨l, hl, ⟨fun x p hx => ?_, fun x p hx hp => ?_, fun x y p hx hy => ?_⟩, hl.length_eq hmem,
    fun p hp => ((hmem p).mp hp).1, ?_⟩
  · rw [(hdir x p hx).2, npages]
    omega
  · rw [(hdir x p hx).2, hmem] at hp
    omega
  · rw [(hdir x p hx).1, (hdir y p hy).1]
  · ext x
    rw [mem_positions, Finset.mem_singleton]
    constructor
    · intro hx
      obtain ⟨p, hp⟩ := Option.isSome_iff_exists.mp hx
      exact (hdir x p hp).1
    · rintro rfl
      rfl

/-- **There are pages enough**, or extending the user directory fails. -/
theorem LoadStart.isSome_iff {l : List ℕ} {s : Finset ℕ} {r : Option Memory} (h : LoadStart P m l)
    (hs : ∀ n ∈ s, n < 786432) (hext : Extends P.updir (placesOf s) m l r) :
    (∃ m', r = some m') ↔ s.card + (s.image (· / 1024)).card ≤ npages - 1025 := by
  have hdir : Disjoint {Pos.dir} (placesOf s) := by
    rw [Finset.disjoint_singleton_left, placesOf, Finset.mem_biUnion]
    rintro ⟨k, -, hk⟩
    rw [Finset.mem_union, Finset.mem_singleton, Finset.mem_singleton] at hk
    rcases hk with hk | hk
    · exact Pos.table_ne_dir _ hk.symm
    · exact Pos.frame_ne_dir _ _ hk.symm
  have hcard : (positions m P.updir ∪ placesOf s).card =
      1 + (s.card + (s.image (· / 1024)).card) := by
    rw [h.empty, Finset.card_union_of_disjoint hdir, Finset.card_singleton, card_placesOf hs]
  have hempty : (positions m P.updir).card = 1 := by
    rw [h.empty, Finset.card_singleton]
  have hlength := h.length
  constructor
  · rintro ⟨m', rfl⟩
    obtain ⟨l', h'⟩ := hext
    have hle := h'.card_le
    rw [hcard, hempty] at hle
    omega
  · intro hfits
    obtain ⟨m', l', hm', -⟩ := hext.exists_eq_some (by rw [hcard, hempty]; omega)
    exact ⟨m', hm'⟩

end Start

/-! ## The loops -/

section Loops

variable {d : Disk} {data : List UInt8} {b u i : ℕ} {m m' : Memory} {l l' : List ℕ} {stack : Mem}

/-- One header. -/
theorem loadHeader_extends (hst : ElfStored d 1 data b) (helf : GameElf data) (stack : Mem)
    (hi : i < gameHeaders data) (hl : FreeList m l) (ho : OwnTree m l u) :
    Extends u (placesOf (segmentPages data i)) m l
      (loadHeader d (elfOff stack d) (elfBuffer stack d) (page2kva u) i m) := by
  rw [loadHeader, (elfBuffer_headers hst helf stack).2 i hi, segmentPages]
  split
  · next htype =>
    have hok := helf.segmentOk hst ⟨hi, htype⟩
    have hlast := hok.user
    exact loadSegment_extends hlast hl ho
      (by rw [ProgramHeader.last]; omega) (by omega)
  · exact ⟨l, .refl hl ho (Finset.empty_subset _)⟩

/-- The bytes of the segment of one header. -/
theorem loadHeader_bytes (hst : ElfStored d 1 data b) (helf : GameElf data)
    (hi : IsGameSegment data i) (hl : FreeList m l) (ho : OwnTree m l u)
    (hm : loadHeader d (elfOff stack d) (elfBuffer stack d) (page2kva u) i m = some m') {k : ℕ}
    (hk : k < (gameHeader data i).memsz.toNat) :
    ByteAt m' u ((gameHeader data i).vaddr.toNat + k) (segByte d b (gameHeader data i) k) := by
  have hoff := toNat_elfOff hst stack
  have hok := helf.segmentOk hst hi
  have hlast := hok.user
  rw [loadHeader, (elfBuffer_headers hst helf stack).2 i hi.1] at hm
  rw [if_pos hi.2] at hm
  rw [← hoff] at hok ⊢
  refine loadSegment_bytes hok hl ho ⟨.inl rfl, ?_⟩ (by rw [ProgramHeader.last]; omega)
    (by omega) hm
    (Nat.le_add_right _ k) hk
  rw [Nat.sub_self, Nat.min_zero]
  rfl

/-- A byte of a segment is in one of the pages of the segment. -/
theorem mem_segmentPages (helf : GameElf data) (hi : IsGameSegment data i) {n : ℕ} :
    n ∈ segmentPages data i ↔
      ∃ k < (gameHeader data i).memsz.toNat, ((gameHeader data i).vaddr.toNat + k) / 4096 = n := by
  have hhigh := helf.high i hi
  have htop : (KOFFSET - STACK_SIZE).toNat = 0xBFC00000 := by decide
  rw [segmentPages, if_pos hi.2, mem_pagesFrom (by omega), ProgramHeader.last]
  constructor
  · rintro ⟨hlt, hle, hn⟩
    rcases Nat.lt_or_ge (4096 * n) (gameHeader data i).vaddr.toNat with hfirst | hlater
    · exact ⟨0, by omega, by omega⟩
    · exact ⟨4096 * n - (gameHeader data i).vaddr.toNat, by omega, by omega⟩
  · rintro ⟨k, hk, rfl⟩
    omega

/-- What is in memory after the first `n` headers. -/
structure LoadedTo (d : Disk) (data : List UInt8) (b u n : ℕ) (m₀ : Memory) (l₀ : List ℕ)
    (m : Memory) : Prop where
  extended : ∃ l, Extended u (placesOf ((Finset.range n).biUnion (segmentPages data))) m₀ l₀ m l
  bytes : ∀ i < n, IsGameSegment data i → ∀ k < (gameHeader data i).memsz.toNat,
    ByteAt m u ((gameHeader data i).vaddr.toNat + k) (segByte d b (gameHeader data i) k)

/-- A byte stays while other pages are made. -/
theorem ByteAt.extended {S : Finset ℕ} {v : ℕ} {x : UInt8} (h : ByteAt m u v x)
    (hext : Extended u (placesOf S) m l m' l') (hS : ∀ n ∈ S, n < 786432) (hv : v / 4096 < 786432)
    (hout : v / 4096 ∉ S) : ByteAt m' u v x := by
  obtain ⟨p, hp, hx⟩ := h
  have hplace : framePlace (v / 4096) ∉ placesOf S := fun hmem =>
    hout ((framePlace_mem hS hv).mp hmem)
  exact ⟨p, hext.place _ p hp, by rw [hext.frames _ _ p hplace hp, hx]⟩

/-- **The loop over the program headers.** -/
theorem loadHeaders_spec (hst : ElfStored d 1 data b) (helf : GameElf data) (stack : Mem)
    (hl : FreeList m l) (ho : OwnTree m l u) :
    Extends u (placesOf ((Finset.range (gameHeaders data)).biUnion (segmentPages data))) m l
        (countUpM (loadHeader d (elfOff stack d) (elfBuffer stack d) (page2kva u)) m
          (phnum (elfBuffer stack d))) ∧
      ∀ m', countUpM (loadHeader d (elfOff stack d) (elfBuffer stack d) (page2kva u)) m
          (phnum (elfBuffer stack d)) = some m' →
            LoadedTo d data b u (gameHeaders data) m l m' := by
  rw [(elfBuffer_headers hst helf stack).1]
  refine ⟨?_, fun m' hm' => ?_⟩
  · rw [placesOf_biUnion]
    exact Extends.countUpM hl ho fun i hi m' l' hl' ho' =>
      loadHeader_extends hst helf stack hi hl' ho'
  · refine countUpM_of_eq_some (P := fun n m' => LoadedTo d data b u n m l m') ?_ ?_ hm'
    · refine ⟨⟨l, ?_⟩, fun i hi => absurd hi (Nat.not_lt_zero i)⟩
      exact .refl hl ho (Finset.empty_subset _)
    · intro n hn y z hy hz
      obtain ⟨l', h'⟩ := hy.extended
      have hext := loadHeader_extends hst helf stack hn h'.free h'.own
      rw [hz] at hext
      obtain ⟨l'', h''⟩ := hext
      refine ⟨⟨l'', ?_⟩, fun i hi hseg k hk => ?_⟩
      · rw [Finset.range_add_one, Finset.biUnion_insert, Finset.union_comm, placesOf_union]
        exact h'.trans h''
      · rcases Nat.lt_succ_iff_lt_or_eq.mp hi with hlt | rfl
        · have hhigh := helf.high i hseg
          have htop : (KOFFSET - STACK_SIZE).toNat = 0xBFC00000 := by decide
          rw [ProgramHeader.last] at hhigh
          refine (hy.bytes i hlt hseg k hk).extended h'' (fun _ h => lt_of_mem_segmentPages h)
            (by omega) fun hmem => ?_
          -- header `n` has no page of segment `i`
          by_cases htype : (gameHeader data n).type = PT_LOAD
          · obtain ⟨j, hj, heq⟩ := (mem_segmentPages helf ⟨hn, htype⟩).mp hmem
            exact helf.disjoint n i ⟨hn, htype⟩ hseg (Nat.ne_of_gt hlt) j hj k hk heq
          · rw [segmentPages, if_neg htype] at hmem
            exact absurd hmem (Finset.notMem_empty _)
        · exact loadHeader_bytes hst helf hseg h'.free h'.own hz hk

/-- The first `n` pages of the stack. -/
theorem loadStack_rounds (hl : FreeList m l) (ho : OwnTree m l u) {n : ℕ} (hn : n ≤ 1024) :
    Extends u ((Finset.range n).biUnion fun j => placesOf {785408 + j}) m l
      (countUpM (loadStack (page2kva u)) m n) := by
  refine Extends.countUpM hl ho fun j hj m' l' hl' ho' => ?_
  have htop : (KOFFSET - STACK_SIZE).toNat = 0xBFC00000 := by decide
  have hva : (KOFFSET - STACK_SIZE + UInt32.ofNat (4096 * j)).toNat = 0xBFC00000 + 4096 * j := by
    rw [UInt32.toNat_add, htop, UInt32.toNat_ofNat']
    omega
  have huser : KOFFSET - STACK_SIZE + UInt32.ofNat (4096 * j) < KOFFSET := by
    rw [UInt32.lt_iff_toNat_lt, hva]
    show _ < 0xC0000000
    omega
  have hpage : (0xBFC00000 + 4096 * j) / 4096 = 785408 + j := by omega
  have hext := mmMalloc_extends hl' ho' huser
  rw [tablePos_eq huser, userPos_eq huser, hva, hpage, ← placesOf_singleton] at hext
  exact hext

/-- **The stack.** -/
theorem loadStack_extends (hl : FreeList m l) (ho : OwnTree m l u) {n : ℕ} (hn : n = 1024) :
    Extends u (placesOf stackPages) m l (countUpM (loadStack (page2kva u)) m n) := by
  have hstack : stackPages = (Finset.range n).biUnion fun j => {785408 + j} := by
    ext k
    simp only [stackPages, Finset.mem_filter, Finset.mem_range, Finset.mem_biUnion,
      Finset.mem_singleton]
    constructor
    · exact fun h => ⟨k - 785408, by omega, by omega⟩
    · rintro ⟨j, hj, rfl⟩
      omega
  rw [hstack, placesOf_biUnion]
  exact loadStack_rounds hl ho hn.le

end Loops

/-! ## The image -/

/-- The segments are in the address space of the directory, byte for byte. -/
def ImageOk (P : KernelPages) (data : List UInt8) (m : Memory) : Prop :=
  ∀ i, IsGameSegment data i → ∀ k < (gameHeader data i).memsz.toNat,
    userByte m (cr3Val (page2pa P.updir >>> 12)) ((gameHeader data i).vaddr + UInt32.ofNat k) =
      some (gameByte data i k)

/-- **The loader builds the image that the file describes.** -/
def LoadsGame (P : KernelPages) (stack : Mem) (d : Disk) (pid garbage : ℤ) (data : List UInt8)
    (k : Core) : Prop :=
  ∃ k', loader P stack d pid garbage k = some k' ∧ ImageOk P data k'.mem

/-- There are pages enough for the frames and the tables. -/
def FitsMemory (data : List UInt8) : Prop :=
  (gamePages data).card + ((gamePages data).image (· / 1024)).card ≤ npages - 1025

/-- Behind the last file byte of each segment, its sector holds zeros as far as the segment goes. -/
def TailsClear (d : Disk) (data : List UInt8) (b : ℕ) : Prop :=
  ∀ i, IsGameSegment data i → 0 < (gameHeader data i).filesz.toNat →
    ∀ k, (gameHeader data i).filesz.toNat ≤ k → k < (gameHeader data i).memsz.toNat →
      ((gameHeader data i).off.toNat + k) / 512 =
        ((gameHeader data i).off.toNat + (gameHeader data i).filesz.toNat - 1) / 512 →
      diskByte d (512 * b + (gameHeader data i).off.toNat + k) = 0

section Image

variable {P : KernelPages} {d : Disk} {data : List UInt8} {b i k v : ℕ} {m m' m₀ : Memory}
  {l : List ℕ} {stack : Mem} {x : UInt8}

/-- The video mapping is made in the directory's first entry and in a table of the kernel. -/
theorem createVideoMapping_spec (P : KernelPages) (m : Memory) :
    (∀ q, q ≠ P.updir → q ≠ P.vdtable → (createVideoMapping P m).frames q = m.frames q) ∧
      ∀ i, i ≠ 0 → (createVideoMapping P m).entry P.updir i = m.entry P.updir i := by
  have hu := P.updir_le
  have hv := P.vdtable_le
  rw [createVideoMapping]
  refine countUp_induction (n := 16) (P := fun _ (m' : Memory) =>
    (∀ q, q ≠ P.updir → q ≠ P.vdtable → m'.frames q = m.frames q) ∧
      ∀ i, i ≠ 0 → m'.entry P.updir i = m.entry P.updir i) ?_ fun j hj m' hm' => ?_
  · rw [Memory.setIndex_eq (by omega) (by omega)]
    refine ⟨fun q hq _ => ?_, fun i hi => Memory.entry_setEntry_of_ne (.inr hi)⟩
    rw [Memory.frames_setEntry, Function.update_of_ne hq]
  · rw [Memory.setIndex_eq (by omega) (by omega)]
    refine ⟨fun q hq hqv => ?_, fun i hi => ?_⟩
    · rw [Memory.frames_setEntry, Function.update_of_ne hqv, hm'.1 q hq hqv]
    · rw [Memory.entry_setEntry_of_ne (.inl (Ne.symm P.vdtable_ne)), hm'.2 i hi]

/-- Behind the first 4 MiB nothing changes with it. -/
theorem ByteAt.createVideoMapping (h : ByteAt m P.updir v x) (hv : 2 ^ 22 ≤ v)
    (hlt : v / 4096 < 786432)
    (hhigh : ∀ y p, y ≠ .dir → pageAt m P.updir y = some p → 1024 < p) :
    ByteAt (createVideoMapping P m) P.updir v x := by
  have hu := P.updir_le
  have hvd := P.vdtable_le
  obtain ⟨hframes, hentry⟩ := createVideoMapping_spec P m
  obtain ⟨p, hp, hx⟩ := h
  obtain ⟨t, ht, hpt⟩ := exists_table hp
  have hthigh := hhigh _ t (Pos.table_ne_dir _) ht
  have hphigh := hhigh _ p (Pos.frame_ne_dir _ _) hp
  have ht' :
      pageAt (OsLab.createVideoMapping P m) P.updir (.table (Fin.ofNat 768 (v / 4096 / 1024))) =
      some t := by
    refine (Memory.target_congr (hentry _ ?_)).trans ht
    rw [Fin.val_ofNat]
    omega
  refine ⟨p, ?_, by rw [hframes p (by omega) (by omega), hx]⟩
  rw [framePlace, pageAt_frame ht', Memory.target_congr (Memory.entry_congr
    (hframes t (by omega) (by omega)) _), hpt]

/-- The byte at a user address. -/
theorem ByteAt.userByte_eq {va : UInt32} (h : ByteAt m P.updir va.toNat x) (hva : va < KOFFSET) :
    userByte m (cr3Val (page2pa P.updir >>> 12)) va = some x := by
  have hu := P.updir_le
  obtain ⟨p, hp, hx⟩ := h
  rw [cr3Val_page2pa (by omega), OsLab.userByte_eq hva, PGNUM_page2pa (by omega), userPos_eq hva,
    hp,
    Option.map_some, PGOFF_eq, hx]

/-- What is loaded before the video mapping is made. -/
theorem loadMemory_eq (P : KernelPages) (stack : Mem) (d : Disk) (m : Memory) {n : ℕ}
    (hn : n = 1024) :
    loadMemory P stack d m =
      ((countUpM (loadHeader d (elfOff stack d) (elfBuffer stack d) (page2kva P.updir)) (pageInit m)
        (phnum (elfBuffer stack d))).bind fun m => countUpM (loadStack (page2kva P.updir)) m n).map
          (createVideoMapping P) := by
  rw [Option.map_bind, loadMemory, ← hn]
  rfl

/-- The pages that the loader asks for. -/
theorem loadPages_extends (hst : ElfStored d 1 data b) (helf : GameElf data) (stack : Mem)
    (h : LoadStart P m l) {n : ℕ} (hn : n = 1024) :
    Extends P.updir (placesOf (gamePages data)) m l
      ((countUpM (loadHeader d (elfOff stack d) (elfBuffer stack d) (page2kva P.updir)) m
        (phnum (elfBuffer stack d))).bind fun m =>
          countUpM (loadStack (page2kva P.updir)) m n) := by
  rw [gamePages, placesOf_union]
  exact (loadHeaders_spec hst helf stack h.free h.own).1.bind fun m' l' _ h' =>
    loadStack_extends h'.free h'.own hn

/-- **There are pages enough, or the loader fails.** -/
theorem loadMemory_isSome_iff (hst : ElfStored d 1 data b) (helf : GameElf data) (stack : Mem)
    (hboot : m₀.page_free_list = none) :
    (∃ m', loadMemory P stack d (initMm P m₀) = some m') ↔ FitsMemory data := by
  obtain ⟨n, hn⟩ : ∃ n, n = 1024 := ⟨_, rfl⟩
  obtain ⟨l, h⟩ := loadStart_pageInit P m₀ hboot
  have henough := h.isSome_iff (fun n hn => lt_of_mem_gamePages hn)
    (loadPages_extends hst helf stack h hn)
  rw [loadMemory_eq P stack d _ hn, FitsMemory, ← henough]
  constructor
  · rintro ⟨m', hm'⟩
    obtain ⟨m₁, hm₁, -⟩ := Option.map_eq_some_iff.mp hm'
    exact ⟨m₁, hm₁⟩
  · rintro ⟨m₁, hm₁⟩
    exact ⟨_, by rw [hm₁, Option.map_some]⟩

/-- **What is in the image.** -/
theorem loadMemory_spec (hst : ElfStored d 1 data b) (helf : GameElf data)
    (hboot : m₀.page_free_list = none) (hm : loadMemory P stack d (initMm P m₀) = some m')
    (hi : IsGameSegment data i) (hk : k < (gameHeader data i).memsz.toNat) :
    userByte m' (cr3Val (page2pa P.updir >>> 12)) ((gameHeader data i).vaddr + UInt32.ofNat k) =
      some (segByte d b (gameHeader data i) k) := by
  obtain ⟨n, hn⟩ : ∃ n, n = 1024 := ⟨_, rfl⟩
  obtain ⟨l, h⟩ := loadStart_pageInit P m₀ hboot
  have hext := loadPages_extends hst helf stack h hn
  have hlow := helf.low i hi
  have hhigh := helf.high i hi
  have htop : (KOFFSET - STACK_SIZE).toNat = 0xBFC00000 := by decide
  rw [ProgramHeader.last] at hhigh
  rw [loadMemory_eq P stack d _ hn] at hm
  obtain ⟨m₂, hm₂, rfl⟩ := Option.map_eq_some_iff.mp hm
  rw [hm₂] at hext
  obtain ⟨l₂, h₂⟩ := hext
  obtain ⟨m₁, hm₁, hstack⟩ := Option.bind_eq_some_iff.mp hm₂
  have hloaded := (loadHeaders_spec hst helf stack h.free h.own).2 m₁ hm₁
  obtain ⟨l₁, h₁⟩ := hloaded.extended
  have hstack' := loadStack_extends h₁.free h₁.own hn
  rw [hstack] at hstack'
  obtain ⟨l₃, h₃⟩ := hstack'
  have hva : ((gameHeader data i).vaddr + UInt32.ofNat k).toNat =
      (gameHeader data i).vaddr.toNat + k := by
    rw [UInt32.toNat_add, UInt32.toNat_ofNat']
    omega
  have huser : (gameHeader data i).vaddr + UInt32.ofNat k < KOFFSET := by
    rw [UInt32.lt_iff_toNat_lt, hva]
    show _ < 0xC0000000
    omega
  have hbyte := (hloaded.bytes i hi.1 hi k hk).extended h₃
    (fun n hn => Finset.mem_range.mp (Finset.mem_filter.mp hn).1) (by omega) fun hmem => by
      have hge := (Finset.mem_filter.mp hmem).2
      omega
  have hpages : ∀ y p, y ≠ .dir → pageAt m₂ P.updir y = some p → 1024 < p := fun y p hy hp => by
    rcases h₂.new y p hp with hold | hnew
    · have hin : y ∈ positions (pageInit (initMm P m₀)) P.updir :=
        mem_positions.mpr (by rw [hold]; rfl)
      rw [h.empty, Finset.mem_singleton] at hin
      exact absurd hin hy
    · exact h.high p hnew
  refine ByteAt.userByte_eq ?_ huser
  rw [hva]
  exact hbyte.createVideoMapping (by omega) (by omega) hpages

/-- What the file says, and what the sector with the last file byte holds. -/
theorem segByte_eq_gameByte_iff (hst : ElfStored d 1 data b) (helf : GameElf data)
    (hi : IsGameSegment data i) :
    segByte d b (gameHeader data i) k = gameByte data i k ↔
      ((gameHeader data i).filesz.toNat ≤ k → 0 < (gameHeader data i).filesz.toNat →
        ((gameHeader data i).off.toNat + k) / 512 =
          ((gameHeader data i).off.toNat + (gameHeader data i).filesz.toNat - 1) / 512 →
        diskByte d (512 * b + (gameHeader data i).off.toNat + k) = 0) := by
  rw [segByte, gameByte]
  rcases Nat.lt_or_ge k (gameHeader data i).filesz.toNat with hfile | hzero
  · have hin := helf.inFile i hi (by omega)
    rw [if_pos (.inl hfile), if_pos hfile, Nat.add_assoc, hst.contents _ (by omega)]
    exact iff_of_true rfl fun hle => absurd hle (Nat.not_le.mpr hfile)
  · rw [if_neg (Nat.not_lt.mpr hzero)]
    by_cases hsector : 0 < (gameHeader data i).filesz.toNat ∧
        ((gameHeader data i).off.toNat + k) / 512 =
          ((gameHeader data i).off.toNat + (gameHeader data i).filesz.toNat - 1) / 512
    · rw [if_pos (.inr hsector)]
      exact ⟨fun h _ _ _ => h, fun h => h hzero hsector.1 hsector.2⟩
    · rw [if_neg fun h => h.elim (fun h => absurd h (Nat.not_lt.mpr hzero)) hsector]
      exact iff_of_true rfl fun _ hpos heq => absurd ⟨hpos, heq⟩ hsector

/-- A right image shows that the rests of the sectors are clear. -/
theorem LoadsGame.tailsClear {pid garbage : ℤ} {procs : Procs} (hst : ElfStored d 1 data b)
    (helf : GameElf data) (hboot : m₀.page_free_list = none)
    (h : LoadsGame P stack d pid garbage data ⟨procs, initMm P m₀⟩) : TailsClear d data b := by
  obtain ⟨k', hk', himage⟩ := h
  obtain ⟨m', hm', rfl⟩ := Option.map_eq_some_iff.mp hk'
  intro i hi hpos k hle hlt hsector
  have hbyte := himage i hi k hlt
  rw [loadMemory_spec hst helf hboot hm' hi hlt] at hbyte
  exact (segByte_eq_gameByte_iff hst helf hi).mp (Option.some.inj hbyte) hle hpos hsector

/-- **When the loader builds the image**: there are pages enough, and behind the file part of each
segment the disk holds zeros up to the end of the sector. -/
theorem loaderImage_iff (P : KernelPages) (stack : Mem) (d : Disk) (pid garbage : ℤ)
    (data : List UInt8) (b : ℕ) (procs : Procs) (m : Memory) (hst : ElfStored d 1 data b)
    (helf : GameElf data) (hboot : m.page_free_list = none) :
    LoadsGame P stack d pid garbage data ⟨procs, initMm P m⟩ ↔
      FitsMemory data ∧ TailsClear d data b := by
  have hfits := loadMemory_isSome_iff (P := P) hst helf stack hboot
  constructor
  · intro h
    obtain ⟨k', hk', -⟩ := id h
    obtain ⟨m', hm', -⟩ := Option.map_eq_some_iff.mp hk'
    exact ⟨hfits.mp ⟨m', hm'⟩, h.tailsClear hst helf hboot⟩
  · rintro ⟨hroom, hclear⟩
    obtain ⟨m', hm'⟩ := hfits.mpr hroom
    refine ⟨_, by rw [loader, hm', Option.map_some], fun i hi k hk => ?_⟩
    dsimp only
    rw [loadMemory_spec hst helf hboot hm' hi hk]
    exact congrArg some ((segByte_eq_gameByte_iff hst helf hi).mpr fun hle hpos hsector =>
      hclear i hi hpos k hle hk hsector)

end Image

/-! ### A game of one segment -/

section Small

/-- Memory before the allocator is set up, and the kernel's tables in it. -/
def bootMemory : Memory := ⟨fun _ => ⟨none, 0⟩, none, fun _ => zeroFrame⟩

/-- Frames for the tables of the kernel. -/
def bootTables : KernelPages :=
  ⟨300, 301, 302, by decide, by decide, by decide, by decide, by decide, by decide⟩

theorem gameHeaders_bareElf (off filesz memsz : UInt8) :
    gameHeaders (bareElf off filesz memsz) = 1 :=
  phnum_bareElf off filesz memsz

theorem eq_zero_of_isGameSegment {off filesz memsz : UInt8} {i : ℕ}
    (h : IsGameSegment (bareElf off filesz memsz) i) : i = 0 := by
  have hlt := h.1
  rw [gameHeaders_bareElf] at hlt
  omega

/-- What is to be checked of a game with one program header. -/
theorem gameElf_bareElf {off filesz memsz : UInt8}
    (h : (gameHeader (bareElf off filesz memsz) 0).off.toNat +
        (gameHeader (bareElf off filesz memsz) 0).filesz.toNat ≤ 84 ∧
      (gameHeader (bareElf off filesz memsz) 0).off.toNat % 4096 =
        (gameHeader (bareElf off filesz memsz) 0).vaddr.toNat % 4096 ∧
      (gameHeader (bareElf off filesz memsz) 0).filesz.toNat ≤
        (gameHeader (bareElf off filesz memsz) 0).memsz.toNat ∧
      2 ^ 22 ≤ (gameHeader (bareElf off filesz memsz) 0).vaddr.toNat ∧
      (gameHeader (bareElf off filesz memsz) 0).last ≤ (KOFFSET - STACK_SIZE).toNat) :
    GameElf (bareElf off filesz memsz) := by
  obtain ⟨hfile, halign, hsize, hlow, hhigh⟩ := h
  refine ⟨(by decide : 52 ≤ 84), ?_, ?_, ?_, ?_, ?_, ?_, ?_⟩
  · rw [phoff_bareElf, gameHeaders_bareElf, length_bareElf]
    decide
  · exact fun i hi => by rw [eq_zero_of_isGameSegment hi, halign]
  · exact fun i hi => by rw [eq_zero_of_isGameSegment hi]; exact hsize
  · exact fun i hi _ => by rw [eq_zero_of_isGameSegment hi]; exact hfile
  · exact fun i hi => by rw [eq_zero_of_isGameSegment hi]; exact hlow
  · exact fun i hi => by rw [eq_zero_of_isGameSegment hi]; exact hhigh
  · exact fun i j hi hj hne =>
      absurd ((eq_zero_of_isGameSegment hi).trans (eq_zero_of_isGameSegment hj).symm) hne

theorem loaderImage_text :
    LoadsGame bootTables (fun _ => 0) (bareDisk 1 (bareElf 0 84 84)) 2 1 (bareElf 0 84 84)
        ⟨⟨fun _ => smallPCB, 1⟩, initMm bootTables bootMemory⟩ ↔
      FitsMemory (bareElf 0 84 84) ∧
        TailsClear (bareDisk 1 (bareElf 0 84 84)) (bareElf 0 84 84) 258 := by
  have hst := @elfStored_bareDisk 1 (bareElf 0 84 84) (by decide) (by decide)
  have helf := @gameElf_bareElf 0 84 84 (by decide)
  exact loaderImage_iff bootTables (fun _ => 0) (bareDisk 1 (bareElf 0 84 84)) 2 1 (bareElf 0 84 84)
    258 ⟨fun _ => smallPCB, 1⟩ bootMemory hst helf rfl

/-- **What is behind the file part of a segment** comes into its zeros. -/
theorem loaderImage_tail :
    ElfStored (bareDisk 1 (bareElf 0 40 84)) 1 (bareElf 0 40 84) 258 ∧ GameElf (bareElf 0 40 84) ∧
      ∀ stack procs, ¬LoadsGame bootTables stack (bareDisk 1 (bareElf 0 40 84)) 2 1
        (bareElf 0 40 84) ⟨procs, initMm bootTables bootMemory⟩ := by
  have hst := @elfStored_bareDisk 1 (bareElf 0 40 84) (by decide) (by decide)
  have helf := @gameElf_bareElf 0 40 84 (by decide)
  refine ⟨hst, helf, fun stack procs => ?_⟩
  intro hloads
  have hzero := (hloads.tailsClear hst helf rfl) 0 ⟨by decide, by decide⟩ (by decide) 44 (by decide)
    (by decide) (by decide)
  have hoff : 512 * 258 + (gameHeader (bareElf 0 40 84) 0).off.toNat + 44 = 512 * 258 + 44 := rfl
  rw [hoff, hst.contents 44 (by decide)] at hzero
  exact absurd hzero (by decide)

end Small

end OsLab

import OsLab.FileSystem.ElfFile
import OsLab.Lib.CountUp
import OsLab.Lib.LastWriter

/-!
# The boot loader

`bootmain` reads the directory, the inode of entry 0 and the first eight sectors of the file, and
then loads what the program headers list: for each `PT_LOAD` segment whole sectors from the one that
`paddr` is in to the one that the last byte of the file part is in, and then zeros.

Since `off` and `paddr` agree in their last twelve bits, a sector of the disk goes to a sector of a
page, so what is written besides the segment's own bytes is in pages that the segment has bytes in.
A segment that has no bytes at all is the exception: asked for no byte, `readseg` still reads a
sector if `off` is inside one.

## Main definitions

* `bootSegment` — the body of the loop over the program headers
* `bootmain` — `bootmain()`, up to the jump to the entry point
* `KernelElf` — a kernel image for a machine with the given number of physical pages, fewer than
  there are addresses for
* `LoadsKernel` — the loop builds the kernel image
* `LoopStart` — what the loop finds: the disk, and the first bytes of the file
* `EmptySegmentsFit` — the segments without bytes do no harm

## One round after the other

A round reads the next header from memory, and the rounds before it have written to memory. That the
header is still the one in the file is part of what is carried through the loop. Which byte a place
holds in the end is then decided by the last round that has written there, and the rounds need not
be followed one by one.

## Main results

* `bootSegment_mem` — what one round of the loop writes
* `loadsKernel_iff` — when the kernel is loaded
-/

namespace OsLab

/-! ## The code -/

/-- The members of a `struct ProgramHeader` that `bootmain` reads. -/
structure BootHeader where
  type : UInt32
  off : UInt32
  paddr : UInt32
  filesz : UInt32
  memsz : UInt32

/-- `*ph`, where `ph` is `a`. -/
def bootHeader (mem : Mem) (a : ℤ) : BootHeader where
  type := wordAt mem a
  off := wordAt mem (a + 4)
  paddr := wordAt mem (a + 12)
  filesz := wordAt mem (a + 16)
  memsz := wordAt mem (a + 20)

/-- `for (; i < e; *i ++ = 0)` -/
def zeroFill (i e : ℤ) (mem : Mem) : Mem :=
  if i < e then zeroFill (i + 1) e (Function.update mem i 0) else mem
termination_by (e - i).toNat
decreasing_by omega

/-- Assign to memory. -/
def Machine.setMem (m : Machine) (mem : Mem) : Machine := { m with mem := mem }

@[simp] theorem Machine.disk_setMem (m : Machine) (mem : Mem) : (m.setMem mem).disk = m.disk := rfl

@[simp] theorem Machine.mem_setMem (m : Machine) (mem : Mem) : (m.setMem mem).mem = mem := rfl

/-- The body of the loop over the program headers. -/
def bootSegment (elf_offset a : ℤ) (m : Machine) : Machine :=
  let ph := bootHeader m.mem a
  if ph.type = PT_LOAD then
    let pa : ℤ := ph.paddr.toNat
    let m := readseg pa (int32 ph.filesz.toNat) (int32 (ph.off.toNat + elf_offset * 512)) m
    m.setMem (zeroFill (pa + ph.filesz.toNat) (pa + ph.memsz.toNat) m.mem)
  else m

/-- The directory is read, and the inode of its entry 0. -/
def bootInode (m : Machine) : Machine :=
  let m := readseg 0x8000 512 (512 * 256 + 0) m
  let inode_offset := int32 (wordAt m.mem (0x8000 + 28)).toNat
  readseg 0x8500 512 (int32 (inode_offset * 512)) m

/-- `elf_offset`, which is `inode->data_block_offset[0]`. -/
def bootElfOffset (m : Machine) : ℤ := int32 (wordAt (bootInode m).mem 0x8500).toNat

/-- What comes before the loop: directory, inode and the start of the file are read. -/
def bootRead (m : Machine) : Machine :=
  readseg 0x8900 4096 (int32 (bootElfOffset m * 512)) (bootInode m)

/-- The loop over the program headers. -/
def bootLoop (elf_offset : ℤ) (m : Machine) : Machine :=
  let elf : Mem := fun a => m.mem (0x8900 + a)
  countUp (fun i => bootSegment elf_offset (0x8900 + (phoff elf + 32 * i : ℕ))) m (phnum elf)

/-- `bootmain()`, up to the jump to the entry point. -/
def bootmain (m : Machine) : Machine := bootLoop (bootElfOffset m) (bootRead m)

theorem zeroFill_get (i e : ℤ) (mem : Mem) (a : ℤ) :
    zeroFill i e mem a = if i ≤ a ∧ a < e then 0 else mem a := by
  fun_induction zeroFill i e mem with
  | case1 i mem hlt ih =>
    rw [ih, Function.update_apply]
    split_ifs <;> first | rfl | omega
  | case2 i mem hge => rw [if_neg (by omega)]

theorem bootHeader_congr {buf buf' : Mem} {a a' : ℤ}
    (h : ∀ k : ℕ, k < 24 → buf (a + k) = buf' (a' + k)) : bootHeader buf a =
      bootHeader buf' a' := by
  have htype := headerWord_congr h (show 0 ≤ 20 by decide)
  rw [Nat.cast_zero, Int.add_zero, Int.add_zero] at htype
  have h4 := headerWord_congr h (show 4 ≤ 20 by decide)
  have h12 := headerWord_congr h (show 12 ≤ 20 by decide)
  have h16 := headerWord_congr h (show 16 ≤ 20 by decide)
  have h20 := headerWord_congr h (show 20 ≤ 20 by decide)
  simp only [Nat.cast_ofNat] at h4 h12 h16 h20
  simp only [bootHeader, htype, h4, h12, h16, h20]

/-! ## The kernel on the disk -/

/-- Program header `i` of the file. -/
def kernelHeader (data : List UInt8) (i : ℕ) : BootHeader :=
  bootHeader (fileBuffer data) (phoff (fileBuffer data) + 32 * i : ℕ)

/-- The number of program headers. -/
def kernelHeaders (data : List UInt8) : ℕ := phnum (fileBuffer data)

/-- Header `i` of the file is a `PT_LOAD` segment. -/
def IsSegment (data : List UInt8) (i : ℕ) : Prop :=
  i < kernelHeaders data ∧ (kernelHeader data i).type = PT_LOAD

/-- **A kernel image** for a machine with the given number of physical pages, fewer than there are
addresses for. -/
structure KernelElf (data : List UInt8) (pages : ℕ) : Prop where
  memory : pages < 2 ^ 20
  /-- The ELF header and the program headers are in the first 4096 bytes of the file. -/
  header : 52 ≤ data.length
  headers : phoff (fileBuffer data) + 32 * kernelHeaders data ≤ min 4096 data.length
  align : ∀ i, IsSegment data i →
    (kernelHeader data i).off.toNat % 4096 = (kernelHeader data i).paddr.toNat % 4096
  size : ∀ i, IsSegment data i →
    (kernelHeader data i).filesz.toNat ≤ (kernelHeader data i).memsz.toNat
  low : ∀ i, IsSegment data i → 0x100000 ≤ (kernelHeader data i).paddr.toNat
  /-- What is to be loaded is there. -/
  inFile : ∀ i, IsSegment data i → 0 < (kernelHeader data i).filesz.toNat →
    (kernelHeader data i).off.toNat + (kernelHeader data i).filesz.toNat ≤ data.length
  /-- The segments are in physical memory. -/
  high : ∀ i, IsSegment data i →
    (kernelHeader data i).paddr.toNat + (kernelHeader data i).memsz.toNat ≤ 4096 * pages
  /-- No two of them touch the same page. -/
  disjoint : ∀ i j, IsSegment data i → IsSegment data j → i ≠ j →
    ∀ k < (kernelHeader data i).memsz.toNat, ∀ l < (kernelHeader data j).memsz.toNat,
      ((kernelHeader data i).paddr.toNat + k) / 4096 ≠
        ((kernelHeader data j).paddr.toNat + l) / 4096

/-- Byte `k` of segment `i`. -/
def segmentByte (data : List UInt8) (i k : ℕ) : UInt8 :=
  if k < (kernelHeader data i).filesz.toNat then data.getD ((kernelHeader data i).off.toNat + k) 0
  else 0

/-- Address `a` is in a page of segment `i`. -/
def InPages (data : List UInt8) (i : ℕ) (a : ℤ) : Prop :=
  IsSegment data i ∧ ∃ k < (kernelHeader data i).memsz.toNat,
    (((kernelHeader data i).paddr.toNat + k) / 4096 : ℕ) = a / 4096

/-- **The loop builds the kernel image.** Whatever was in memory: every byte of every segment is
right, and outside the pages of the segments nothing has changed. -/
def LoadsKernel (d : Disk) (data : List UInt8) : Prop :=
  ∀ mem : Mem,
    (∀ i, IsSegment data i → ∀ k < (kernelHeader data i).memsz.toNat,
      (bootmain ⟨d, mem, []⟩).mem ((kernelHeader data i).paddr.toNat + k) = segmentByte data i k) ∧
    ∀ a, (∀ i, ¬InPages data i a) →
      (bootmain ⟨d, mem, []⟩).mem a = (bootRead ⟨d, mem, []⟩).mem a

/-! ## One round -/

section Round

variable {d : Disk} {data : List UInt8} {b i pages : ℕ} {a : ℤ} {m : Machine}

/-- The offset that segment `i` is read from. -/
def segmentOffset (data : List UInt8) (b i : ℕ) : ℤ :=
  int32 ((kernelHeader data i).off.toNat + b * 512)

/-- Address `a` is in a sector that is read for segment `i`. -/
def ReadFor (data : List UInt8) (b i : ℕ) (a : ℤ) : Prop :=
  0 ≤ segmentOffset data b i ∧
    ((kernelHeader data i).paddr.toNat : ℤ) - (kernelHeader data i).paddr.toNat % 512 ≤ a ∧
      a < ((kernelHeader data i).paddr.toNat : ℤ) - (kernelHeader data i).paddr.toNat % 512 +
        512 * (((kernelHeader data i).paddr.toNat % 512 +
          (kernelHeader data i).filesz.toNat + 511) /
          512 : ℕ)

/-- Address `a` is in the part of segment `i` that is cleared. -/
def ZeroFor (data : List UInt8) (i : ℕ) (a : ℤ) : Prop :=
  ((kernelHeader data i).paddr.toNat + (kernelHeader data i).filesz.toNat : ℤ) ≤ a ∧
    a < (kernelHeader data i).paddr.toNat + (kernelHeader data i).memsz.toNat

instance : Decidable (ReadFor data b i a) := inferInstanceAs (Decidable (_ ∧ _))

instance : Decidable (ZeroFor data i a) := inferInstanceAs (Decidable (_ ∧ _))

/-- The addresses that the round of header `i` writes. -/
def LoadWrites (data : List UInt8) (b i : ℕ) (a : ℤ) : Prop :=
  IsSegment data i ∧ (ReadFor data b i a ∨ ZeroFor data i a)

/-- What it puts there. -/
def loadByte (d : Disk) (data : List UInt8) (b i : ℕ) (a : ℤ) : UInt8 :=
  if ZeroFor data i a then 0
  else diskByte d (segmentOffset data b i + (a - (kernelHeader data i).paddr.toNat)).toNat

/-- The offset has the last nine bits of the address. -/
theorem segmentOffset_mod (helf : KernelElf data pages) (hi : IsSegment data i)
    (h : 0 ≤ segmentOffset data b i) :
    (segmentOffset data b i).toNat % 512 = (kernelHeader data i).paddr.toNat % 512 := by
  have halign := helf.align i hi
  have hoff : ∃ q : ℤ, segmentOffset data b i =
      (kernelHeader data i).off.toNat + b * 512 + 2 ^ 32 * q := by
    rw [segmentOffset, int32, Int.bmod_def]
    split
    · exact ⟨-(((kernelHeader data i).off.toNat + b * 512 : ℤ) / 2 ^ 32), by omega⟩
    · exact ⟨-(((kernelHeader data i).off.toNat + b * 512 : ℤ) / 2 ^ 32) - 1, by omega⟩
  obtain ⟨q, hq⟩ := hoff
  omega

/-- A segment with a file part is read from where it is. -/
theorem segmentOffset_eq (hst : ElfStored d 0 data b) (helf : KernelElf data pages)
    (hi : IsSegment data i) (h : 0 < (kernelHeader data i).filesz.toNat) :
    segmentOffset data b i = (kernelHeader data i).off.toNat + b * 512 := by
  have hfile := helf.inFile i hi h
  have hroom := hst.room
  simp only [NR_BLOCK, BITMAP_SIZE] at hroom
  exact int32_eq (by omega) (by omega)

/-- Nothing is read from a negative offset if no byte is asked for. -/
theorem readseg_none {pa offset : ℤ} (h : offset < 0) : readseg pa 0 offset m = m := by
  have hmod := tmod_bounds offset (show (0 : ℤ) < 512 by decide)
  have hspec := tdiv_tmod_spec offset (show (0 : ℤ) < 512 by decide)
  rw [readseg, segLoop, if_neg (by omega)]

/-- What `readseg` writes for segment `i`. -/
theorem readseg_segment (hst : ElfStored d 0 data b) (helf : KernelElf data pages)
    (hi : IsSegment data i) (hdisk : m.disk = d) (a : ℤ) :
    (readseg (kernelHeader data i).paddr.toNat (int32 (kernelHeader data i).filesz.toNat)
      (segmentOffset data b i) m).mem a =
      if ReadFor data b i a then
        diskByte d (segmentOffset data b i + (a - (kernelHeader data i).paddr.toNat)).toNat
      else m.mem a := by
  have hbound : segmentOffset data b i + (kernelHeader data i).filesz.toNat < 2 ^ 31 ∧
      (kernelHeader data i).filesz.toNat < 2 ^ 31 := by
    have hlt := int32_lt ((kernelHeader data i).off.toNat + b * 512)
    rcases Nat.eq_zero_or_pos (kernelHeader data i).filesz.toNat with hzero | hpos
    · rw [hzero, Nat.cast_zero, Int.add_zero]
      exact ⟨hlt, by decide⟩
    · have hroom := hst.room
      have hfile := helf.inFile i hi hpos
      simp only [NR_BLOCK, BITMAP_SIZE] at hroom
      rw [segmentOffset_eq hst helf hi hpos]
      omega
  have hcount : int32 (kernelHeader data i).filesz.toNat = (kernelHeader data i).filesz.toNat :=
    int32_eq (by omega) (by omega)
  rw [hcount]
  rcases lt_or_ge (segmentOffset data b i) 0 with hneg | hpos
  · have hnone : (kernelHeader data i).filesz.toNat = 0 := by
      by_contra hne
      have heq := segmentOffset_eq hst helf hi (Nat.pos_of_ne_zero hne)
      omega
    have hnot : ¬ReadFor data b i a := fun h => absurd h.1 (not_le.mpr hneg)
    rw [if_neg hnot, hnone, Nat.cast_zero, readseg_none hneg]
  · have hmod := segmentOffset_mod helf hi hpos
    obtain ⟨o, ho⟩ := Int.eq_ofNat_of_zero_le hpos
    have hread : ReadFor data b i a ↔ ((kernelHeader data i).paddr.toNat : ℤ) - (o % 512 : ℕ) ≤ a ∧
        a < ((kernelHeader data i).paddr.toNat : ℤ) - (o % 512 : ℕ) +
          512 * ((o % 512 + (kernelHeader data i).filesz.toNat + 511) / 512 : ℕ) := by
      rw [ho, Int.toNat_natCast] at hmod
      rw [ReadFor, hmod]
      omega
    have hbyte : ((kernelHeader data i).paddr.toNat : ℤ) - (o % 512 : ℕ) ≤ a →
        512 * (o / 512) + (a - ((kernelHeader data i).paddr.toNat - (o % 512 : ℕ))).toNat =
          ((o : ℤ) + (a - (kernelHeader data i).paddr.toNat)).toNat := by omega
    rw [ho] at hbound ⊢
    rw [readseg_mem (by omega), hdisk]
    refine if_ctx_congr hread.symm (fun hin => ?_) fun _ => rfl
    rw [hbyte (hread.mp hin).1]

/-- A round that loads. -/
theorem bootSegment_load {elf_offset at_ : ℤ} {ph : BootHeader} (hhead : bootHeader m.mem at_ = ph)
    (htype : ph.type = PT_LOAD) (a : ℤ) :
    (bootSegment elf_offset at_ m).mem a =
      if (ph.paddr.toNat + ph.filesz.toNat : ℤ) ≤ a ∧ a < ph.paddr.toNat + ph.memsz.toNat then 0
      else (readseg ph.paddr.toNat (int32 ph.filesz.toNat)
        (int32 (ph.off.toNat + elf_offset * 512)) m).mem a := by
  rw [bootSegment, hhead]
  simp [if_pos htype, zeroFill_get]

/-- **One round of the loop.** -/
theorem bootSegment_mem (hst : ElfStored d 0 data b) (helf : KernelElf data pages)
    (hdisk : m.disk = d) {ph : ℤ} (hhead : bootHeader m.mem ph = kernelHeader data i)
    (hi : i < kernelHeaders data) (a : ℤ) :
    (LoadWrites data b i a → (bootSegment b ph m).mem a = loadByte d data b i a) ∧
      (¬LoadWrites data b i a → (bootSegment b ph m).mem a = m.mem a) := by
  by_cases htype : (kernelHeader data i).type = PT_LOAD
  · have hseg : IsSegment data i := ⟨hi, htype⟩
    have hmem : (bootSegment b ph m).mem a = if ZeroFor data i a then 0 else
        (readseg (kernelHeader data i).paddr.toNat (int32 (kernelHeader data i).filesz.toNat)
          (segmentOffset data b i) m).mem a := by
      rw [bootSegment_load hhead htype a, segmentOffset]
      exact if_congr Iff.rfl rfl rfl
    rw [hmem, readseg_segment hst helf hseg hdisk, loadByte]
    refine ⟨fun hw => ?_, fun hw => ?_⟩
    · by_cases hzero : ZeroFor data i a
      · rw [if_pos hzero, if_pos hzero]
      · rw [if_neg hzero, if_neg hzero, if_pos (hw.2.resolve_right hzero)]
    · rw [if_neg fun hzero => hw ⟨hseg, .inr hzero⟩, if_neg fun hread => hw ⟨hseg, .inl hread⟩]
  · have hsame : bootSegment b ph m = m := by simp only [bootSegment, hhead, if_neg htype]
    rw [hsame]
    exact ⟨fun h => absurd h.1.2 htype, fun _ => rfl⟩

/-! ### Which addresses a round writes -/

/-- A segment without bytes for which `readseg` reads a sector, and the addresses in that sector. -/
def Spills (data : List UInt8) (b i : ℕ) (a : ℤ) : Prop :=
  IsSegment data i ∧ (kernelHeader data i).memsz.toNat = 0 ∧ 0 ≤ segmentOffset data b i ∧
    (kernelHeader data i).paddr.toNat % 512 ≠ 0 ∧
      a / 512 = ((kernelHeader data i).paddr.toNat / 512 : ℕ)

theorem le_of_loadWrites (helf : KernelElf data pages) (h : LoadWrites data b i a) :
    0x100000 ≤ a := by
  have hlow := helf.low i h.1
  rcases h.2 with hread | hzero
  · have hle := hread.2.1
    omega
  · have hle := hzero.1
    omega

/-- A segment without bytes writes what it spills. -/
theorem loadWrites_iff_spills (helf : KernelElf data pages) (hi : IsSegment data i)
    (hnone : (kernelHeader data i).memsz.toNat = 0) :
    LoadWrites data b i a ↔ Spills data b i a := by
  have hsize := helf.size i hi
  have hfile : (kernelHeader data i).filesz.toNat = 0 := by omega
  have hsector : (0 ≤ segmentOffset data b i ∧
      ((kernelHeader data i).paddr.toNat : ℤ) - (kernelHeader data i).paddr.toNat % 512 ≤ a ∧
        a < ((kernelHeader data i).paddr.toNat : ℤ) - (kernelHeader data i).paddr.toNat % 512 +
          512 * (((kernelHeader data i).paddr.toNat % 512 + 0 + 511) / 512 : ℕ)) ↔
      0 ≤ segmentOffset data b i ∧ (kernelHeader data i).paddr.toNat % 512 ≠ 0 ∧
        a / 512 = ((kernelHeader data i).paddr.toNat / 512 : ℕ) := by omega
  have hzero : ¬ZeroFor data i a := by
    rw [ZeroFor, hnone, hfile]
    omega
  constructor
  · intro h
    have hread := h.2.resolve_right hzero
    rw [ReadFor, hfile] at hread
    exact ⟨hi, hnone, hsector.mp hread⟩
  · intro h
    refine ⟨hi, .inl ?_⟩
    rw [ReadFor, hfile]
    exact hsector.mpr h.2.2

/-- One that has bytes writes its own pages. -/
theorem LoadWrites.inPages (helf : KernelElf data pages) (h : LoadWrites data b i a)
    (hsome : 0 < (kernelHeader data i).memsz.toNat) : InPages data i a := by
  have hsize := helf.size i h.1
  have hlow := helf.low i h.1
  refine ⟨h.1, ?_⟩
  rcases h.2 with ⟨-, hlo, hhi⟩ | ⟨hlo, hhi⟩
  · -- the sectors read end with the one of the last byte of the file part
    rcases lt_or_ge a ((kernelHeader data i).paddr.toNat : ℤ) with hbefore | hbehind
    · exact ⟨0, hsome, by omega⟩
    · rcases lt_or_ge (a - (kernelHeader data i).paddr.toNat)
        ((kernelHeader data i).memsz.toNat : ℤ) with hin | hout
      · exact ⟨(a - (kernelHeader data i).paddr.toNat).toNat, by omega, by omega⟩
      · exact ⟨(kernelHeader data i).memsz.toNat - 1, by omega, by omega⟩
  · exact ⟨(a - (kernelHeader data i).paddr.toNat).toNat, by omega, by omega⟩

/-- The bytes of a segment are among what its round writes. -/
theorem loadWrites_own (hst : ElfStored d 0 data b) (helf : KernelElf data pages)
    (hi : IsSegment data i) {k : ℕ} (hk : k < (kernelHeader data i).memsz.toNat) :
    LoadWrites data b i ((kernelHeader data i).paddr.toNat + k) ∧
      loadByte d data b i ((kernelHeader data i).paddr.toNat + k) = segmentByte data i k := by
  rcases Nat.lt_or_ge k (kernelHeader data i).filesz.toNat with hfile | hzero
  · have hin := helf.inFile i hi (by omega)
    have hoffset := segmentOffset_eq hst helf hi (by omega)
    have hnot : ¬ZeroFor data i ((kernelHeader data i).paddr.toNat + k) := fun h => by
      have hle := h.1
      omega
    have hpos : (segmentOffset data b i + ((kernelHeader data i).paddr.toNat + k -
        (kernelHeader data i).paddr.toNat)).toNat =
          512 * b + ((kernelHeader data i).off.toNat + k) := by
      omega
    refine ⟨⟨hi, .inl ⟨by omega, by omega, by omega⟩⟩, ?_⟩
    rw [loadByte, if_neg hnot, hpos, hst.contents _ (by omega), segmentByte, if_pos hfile]
  · have hclear : ZeroFor data i ((kernelHeader data i).paddr.toNat + k) := ⟨by omega, by omega⟩
    refine ⟨⟨hi, .inr hclear⟩, ?_⟩
    rw [loadByte, if_pos hclear, segmentByte, if_neg (by omega)]

/-- What is spilled comes from the sector of the disk that `off` is in. -/
theorem loadByte_of_spills (helf : KernelElf data pages) (h : Spills data b i a) :
    loadByte d data b i a =
      diskByte d (segmentOffset data b i + (a - (kernelHeader data i).paddr.toNat)).toNat := by
  have hnot : ¬ZeroFor data i a := fun hzero => by
    have hsize := helf.size i h.1
    have hnone := h.2.1
    have hlo := hzero.1
    have hhi := hzero.2
    omega
  rw [loadByte, if_neg hnot]

end Round

/-! ## Before the loop -/

section Read

variable {d : Disk} {data : List UInt8} {b i pages : ℕ} {m : Machine}

/-- What the loop finds: the disk, and the first bytes of the file. -/
structure LoopStart (d : Disk) (data : List UInt8) (m : Machine) : Prop where
  disk : m.disk = d
  bytes : ∀ p < 4096, p < data.length → m.mem (0x8900 + (p : ℕ)) = data.getD p 0

theorem bootInode_spec (hst : ElfStored d 0 data b) (mem : Mem) :
    bootElfOffset ⟨d, mem, []⟩ = b ∧ (bootInode ⟨d, mem, []⟩).disk = d ∧
      ∀ a : ℤ, 0x100000 ≤ a → (bootInode ⟨d, mem, []⟩).mem a = mem a := by
  have hroom := hst.room
  have hblock := hst.inode
  simp only [NR_BLOCK, BITMAP_SIZE] at hroom
  obtain ⟨m₁, hm₁⟩ : ∃ m₁, m₁ = readseg 0x8000 512 (512 * 256 + 0) ⟨d, mem, []⟩ := ⟨_, rfl⟩
  have hdisk₁ : m₁.disk = d := by rw [hm₁, readseg_disk]
  have hdir : wordAt m₁.mem (0x8000 + 28) = inodeOffset (d 257) 0 := by
    have hword := @wordAt_readseg ⟨d, mem, []⟩ 0x8000 (512 * 256 + 0) 256 (by decide) (by decide) 28
      (by decide)
    rw [Nat.cast_ofNat] at hword
    rw [hm₁, hword, inodeOffset]
  have hinode : int32 (int32 (inodeOffset (d 257) 0).toNat * 512) =
      512 * (inodeOffset (d 257) 0).toNat := by
    simp only [NR_BLOCK, BITMAP_SIZE] at hblock
    have hno : int32 (inodeOffset (d 257) 0).toNat = (inodeOffset (d 257) 0).toNat :=
      int32_eq (by omega) (by omega)
    rw [hno, int32_eq (by omega) (by omega)]
    omega
  have hread : bootInode ⟨d, mem, []⟩ =
      readseg 0x8500 512 (int32 (int32 (inodeOffset (d 257) 0).toNat * 512)) m₁ := by
    simp only [bootInode, ← hm₁, hdir]
  have hword := @wordAt_readseg m₁ 0x8500 _ _ hinode hblock 0 (by decide)
  rw [← hread, hdisk₁, Nat.cast_zero, Int.add_zero] at hword
  have hfirst : (wordAt (bootInode ⟨d, mem, []⟩).mem 0x8500).toNat = b := by
    rw [hword, ← hst.first, dataBlockOffset]
  refine ⟨?_, by rw [hread, readseg_disk, hdisk₁], fun a ha => ?_⟩
  · rw [bootElfOffset, hfirst, int32_eq (by omega) (by omega)]
  · simp only [NR_BLOCK, BITMAP_SIZE] at hblock
    rw [hread, readseg_behind (n := 1) (by omega) hinode (by omega) (by omega), hm₁,
      readseg_behind (n := 1) (by omega) (show (512 * 256 + 0 : ℤ) = 512 * (256 : ℕ) by decide)
        (by omega) (by omega)]

theorem loopStart_bootRead (hst : ElfStored d 0 data b) (mem : Mem) :
    LoopStart d data (bootRead ⟨d, mem, []⟩) := by
  obtain ⟨hb, hdisk, -⟩ := bootInode_spec hst mem
  have hroom := hst.room
  simp only [NR_BLOCK, BITMAP_SIZE] at hroom
  have hoffset : int32 ((b : ℤ) * 512) = 512 * b := by
    rw [int32_eq (by omega) (by omega)]
    omega
  refine ⟨by rw [bootRead, readseg_disk, hdisk], fun p hp hlt => ?_⟩
  rw [bootRead, hb, readseg_sectors (n := 8) (by omega) hoffset (by omega) (by omega), hdisk,
    hst.contents p hlt]

/-- Nothing has been written from the first megabyte on. -/
theorem bootRead_behind (hst : ElfStored d 0 data b) (mem : Mem) {a : ℤ} (ha : 0x100000 ≤ a) :
    (bootRead ⟨d, mem, []⟩).mem a = mem a := by
  obtain ⟨hb, -, hmem⟩ := bootInode_spec hst mem
  have hroom := hst.room
  simp only [NR_BLOCK, BITMAP_SIZE] at hroom
  have hoffset : int32 ((b : ℤ) * 512) = 512 * b := by
    rw [int32_eq (by omega) (by omega)]
    omega
  rw [bootRead, hb, readseg_behind (n := 8) (by omega) hoffset (by omega) (by omega), hmem a ha]

/-- The program headers the loop reads are those of the file, as long as nothing has been put on
them. -/
theorem LoopStart.headers (h : LoopStart d data m) (helf : KernelElf data pages) :
    phoff (fun a => m.mem (0x8900 + a)) = phoff (fileBuffer data) ∧
      phnum (fun a => m.mem (0x8900 + a)) = kernelHeaders data ∧
      ∀ i < kernelHeaders data, ∀ mem : Mem, (∀ a : ℤ, a < 0x100000 → mem a = m.mem a) →
        bootHeader mem (0x8900 + (phoff (fileBuffer data) + 32 * i : ℕ)) = kernelHeader data i := by
  have hheader := helf.header
  have hheaders := helf.headers
  have hbyte : ∀ p < 4096, p < data.length →
      m.mem (0x8900 + (p : ℕ)) = fileBuffer data (p : ℕ) := fun p hp hlt => by
    rw [h.bytes p hp hlt, fileBuffer, Int.toNat_natCast]
  have hstart := @sameHeader_of_bytes data (fun a => m.mem (0x8900 + a)) hheader hbyte
  refine ⟨hstart.1, hstart.2, fun i hi mem hmem => ?_⟩
  refine bootHeader_congr fun k hk => ?_
  have hpos := hbyte (phoff (fileBuffer data) + 32 * i + k) (by omega) (by omega)
  have hcast : (0x8900 : ℤ) + (phoff (fileBuffer data) + 32 * i : ℕ) + k =
      0x8900 + (phoff (fileBuffer data) + 32 * i + k : ℕ) := by omega
  rw [hcast, hmem _ (by omega), hpos, Nat.cast_add]

end Read

/-! ## The loop -/

section Loop

variable {d : Disk} {data : List UInt8} {b pages : ℕ} {m : Machine}

/-- The state after the rounds of the first `i` headers. -/
def bootRounds (data : List UInt8) (b : ℕ) (m : Machine) (i : ℕ) : Machine :=
  countUp (fun i => bootSegment b (0x8900 + (phoff (fileBuffer data) + 32 * i : ℕ))) m i

@[simp] theorem bootRounds_zero (data : List UInt8) (b : ℕ) (m : Machine) :
    bootRounds data b m 0 = m := rfl

theorem bootRounds_succ (data : List UInt8) (b : ℕ) (m : Machine) (i : ℕ) :
    bootRounds data b m (i + 1) =
      bootSegment b (0x8900 + (phoff (fileBuffer data) + 32 * i : ℕ)) (bootRounds data b m i) := rfl

@[simp] theorem bootSegment_disk (elf_offset a : ℤ) (m : Machine) :
    (bootSegment elf_offset a m).disk = m.disk := by
  rw [bootSegment]
  split
  · rw [Machine.disk_setMem, readseg_disk]
  · rfl

theorem bootLoop_eq (h : LoopStart d data m) (helf : KernelElf data pages) :
    bootLoop b m = bootRounds data b m (kernelHeaders data) := by
  obtain ⟨hphoff, hphnum, -⟩ := h.headers helf
  simp only [bootLoop, hphoff, hphnum, bootRounds]

/-- What a round does, as long as disk and buffers are as they were. -/
theorem LoopStart.round (h : LoopStart d data m) (hst : ElfStored d 0 data b)
    (helf : KernelElf data pages) {i : ℕ} (hi : i < kernelHeaders data)
    (hd : (bootRounds data b m i).disk = d)
    (hlow : ∀ a : ℤ, a < 0x100000 → (bootRounds data b m i).mem a = m.mem a) (a : ℤ) :
    (LoadWrites data b i a → (bootRounds data b m (i + 1)).mem a = loadByte d data b i a) ∧
      (¬LoadWrites data b i a →
        (bootRounds data b m (i + 1)).mem a = (bootRounds data b m i).mem a) := by
  obtain ⟨-, -, hheader⟩ := h.headers helf
  rw [bootRounds_succ]
  exact bootSegment_mem hst helf hd (hheader i hi _ hlow) hi a

/-- Disk and buffers stay as they are. -/
theorem LoopStart.kept (h : LoopStart d data m) (hst : ElfStored d 0 data b)
    (helf : KernelElf data pages) {i : ℕ} (hi : i ≤ kernelHeaders data) :
    (bootRounds data b m i).disk = d ∧
      ∀ a : ℤ, a < 0x100000 → (bootRounds data b m i).mem a = m.mem a := by
  induction i with
  | zero => exact ⟨by rw [bootRounds_zero, h.disk], fun a _ => by rw [bootRounds_zero]⟩
  | succ i ih =>
    obtain ⟨hd, hlow⟩ := ih (by omega)
    refine ⟨by rw [bootRounds_succ, bootSegment_disk, hd], fun a ha => ?_⟩
    have hnot : ¬LoadWrites data b i a := fun hw => by
      have hle := le_of_loadWrites helf hw
      omega
    rw [(h.round hst helf (by omega) hd hlow a).2 hnot, hlow a ha]

/-- **The rounds of the loop**, each of which writes what its segment asks for. -/
theorem LoopStart.overwrites (h : LoopStart d data m) (hst : ElfStored d 0 data b)
    (helf : KernelElf data pages) :
    Overwrites (LoadWrites data b) (loadByte d data b) (fun i => (bootRounds data b m i).mem)
      (kernelHeaders data) := by
  refine ⟨fun i hi a hw => ?_, fun i hi a hw => ?_⟩ <;>
    obtain ⟨hd, hlow⟩ := h.kept (b := b) hst helf (Nat.le_of_lt hi)
  · exact (h.round hst helf hi hd hlow a).1 hw
  · exact (h.round hst helf hi hd hlow a).2 hw

end Loop

/-! ## The image -/

section Image

variable {d : Disk} {data : List UInt8} {b pages i j k : ℕ} {m : Machine} {a : ℤ}

/-- **The segments without bytes do no harm.** Where one spills, there are pages of other segments;
and on a byte of a segment listed before it, the last that spills puts what is there. -/
def EmptySegmentsFit (d : Disk) (data : List UInt8) (b : ℕ) : Prop :=
  (∀ i a, Spills data b i a → ∃ j, InPages data j a) ∧
    ∀ j, IsSegment data j → ∀ k < (kernelHeader data j).memsz.toNat, ∀ i, j < i →
      Spills data b i ((kernelHeader data j).paddr.toNat + k) →
      (∀ i', i < i' → ¬Spills data b i' ((kernelHeader data j).paddr.toNat + k)) →
        diskByte d (segmentOffset data b i + ((kernelHeader data j).paddr.toNat + k -
          (kernelHeader data i).paddr.toNat)).toNat = segmentByte data j k

/-- A round that writes outside the pages of its segment spills. -/
theorem spills_of_loadWrites (helf : KernelElf data pages) (h : LoadWrites data b i a)
    (hout : ¬InPages data i a) : Spills data b i a := by
  rcases Nat.eq_zero_or_pos (kernelHeader data i).memsz.toNat with hnone | hsome
  · exact (loadWrites_iff_spills helf h.1 hnone).mp h
  · exact absurd (h.inPages helf hsome) hout

/-- Another segment has no byte in the pages of segment `j`. -/
theorem not_inPages_of_ne (helf : KernelElf data pages) (hj : IsSegment data j)
    (hk : k < (kernelHeader data j).memsz.toNat) (hne : i ≠ j) :
    ¬InPages data i ((kernelHeader data j).paddr.toNat + k) := by
  rintro ⟨hi, l, hl, hpage⟩
  exact helf.disjoint i j hi hj hne l hl k hk (by omega)

/-- What a byte of a segment is in the end. -/
theorem own_byte (h : LoopStart d data m) (hst : ElfStored d 0 data b)
    (helf : KernelElf data pages) (hj : IsSegment data j)
    (hk : k < (kernelHeader data j).memsz.toNat) :
    ((∀ i, j < i → ¬Spills data b i ((kernelHeader data j).paddr.toNat + k)) →
      (bootRounds data b m (kernelHeaders data)).mem ((kernelHeader data j).paddr.toNat + k) =
        segmentByte data j k) ∧
    ∀ i, j < i → Spills data b i ((kernelHeader data j).paddr.toNat + k) →
      (∀ i', i < i' → ¬Spills data b i' ((kernelHeader data j).paddr.toNat + k)) →
      (bootRounds data b m (kernelHeaders data)).mem ((kernelHeader data j).paddr.toNat + k) =
        diskByte d (segmentOffset data b i + ((kernelHeader data j).paddr.toNat + k -
          (kernelHeader data i).paddr.toNat)).toNat := by
  have hover := h.overwrites hst helf
  have hspills : ∀ i, j < i → LoadWrites data b i ((kernelHeader data j).paddr.toNat + k) →
      Spills data b i ((kernelHeader data j).paddr.toNat + k) := fun i hji hw =>
    spills_of_loadWrites helf hw (not_inPages_of_ne helf hj hk (Nat.ne_of_gt hji))
  obtain ⟨hown, hbyte⟩ := loadWrites_own hst helf hj hk
  refine ⟨fun hnone => ?_, fun i hji hspill hlast => ?_⟩
  · rw [← hbyte]
    exact hover.eq_of_last hj.1 hown fun i hji _ hw => hnone i hji (hspills i hji hw)
  · rw [← loadByte_of_spills helf hspill]
    refine hover.eq_of_last hspill.1.1 ((loadWrites_iff_spills helf hspill.1 hspill.2.1).mpr hspill)
      fun i' hii' _ hw => hlast i' hii' (hspills i' (by omega) hw)

/-- An address that some round writes holds in the end what the last of these rounds has put there,
whatever was in memory. -/
theorem exists_final_byte (hst : ElfStored d 0 data b) (helf : KernelElf data pages)
    (h : LoadWrites data b i a) :
    ∃ v, ∀ m, LoopStart d data m → (bootRounds data b m (kernelHeaders data)).mem a = v := by
  obtain ⟨l, -, hl, hw, hlast⟩ :=
    exists_last_writer (W := LoadWrites data b) ⟨i, Nat.zero_le i, h.1.1, h⟩
  exact ⟨loadByte d data b l a, fun m hm => (hm.overwrites hst helf).eq_of_last hl hw hlast⟩

/-- An address that no round writes. -/
theorem LoopStart.final_kept (h : LoopStart d data m) (hst : ElfStored d 0 data b)
    (helf : KernelElf data pages) (hfree : ∀ i, ¬LoadWrites data b i a) :
    (bootRounds data b m (kernelHeaders data)).mem a = m.mem a := by
  have hkept := (h.overwrites hst helf).eq_of_kept (Nat.zero_le _) fun i _ _ => hfree i
  rwa [bootRounds_zero] at hkept

/-- The loop starts with what has been read, and changes memory from the first megabyte on. -/
theorem bootmain_mem (hst : ElfStored d 0 data b) (helf : KernelElf data pages) (mem : Mem) :
    ∃ m, LoopStart d data m ∧ m = bootRead ⟨d, mem, []⟩ ∧
      (∀ a : ℤ, 0x100000 ≤ a → m.mem a = mem a) ∧
      (bootmain ⟨d, mem, []⟩).mem = (bootRounds data b m (kernelHeaders data)).mem := by
  obtain ⟨m, hm⟩ : ∃ m, m = bootRead ⟨d, mem, []⟩ := ⟨_, rfl⟩
  have hstart : LoopStart d data m := hm ▸ loopStart_bootRead hst mem
  refine ⟨m, hstart, hm, fun a ha => by rw [hm, bootRead_behind hst mem ha], ?_⟩
  rw [bootmain, (bootInode_spec hst mem).1, ← hm, bootLoop_eq hstart helf]

/-- **When the kernel is loaded**, from the last writer of each address. -/
theorem loadsKernel_iff_fits (hst : ElfStored d 0 data b) (helf : KernelElf data pages) :
    LoadsKernel d data ↔ EmptySegmentsFit d data b := by
  constructor
  · intro h
    refine ⟨fun i a hspill => ?_, fun j hj k hk i hji hspill hlast => ?_⟩
    · -- outside all pages the last writer would have to put what was there, whatever it was
      by_contra hnone
      rw [not_exists] at hnone
      have hwrites := (loadWrites_iff_spills helf hspill.1 hspill.2.1).mpr hspill
      obtain ⟨v, hv⟩ := exists_final_byte hst helf hwrites
      have hsame : ∀ w : UInt8, w = v := fun w => by
        obtain ⟨m, hstart, hm, hbehind, hmem⟩ := bootmain_mem hst helf fun _ => w
        have hkept := (h fun _ => w).2 a hnone
        rw [hmem, ← hm, hv m hstart, hbehind a (le_of_loadWrites helf hwrites)] at hkept
        exact hkept.symm
      exact absurd ((hsame 0).trans (hsame 1).symm) (by decide)
    · obtain ⟨m, hstart, -, -, hmem⟩ := bootmain_mem hst helf fun _ => 0
      have hright := (h fun _ => 0).1 j hj k hk
      rw [hmem, (own_byte hstart hst helf hj hk).2 i hji hspill hlast] at hright
      exact hright
  · rintro ⟨hpages, hbytes⟩ mem
    obtain ⟨m, hstart, hm, -, hmem⟩ := bootmain_mem hst helf mem
    rw [hmem, ← hm]
    refine ⟨fun j hj k hk => ?_, fun a hout => ?_⟩
    · obtain ⟨hclean, hspilled⟩ := own_byte hstart hst helf hj hk
      by_cases hlater : ∃ i, j + 1 ≤ i ∧ i < kernelHeaders data ∧
          Spills data b i ((kernelHeader data j).paddr.toNat + k)
      · obtain ⟨i, hji, -, hspill, hlast⟩ := exists_last_writer (W := Spills data b) hlater
        have hlast' : ∀ i', i < i' → ¬Spills data b i' ((kernelHeader data j).paddr.toNat + k) :=
          fun i' hii' hs => hlast i' hii' hs.1.1 hs
        rw [hspilled i hji hspill hlast', hbytes j hj k hk i hji hspill hlast']
      · exact hclean fun i hji hspill => hlater ⟨i, hji, hspill.1.1, hspill⟩
    · refine hstart.final_kept hst helf fun i hw => ?_
      obtain ⟨j, hj⟩ := hpages i a (spills_of_loadWrites helf hw (hout i))
      exact hout j hj

/-- **The boot loader builds the kernel image** exactly if the segments without bytes do no harm. -/
theorem loadsKernel_iff (d : Disk) (data : List UInt8) (b pages : ℕ) (hst : ElfStored d 0 data b)
    (helf : KernelElf data pages) : LoadsKernel d data ↔ EmptySegmentsFit d data b :=
  loadsKernel_iff_fits hst helf

end Image

/-! ### A kernel of one segment -/

section Small

theorem kernelHeaders_bareElf (off size : UInt8) : kernelHeaders (bareElf off size size) = 1 :=
  phnum_bareElf off size size

theorem eq_zero_of_isSegment {off size : UInt8} {i : ℕ} (h : IsSegment (bareElf off size size) i) :
    i = 0 := by
  have hlt := h.1
  rw [kernelHeaders_bareElf] at hlt
  omega

/-- What is to be checked of a file with one program header. -/
theorem kernelElf_bareElf {off size : UInt8}
    (h : (kernelHeader (bareElf off size size) 0).off.toNat + size.toNat ≤ 84 ∧
      (kernelHeader (bareElf off size size) 0).off.toNat % 4096 =
        (kernelHeader (bareElf off size size) 0).paddr.toNat % 4096 ∧
      0x100000 ≤ (kernelHeader (bareElf off size size) 0).paddr.toNat ∧
      (kernelHeader (bareElf off size size) 0).paddr.toNat + size.toNat ≤ 4096 * 512 ∧
      (kernelHeader (bareElf off size size) 0).filesz.toNat = size.toNat ∧
      (kernelHeader (bareElf off size size) 0).memsz.toNat = size.toNat) :
    KernelElf (bareElf off size size) 512 := by
  obtain ⟨hfile, halign, hlow, hhigh, hfilesz, hmemsz⟩ := h
  refine ⟨by decide, (by decide : 52 ≤ 84), ?_, ?_, ?_, ?_, ?_, ?_, ?_⟩
  · rw [phoff_bareElf, kernelHeaders_bareElf, length_bareElf]
    decide
  · exact fun i hi => by rw [eq_zero_of_isSegment hi, halign]
  · exact fun i hi => by rw [eq_zero_of_isSegment hi, hfilesz, hmemsz]
  · exact fun i hi => by rw [eq_zero_of_isSegment hi]; exact hlow
  · exact fun i hi _ => by rw [eq_zero_of_isSegment hi, hfilesz]; exact hfile
  · exact fun i hi => by rw [eq_zero_of_isSegment hi, hmemsz]; exact hhigh
  · exact fun i j hi hj hne =>
      absurd ((eq_zero_of_isSegment hi).trans (eq_zero_of_isSegment hj).symm) hne

theorem loadsKernel_text :
    LoadsKernel (bareDisk 0 (bareElf 0 84 84)) (bareElf 0 84 84) ↔
      EmptySegmentsFit (bareDisk 0 (bareElf 0 84 84)) (bareElf 0 84 84) 258 :=
  loadsKernel_iff _ _ 258 512 (elfStored_bareDisk (by decide) (by decide))
    (kernelElf_bareElf (by decide))

/-- **A segment without bytes** changes the sector that it would start in. -/
theorem emptySegment_spills :
    ElfStored (bareDisk 0 (bareElf 16 0 0)) 0 (bareElf 16 0 0) 258 ∧
      KernelElf (bareElf 16 0 0) 512 ∧
      ¬LoadsKernel (bareDisk 0 (bareElf 16 0 0)) (bareElf 16 0 0) := by
  have hst := @elfStored_bareDisk 0 (bareElf 16 0 0) (by decide) (by decide)
  have helf := @kernelElf_bareElf 16 0 (by decide)
  refine ⟨hst, helf, fun hloads => ?_⟩
  have hspill : Spills (bareElf 16 0 0) 258 0 0x100000 := by
    refine ⟨⟨by decide, by decide⟩, ?_, ?_, ?_, ?_⟩ <;> decide
  obtain ⟨j, hj, k, hk, -⟩ := ((loadsKernel_iff_fits hst helf).mp hloads).1 0 _ hspill
  have hempty : (kernelHeader (bareElf 16 0 0) 0).memsz.toNat = 0 := by decide
  rw [eq_zero_of_isSegment hj, hempty] at hk
  exact absurd hk (Nat.not_lt_zero k)

end Small

end OsLab

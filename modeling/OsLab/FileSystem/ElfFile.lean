import OsLab.Disk.BitAlloc
import OsLab.FileSystem.Seg

/-!
# ELF files on the disk

The kernel and the game are ELF files, stored in consecutive blocks; `bootmain` and `loader` read
the directory, the inode and the first eight sectors of the file, and look at its headers there.

## Main definitions

* `wordAt` — the word at position `a` of a buffer
* `ElfStored` — the file lies in the blocks from `b` on, and entry `e` of the directory leads there
-/

namespace OsLab

/-- The type of a program header whose segment is loaded. -/
def PT_LOAD : UInt32 := 1

/-- The word at position `a` of a buffer. -/
def wordAt (buf : Mem) (a : ℤ) : UInt32 := ByteBlock.le32 fun k => buf (a + k)

/-- `elf->phoff` -/
def phoff (elf : Mem) : ℕ := (wordAt elf 28).toNat

/-- `elf->phnum` -/
def phnum (elf : Mem) : ℕ := (elf 44).toNat + 256 * (elf 45).toNat

/-- A file as a buffer. -/
def fileBuffer (data : List UInt8) : Mem := fun a => data.getD a.toNat 0

/-- The file lies in the blocks from `b` on, and entry `e` of the directory leads there. -/
structure ElfStored (d : Disk) (e : ℕ) (data : List UInt8) (b : ℕ) : Prop where
  inode : (inodeOffset (d 257) e).toNat < NR_BLOCK
  first : (dataBlockOffset (d ((inodeOffset (d 257) e).toNat + 1)) 0).toNat = b
  contents : ∀ p < data.length, diskByte d (512 * b + p) = data.getD p 0
  room : 512 * b + data.length ≤ 512 * NR_BLOCK

/-! ## Whole sectors -/

section Read

variable {m : Machine} {data : List UInt8}

@[simp] theorem segLoop_disk (epa pa offset : ℤ) (m : Machine) :
    (segLoop readsect epa pa offset m).disk = m.disk := by
  fun_induction segLoop readsect epa pa offset m with
  | case1 pa offset m hlt ih => exact ih
  | case2 pa offset m hge => rfl

@[simp] theorem readseg_disk (pa count offset : ℤ) (m : Machine) :
    (readseg pa count offset m).disk = m.disk := segLoop_disk ..

/-- A read of whole sectors. -/
theorem readseg_sectors {pa c o : ℤ} {block n : ℕ} (hc : c = 512 * n) (ho : o = 512 * block)
    (h : 512 * block + 512 * n < 2 ^ 31) {k : ℕ} (hk : k < 512 * n) :
    (readseg pa c o m).mem (pa + k) = diskByte m.disk (512 * block + k) := by
  have hread := @readseg_mem pa (512 * n) (512 * block) m (by omega) (pa + k)
  have hmod : 512 * block % 512 = 0 := by omega
  have hpos : (pa + k - (pa - ((0 : ℕ) : ℤ))).toNat = k := by omega
  have hdiv : 512 * (512 * block / 512) = 512 * block := by omega
  rw [hmod, if_pos (by omega), hpos, hdiv] at hread
  rw [hc, ho, ← hread]
  simp

/-- A read leaves what is behind its sectors. -/
theorem readseg_behind {pa c o a : ℤ} {block n : ℕ} (hc : c = 512 * n) (ho : o = 512 * block)
    (h : 512 * block + 512 * n < 2 ^ 31) (ha : pa + 512 * n ≤ a) :
    (readseg pa c o m).mem a = m.mem a := by
  have hread := @readseg_mem pa (512 * n) (512 * block) m (by omega) a
  have hmod : 512 * block % 512 = 0 := by omega
  rw [hmod, if_neg (by omega)] at hread
  rw [hc, ho, ← hread]
  simp

/-- A word in a block that has been read. -/
theorem wordAt_readseg {pa o : ℤ} {block : ℕ} (ho : o = 512 * block)
    (h : block < NR_BLOCK) {p : ℕ} (hp : p + 4 ≤ 512) :
    wordAt (readseg pa 512 o m).mem (pa + p) = (m.disk (block + 1)).get32 p := by
  refine ByteBlock.le32_congr fun k hk => ?_
  simp only [NR_BLOCK, BITMAP_SIZE] at h
  have hcast : pa + (p : ℤ) + (k : ℤ) = pa + (p + k : ℕ) := by omega
  have hdiv : (512 * block + (p + k)) / 512 = block := by omega
  have hmod : (512 * block + (p + k)) % 512 = p + k := by omega
  rw [hcast, readseg_sectors (n := 1) (by omega) ho (by omega) (by omega), diskByte, hdiv, hmod]

/-! ## The ELF header -/

theorem wordAt_congr {buf buf' : Mem} {a a' : ℤ}
    (h : ∀ k : ℕ, k < 4 → buf (a + k) = buf' (a' + k)) :
    wordAt buf a = wordAt buf' a' :=
  ByteBlock.le32_congr h

/-- A word of a program header that is in two buffers. -/
theorem headerWord_congr {buf buf' : Mem} {a a' : ℤ}
    (h : ∀ k : ℕ, k < 24 → buf (a + k) = buf' (a' + k)) {o : ℕ} (ho : o ≤ 20) :
    wordAt buf (a + o) = wordAt buf' (a' + o) :=
  wordAt_congr fun k hk => by
    have hpos := h (o + k) (by omega)
    rwa [Nat.cast_add, ← Int.add_assoc, ← Int.add_assoc] at hpos

/-- A buffer with the first bytes of the file has its ELF header. -/
theorem sameHeader_of_bytes {buf : Mem} (hlen : 52 ≤ data.length)
    (h : ∀ p < 4096, p < data.length → buf (p : ℕ) = fileBuffer data (p : ℕ)) :
    phoff buf = phoff (fileBuffer data) ∧ phnum buf = phnum (fileBuffer data) := by
  constructor
  · rw [phoff, phoff]
    congr 1
    refine wordAt_congr fun k hk => ?_
    have hpos := h (28 + k) (by omega) (by omega)
    rwa [Nat.cast_add, Nat.cast_ofNat] at hpos
  · have h44 := h 44 (by decide) (by omega)
    have h45 := h 45 (by decide) (by omega)
    rw [Nat.cast_ofNat] at h44 h45
    rw [phnum, phnum, h44, h45]

end Read

/-! ## A small file -/

section Small

/-- A disk with the file in the blocks from 258 on, the inode of entry `e` before it. -/
def bareDisk (e : ℕ) (data : List UInt8) : Disk := fun s =>
  if s = 257 then zeroSector.set32 (32 * e + 28) 257
  else if s = 258 then setDataBlockOffset zeroSector 0 258
  else ByteBlock.ofFn 512 fun i => data.getD (512 * (s - 259) + i) 0

/-- An ELF header with `phoff = 52` and `phnum = 1`, and behind it a `PT_LOAD` header with the given
sizes, whose `off` is the byte `off`. The virtual address is 4 MiB more, the physical one 1 MiB. -/
def bareElf (off filesz memsz : UInt8) : List UInt8 :=
  List.replicate 28 0 ++ [52, 0, 0, 0] ++ List.replicate 12 0 ++ [1, 0] ++ List.replicate 6 0 ++
    [1, 0, 0, 0] ++ [off, 0, 0, 0] ++ [off, 0, 64, 0] ++ [off, 0, 16, 0] ++ [filesz, 0, 0, 0] ++
    [memsz, 0, 0, 0] ++ List.replicate 8 0

/-- The ELF header is the same in all of these files. -/
theorem fileBuffer_bareElf (off filesz memsz : UInt8) {a : ℤ} (ha : a < 52) :
    fileBuffer (bareElf off filesz memsz) a = fileBuffer (bareElf 0 0 0) a := by
  have hhead : ∀ tail : List UInt8,
      (List.replicate 28 0 ++ [52, 0, 0, 0] ++ List.replicate 12 0 ++ [1, 0] ++
        List.replicate 6 0 ++ tail).getD a.toNat 0 =
      (List.replicate 28 (0 : UInt8) ++ [52, 0, 0, 0] ++ List.replicate 12 0 ++ [1, 0] ++
        List.replicate 6 0).getD a.toNat 0 :=
    fun tail => List.getD_append _ _ _ _ (Nat.lt_of_lt_of_eq (show a.toNat < 52 by omega) rfl)
  simp only [fileBuffer, bareElf, List.append_assoc] at hhead ⊢
  rw [hhead, hhead]

theorem phoff_bareElf (off filesz memsz : UInt8) :
    phoff (fileBuffer (bareElf off filesz memsz)) = 52 := by
  have hword : wordAt (fileBuffer (bareElf off filesz memsz)) 28 =
      wordAt (fileBuffer (bareElf 0 0 0)) 28 :=
    wordAt_congr fun k hk => fileBuffer_bareElf _ _ _ (by omega)
  rw [phoff, hword]
  decide +kernel

theorem phnum_bareElf (off filesz memsz : UInt8) :
    phnum (fileBuffer (bareElf off filesz memsz)) = 1 := by
  rw [phnum, fileBuffer_bareElf off filesz memsz (a := 44) (by decide),
    fileBuffer_bareElf off filesz memsz (a := 45) (by decide)]
  decide +kernel

theorem length_bareElf (off filesz memsz : UInt8) : (bareElf off filesz memsz).length = 84 := rfl

theorem elfStored_bareDisk {e : ℕ} {data : List UInt8} (he : e < 16) (h : data.length ≤ 65536) :
    ElfStored (bareDisk e data) e data 258 := by
  have hdirect : bareDisk e data 257 = zeroSector.set32 (32 * e + 28) 257 := if_pos rfl
  have hinode : inodeOffset (bareDisk e data 257) e = 257 := by
    rw [hdirect, inodeOffset, ByteBlock.get32_set32 _ (by omega)]
  have hno : (inodeOffset (bareDisk e data 257) e).toNat = 257 := by rw [hinode]; rfl
  have hsector : bareDisk e data (257 + 1) = setDataBlockOffset zeroSector 0 258 := rfl
  refine ⟨by rw [hno]; decide, ?_, fun p hp => ?_, ?_⟩
  · rw [hno, hsector, dataBlockOffset_set_self _ (by decide)]
    rfl
  · have hs : (512 * 258 + p) / 512 + 1 = 259 + p / 512 := by omega
    have hpos : 512 * (259 + p / 512 - 259) + (512 * 258 + p) % 512 = p := by omega
    rw [diskByte, hs, bareDisk, if_neg (by omega), if_neg (by omega), ByteBlock.get_ofFn,
      if_pos (by omega), hpos]
  · simp only [NR_BLOCK, BITMAP_SIZE]
    omega

end Small

end OsLab

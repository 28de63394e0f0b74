import OsLab.Disk.BitAlloc

/-!
# `formatter`

The image every run of `copy2myfs` starts from. The bitmap marks the 256 blocks it occupies
itself and the directory block; the sixteen directory entries are free, that is, they have
`inode_offset` equal to `-1`; the inodes are all `-1`.

The data zone is filled from `data`, an array of 512 bytes that the program writes 64 KiB from.
What follows the array in memory ends up on the disk, so the contents of the data zone are a
parameter here, as is the boot sector.

## Main results

* `used_formatter` — which blocks are marked
* `readBitmap_formatter`, `formatter_dir` — the bitmap and the directory that are read back
-/

namespace OsLab

/-- The bitmap `formatter` writes. -/
def formatBitmap : Bitmap := fun i =>
  if i < BITMAP_USED_BYTE then 0xff
  else if i = BITMAP_USED_BYTE then setBit 0 7
  else 0

/-- The directory after the first `j` rounds of the initialising loop. -/
def formatDir : ℕ → Sector
  | 0 => zeroSector
  | j + 1 =>
    (((formatDir j).copyAt (32 * j) [0]).set32 (32 * j + 24) 0).set32 (32 * j + 28) minusOne

/-- `formatter`: the image, given the boot sector and the 128 sectors of memory from `data` on. -/
def formatter (boot : Sector) (data : ℕ → Sector) : Disk :=
  let dir_bitoffset := BITMAP_USED_BYTE * 8
  let d : Disk := fun _ => zeroSector
  let d := (List.range 32).foldl
    (fun d i => d.writeMany (1 + dir_bitoffset + 1 + 32 + i * 128) 128 data) d
  let d := d.writeMany (1 + dir_bitoffset + 1) 32 fun _ => emptyInode
  let d := d.write (1 + dir_bitoffset) (formatDir NR_DIR_ENTRY)
  let d := writeBitmap d formatBitmap
  d.write 0 boot

/-! ## What the image holds -/

theorem formatDir_get {n i : ℕ} (h : i % 32 < 28) : (formatDir n).get i = 0 := by
  induction n with
  | zero => simp [formatDir, zeroSector]
  | succ n ih =>
    rw [formatDir, ByteBlock.get_set32_of_not_mem _ (by omega)]
    by_cases hsize : 32 * n + 24 ≤ i ∧ i < 32 * n + 28
    · have hzero : ∀ k < 4, ByteBlock.byte32 0 k = 0 := by decide
      by_cases hi : i < 512
      · simp [ByteBlock.set32, hi, hsize, hzero (i - (32 * n + 24)) (by omega)]
      · exact ByteBlock.get_of_le (by omega)
    · rw [ByteBlock.get_set32_of_not_mem _ (by omega)]
      by_cases hname : i = 32 * n
      · subst hname
        by_cases hi : 32 * n < 512
        · exact ByteBlock.get_copyAt (k := 0) (by simp) (by omega)
        · exact ByteBlock.get_of_le (by omega)
      · rw [ByteBlock.get_copyAt_of_not_mem (by simp; omega), ih]

theorem inodeOffset_formatDir {n e : ℕ} (he : e < n) (hn : n ≤ NR_DIR_ENTRY) :
    inodeOffset (formatDir n) e = minusOne := by
  simp only [NR_DIR_ENTRY] at hn
  induction n with
  | zero => omega
  | succ n ih =>
    rw [inodeOffset, formatDir]
    rcases Nat.eq_or_lt_of_le (Nat.le_of_lt_succ he) with rfl | he
    · exact ByteBlock.get32_set32 _ (by omega)
    · rw [ByteBlock.get32_set32_of_disjoint _ (by omega),
        ByteBlock.get32_set32_of_disjoint _ (by omega),
        ByteBlock.get32_copyAt_of_disjoint (by simp; omega)]
      exact ih he (by omega)

theorem used_formatBitmap (b : ℕ) : used formatBitmap b = decide (b < 257) := by
  have hdir : ∀ q < 8, bit (setBit 0 7) (7 - q) = decide (q = 0) := by decide
  have hfull : ∀ q < 8, bit 0xff (7 - q) = true := by decide
  rw [used, formatBitmap]
  split_ifs with hlt heq <;> simp only [BITMAP_USED_BYTE] at hlt
  · have hb : b < 257 := by omega
    simp [hfull _ (show b % 8 < 8 by omega), hb]
  · simp only [BITMAP_USED_BYTE] at heq
    rw [hdir _ (by omega)]
    exact decide_eq_decide.mpr (by omega)
  · simp only [BITMAP_USED_BYTE] at heq
    have hge : ¬b < 257 := by omega
    simp [bit, hge]

variable (boot : Sector) (data : ℕ → Sector)

@[simp] theorem formatter_dir : formatter boot data 257 = formatDir NR_DIR_ENTRY := by
  simp [formatter, BITMAP_USED_BYTE, Disk.write_of_ne, writeBitmap_of_ge]

theorem readBitmap_formatter {i : ℕ} (h : i < BITMAP_SIZE) :
    readBitmap (formatter boot data) i = formatBitmap i := by
  have hboot : ∀ (d : Disk) s, 1 ≤ s → s < 257 → d.write 0 boot s = d s := fun d s hs _ =>
    Disk.write_of_ne _ (by omega)
  rw [formatter, readBitmap_congr (hboot _) h, readBitmap_writeBitmap h]

/-- In a formatted image exactly the bitmap's blocks and the directory are in use. -/
theorem used_formatter {b : ℕ} (h : b < NR_BLOCK) :
    used (readBitmap (formatter boot data)) b = decide (b < 257) := by
  simp only [NR_BLOCK] at h
  rw [← used_formatBitmap, used, used, readBitmap_formatter boot data (by omega)]

end OsLab
